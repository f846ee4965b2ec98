/-
  NetworkingFinal.Dns.Receive

  Which datagrams get past `recvfrom`, which catches `socket.error` only; the decoder
  never raises that.

  - `InRow`: records one after another, each with what it leaves in the table of names.
  - `receives_iff`: the datagrams that end no loop.
-/
import NetworkingFinal.Dns.Controller
import NetworkingFinal.Dns.Wire

namespace NetworkingFinal
namespace Dns

open Py Py.Prog Py.Struct

-- ============================================================================
-- Records in a row
-- ============================================================================

/-- A number of records, each from the offset and the names that the one before it
    leaves. -/
inductive InRow (S : Nat → DomainNames → Nat → DomainNames → Prop) :
    Nat → Nat → DomainNames → Nat → DomainNames → Prop
  | nil {offset : Nat} {names : DomainNames} : InRow S 0 offset names offset names
  | cons {count offset next last : Nat} {names names' names'' : DomainNames}
      (first : S offset names next names') (rest : InRow S count next names' last names'') :
      InRow S (count + 1) offset names last names''

theorem readRecords_ok_iff {α : Type}
    {read : Nat → DomainNames → Except Exn (α × Nat × DomainNames)}
    {S : Nat → DomainNames → Nat → DomainNames → Prop}
    (hread : ∀ offset names next names',
      (∃ r, read offset names = .ok (r, next, names')) ↔ S offset names next names')
    {count offset last : Nat} {names names' : DomainNames} :
    (∃ rs, readRecords read count offset names = .ok (rs, last, names')) ↔
      InRow S count offset names last names' := by
  induction count generalizing offset names with
  | zero =>
      constructor
      · rintro ⟨rs, hrs⟩
        cases hrs
        exact .nil
      · intro h
        cases h
        exact ⟨[], rfl⟩
  | succ count ih =>
      constructor
      · rintro ⟨rs, hrs⟩
        obtain ⟨⟨r, next, names₁⟩, hr, hrest⟩ := except_bind_ok_iff.mp hrs
        obtain ⟨⟨rest, last', names₂⟩, hrecords, hout⟩ := except_bind_ok_iff.mp hrest
        cases hout
        exact .cons ((hread _ _ _ _).mp ⟨r, hr⟩) (ih.mp ⟨rest, hrecords⟩)
      · intro h
        cases h with
        | cons first rest =>
            obtain ⟨r, hr⟩ := (hread _ _ _ _).mpr first
            obtain ⟨rs, hrs⟩ := ih.mpr rest
            refine ⟨r :: rs, ?_⟩
            rw [readRecords, hr, except_ok_bind]
            dsimp only
            rw [hrs]
            rfl

/-- A question: a name that can be read, and two numbers. -/
def QuestionAt (data : Bytes) (offset : Nat) (names : DomainNames) (next : Nat)
    (names' : DomainNames) : Prop :=
  ∃ name nameEnd, unpackHostName data offset = .ok (name, nameEnd) ∧ next = nameEnd + 4 ∧
    names' = names.set name offset

/-- What the data of a record adds to the names: the name a CNAME record holds before its
    last two bytes, which must be readable. -/
def AliasAt (type : Nat) (rData : Bytes) (nameOffset : Nat) (names names' : DomainNames) : Prop :=
  if type = DNSAnswerRecord.typeCNAME then
    ∃ name nameEnd, unpackHostName (rData.take (rData.length - 2)) 0 = .ok (name, nameEnd) ∧
      names' = names.set name nameOffset
  else names' = names

/-- A record: the second byte lies inside the data and is the offset of a known name. -/
def RecordAt (data : Bytes) (offset : Nat) (names : DomainNames) (next : Nat)
    (names' : DomainNames) : Prop :=
  ∃ low, data[offset + 1]? = some low ∧ (∃ name, names.get? name = some low.toNat) ∧
    let rDataLength := (unpackIntFrom data (offset + 10) 2).1
    next = offset + 12 + rDataLength ∧
      AliasAt (unpackIntFrom data (offset + 2) 2).1
        (slice data (offset + 12) (offset + 12 + rDataLength)) (offset + 12) names names'

theorem questionAt_iff (data : Bytes) (offset : Nat) (names : DomainNames) (next : Nat)
    (names' : DomainNames) :
    (∃ r, DNSQueryRecord.fromBytes data offset names = .ok (r, next, names')) ↔
      QuestionAt data offset names next names' := by
  unfold DNSQueryRecord.fromBytes QuestionAt
  constructor
  · rintro ⟨r, hr⟩
    obtain ⟨⟨name, nameEnd⟩, hname, hout⟩ := except_bind_ok_iff.mp hr
    cases hout
    exact ⟨name, nameEnd, hname, rfl, rfl⟩
  · rintro ⟨name, nameEnd, hname, rfl, rfl⟩
    exact ⟨_, by rw [hname]; rfl⟩

theorem namesRead_ok_iff (names : DomainNames) (type : Nat) (rData : Bytes) (nameOffset : Nat)
    (names' : DomainNames) :
    DNSAnswerRecord.namesRead names type rData nameOffset = .ok names' ↔
      AliasAt type rData nameOffset names names' := by
  unfold DNSAnswerRecord.namesRead AliasAt
  split
  · constructor
    · intro h
      obtain ⟨⟨name, nameEnd⟩, hname, hout⟩ := except_bind_ok_iff.mp h
      cases hout
      exact ⟨name, nameEnd, hname, rfl⟩
    · rintro ⟨name, nameEnd, hname, rfl⟩
      rw [hname]
      rfl
  · rw [Except.ok.injEq, eq_comm]

/-- What the decoder of a record returns. -/
theorem DNSAnswerRecord.fromBytes_ok_iff (data : Bytes) (offset : Nat) (names : DomainNames)
    (r : DNSAnswerRecord) (next : Nat) (names' : DomainNames) :
    DNSAnswerRecord.fromBytes data offset names = .ok (r, next, names') ↔
      ∃ low, data[offset + 1]? = some low ∧
        (reversedDomainNames names).get? low.toNat = some r.domainName ∧
        r.type = (unpackIntFrom data (offset + 2) 2).1 ∧
        r.clase = (unpackIntFrom data (offset + 4) 2).1 ∧
        r.ttl = (unpackIntFrom data (offset + 6) 4).1 ∧
        next = offset + 12 + (unpackIntFrom data (offset + 10) 2).1 ∧
        r.rData = slice data (offset + 12) next ∧
        AliasAt r.type r.rData (offset + 12) names names' := by
  unfold DNSAnswerRecord.fromBytes
  dsimp only
  cases hlow : data[offset + 1]? with
  | none => exact ⟨nofun, nofun⟩
  | some low =>
      simp only [Option.some.injEq, exists_eq_left']
      cases hname : (reversedDomainNames names).get? low.toNat with
      | none => exact ⟨nofun, nofun⟩
      | some domainName =>
          dsimp only
          rw [Option.some.injEq]
          constructor
          · intro h
            obtain ⟨names₁, hnames, hout⟩ := except_bind_ok_iff.mp h
            cases hout
            exact ⟨rfl, rfl, rfl, rfl, rfl, rfl, (namesRead_ok_iff _ _ _ _ _).mp hnames⟩
          · rintro ⟨rfl, htype, hclase, httl, rfl, hrData, halias⟩
            have hread := (namesRead_ok_iff _ _ _ _ _).mpr halias
            rw [htype, hrData] at hread
            simp only [unpackIntFrom] at hread htype hclase httl hrData ⊢
            rw [hread]
            simp only [except_ok_bind, except_pure, Except.ok.injEq, Prod.mk.injEq, and_true]
            cases r
            simp_all

theorem recordAt_iff (data : Bytes) (offset : Nat) (names : DomainNames) (next : Nat)
    (names' : DomainNames) :
    (∃ r, DNSAnswerRecord.fromBytes data offset names = .ok (r, next, names')) ↔
      RecordAt data offset names next names' := by
  unfold RecordAt
  simp only [DNSAnswerRecord.fromBytes_ok_iff]
  constructor
  · rintro ⟨r, low, hlow, hname, htype, -, -, rfl, hrData, halias⟩
    rw [htype, hrData] at halias
    exact ⟨low, hlow, ⟨_, get?_of_reversed hname⟩, rfl, halias⟩
  · rintro ⟨low, hlow, ⟨name, hname⟩, rfl, halias⟩
    obtain ⟨name', hname'⟩ := exists_reversed hname
    exact ⟨⟨name', _, _, _, _⟩, low, hlow, hname', rfl, rfl, rfl, rfl, rfl, halias⟩

-- ============================================================================
-- Messages
-- ============================================================================

/-- The header, the questions and three sections of records that its counts ask for. -/
def MessageAt (data : Bytes) : Prop :=
  12 ≤ data.length ∧ ∃ o₁ o₂ o₃ o₄ names₁ names₂ names₃ names₄,
    InRow (QuestionAt data) (unpackIntFrom data 4 2).1 12 Dict.empty o₁ names₁ ∧
    InRow (RecordAt data) (unpackIntFrom data 6 2).1 o₁ names₁ o₂ names₂ ∧
    InRow (RecordAt data) (unpackIntFrom data 8 2).1 o₂ names₂ o₃ names₃ ∧
    InRow (RecordAt data) (unpackIntFrom data 10 2).1 o₃ names₃ o₄ names₄

theorem unpack_counts (data : Bytes) :
    unpackFrom .big [.H, .H, .H, .H] data 4 =
      if 12 ≤ data.length then
        .ok [(unpackIntFrom data 4 2).1, (unpackIntFrom data 6 2).1, (unpackIntFrom data 8 2).1,
          (unpackIntFrom data 10 2).1]
      else .error .structError := by
  rw [unpackFrom_eq_of_pos (by decide)]
  simp [calcsize, calcsizeFrom, valuesFrom, Order.pad, Code.size, Code.norm, unpackIntFrom, slice,
    List.drop_drop]

theorem DNSFlags.fromBytes_total {data : Bytes} (h : 12 ≤ data.length) :
    ∃ flags, DNSFlags.fromBytes (slice data 2 4) = .ok flags := by
  have hsize : (slice data 2 4).length = 2 := by
    rw [length_slice]
    omega
  obtain ⟨first, second, hslice⟩ := List.length_eq_two.mp hsize
  rw [hslice]
  exact ⟨_, rfl⟩

/-- The counts in the header. -/
def counts (data : Bytes) : Nat × Nat × Nat × Nat :=
  ((unpackIntFrom data 4 2).1, (unpackIntFrom data 6 2).1, (unpackIntFrom data 8 2).1,
    (unpackIntFrom data 10 2).1)

/-- The records of a decoded message are those that the loops return. -/
theorem DNSPacket.fromBytes_eq_ok_iff (data : Bytes) (p : DNSPacket) :
    DNSPacket.fromBytes data = .ok p ↔ 12 ≤ data.length ∧
      p.transactionID = slice data 0 2 ∧ DNSFlags.fromBytes (slice data 2 4) = .ok p.flags ∧
      (p.queriesCount, p.answersCount, p.authorityCount, p.additionalCount) = counts data ∧
      ∃ o₁ names₁ o₂ names₂ o₃ names₃ o₄,
        readRecords (DNSQueryRecord.fromBytes data) p.queriesCount 12 Dict.empty =
          .ok (p.queriesRecords, o₁, names₁) ∧
        readRecords (DNSAnswerRecord.fromBytes data) p.answersCount o₁ names₁ =
          .ok (p.answersRecords, o₂, names₂) ∧
        readRecords (DNSAnswerRecord.fromBytes data) p.authorityCount o₂ names₂ =
          .ok (p.authorityRecords, o₃, names₃) ∧
        readRecords (DNSAnswerRecord.fromBytes data) p.additionalCount o₃ names₃ =
          .ok (p.additionalRecords, o₄, p.domainNames) := by
  unfold DNSPacket.fromBytes counts
  rw [unpack_counts]
  by_cases hlen : 12 ≤ data.length
  · rw [if_pos hlen, and_iff_right hlen, except_ok_bind]
    constructor
    · intro h
      obtain ⟨flags, hflags, h⟩ := except_bind_ok_iff.mp h
      obtain ⟨⟨qs, o₁, names₁⟩, hqs, h⟩ := except_bind_ok_iff.mp h
      obtain ⟨⟨as, o₂, names₂⟩, has, h⟩ := except_bind_ok_iff.mp h
      obtain ⟨⟨us, o₃, names₃⟩, hus, h⟩ := except_bind_ok_iff.mp h
      obtain ⟨⟨ds, o₄, names₄⟩, hds, h⟩ := except_bind_ok_iff.mp h
      cases h
      exact ⟨rfl, hflags, rfl, o₁, names₁, o₂, names₂, o₃, names₃, o₄, hqs, has, hus, hds⟩
    · rintro ⟨hid, hflags, hcounts, o₁, names₁, o₂, names₂, o₃, names₃, o₄, hqs, has, hus, hds⟩
      obtain ⟨transactionID, flags, queriesCount, answersCount, authorityCount, additionalCount,
        domainNames, qs, as, us, ds⟩ := p
      simp only [Prod.mk.injEq] at hid hflags hcounts hqs has hus hds
      obtain ⟨rfl, rfl, rfl, rfl⟩ := hcounts
      simp only [hflags, hqs, has, hus, hds, hid, except_ok_bind, except_pure]
  · rw [if_neg hlen]
    simp [hlen, bind, Except.bind]

theorem DNSPacket.fromBytes_ok_iff (data : Bytes) :
    (∃ p, DNSPacket.fromBytes data = .ok p) ↔ MessageAt data := by
  simp only [DNSPacket.fromBytes_eq_ok_iff]
  unfold MessageAt
  constructor
  · rintro ⟨p, hlen, -, -, hcounts, o₁, names₁, o₂, names₂, o₃, names₃, o₄, hqs, has, hus, hds⟩
    simp only [counts, Prod.mk.injEq] at hcounts
    obtain ⟨hq, ha, hu, hd⟩ := hcounts
    rw [hq] at hqs
    rw [ha] at has
    rw [hu] at hus
    rw [hd] at hds
    exact ⟨hlen, o₁, o₂, o₃, o₄, names₁, names₂, names₃, p.domainNames,
      (readRecords_ok_iff (questionAt_iff data)).mp ⟨_, hqs⟩,
      (readRecords_ok_iff (recordAt_iff data)).mp ⟨_, has⟩,
      (readRecords_ok_iff (recordAt_iff data)).mp ⟨_, hus⟩,
      (readRecords_ok_iff (recordAt_iff data)).mp ⟨_, hds⟩⟩
  · rintro ⟨hlen, o₁, o₂, o₃, o₄, names₁, names₂, names₃, names₄, hqs, has, hus, hds⟩
    obtain ⟨flags, hflags⟩ := DNSFlags.fromBytes_total hlen
    obtain ⟨qs, hqs⟩ := (readRecords_ok_iff (questionAt_iff data)).mpr hqs
    obtain ⟨as, has⟩ := (readRecords_ok_iff (recordAt_iff data)).mpr has
    obtain ⟨us, hus⟩ := (readRecords_ok_iff (recordAt_iff data)).mpr hus
    obtain ⟨ds, hds⟩ := (readRecords_ok_iff (recordAt_iff data)).mpr hds
    exact ⟨⟨slice data 0 2, flags, _, _, _, _, names₄, qs, as, us, ds⟩, hlen, rfl, hflags, rfl,
      o₁, names₁, o₂, names₂, o₃, names₃, o₄, hqs, has, hus, hds⟩

-- ============================================================================
-- Exceptions
-- ============================================================================

section Fails

variable {P : Exn → Prop}

theorem fails_unpackLabels (hdecode : P .unicodeDecodeError) (data : Bytes) (domainName : Str)
    (labelLen offset : Nat) : Fails P (unpackLabels data domainName labelLen offset) := by
  induction domainName, labelLen, offset using unpackLabels.induct data with
  | case1 domainName labelLen offset hmore label hlabel domainName' next hnext ih =>
      rw [unpackLabels, if_pos hmore]
      simp only [hlabel, hnext]
      exact ih
  | case2 domainName labelLen offset hmore label hlabel hnext =>
      rw [unpackLabels, if_pos hmore]
      simp only [hlabel, hnext]
      exact fails_ok _
  | case3 domainName labelLen offset hmore e he =>
      rw [unpackLabels, if_pos hmore]
      simp only [he]
      exact fun e' he' => by
        cases he'
        exact fails_decode hdecode _ _ he
  | case4 domainName labelLen offset hdone =>
      rw [unpackLabels, if_neg hdone]
      exact fails_ok _

theorem fails_unpackHostName (hdecode : P .unicodeDecodeError) (hindex : P .indexError)
    (data : Bytes) (offset : Nat) : Fails P (unpackHostName data offset) := by
  unfold unpackHostName
  split
  · exact fails_unpackLabels hdecode _ _ _ _
  · exact fails_throw hindex

theorem fails_readRecords {α : Type}
    {read : Nat → DomainNames → Except Exn (α × Nat × DomainNames)}
    (hread : ∀ offset names, Fails P (read offset names)) (count offset : Nat)
    (names : DomainNames) : Fails P (readRecords read count offset names) := by
  induction count generalizing offset names with
  | zero => exact fails_ok _
  | succ count ih =>
      exact fails_bind (hread _ _) fun r => fails_bind (ih _ _) fun rs => fails_ok _

theorem DNSAnswerRecord.fails_fromBytes (hdecode : P .unicodeDecodeError) (hindex : P .indexError)
    (hkey : P .keyError) (data : Bytes) (offset : Nat) (names : DomainNames) :
    Fails P (DNSAnswerRecord.fromBytes data offset names) := by
  unfold DNSAnswerRecord.fromBytes
  dsimp only
  split
  · exact fails_throw hindex
  · split
    · exact fails_throw hkey
    · refine fails_bind ?_ fun _ => fails_ok _
      unfold DNSAnswerRecord.namesRead
      split
      · exact fails_bind (fails_unpackHostName hdecode hindex _ _) fun _ => fails_ok _
      · exact fails_ok _

theorem DNSPacket.fails_fromBytes (hstruct : P .structError) (hdecode : P .unicodeDecodeError)
    (hindex : P .indexError) (hkey : P .keyError) (data : Bytes) :
    Fails P (DNSPacket.fromBytes data) := by
  have hrecords := DNSAnswerRecord.fails_fromBytes hdecode hindex hkey data
  refine fails_bind (fails_unpackFrom hstruct _ _ _ _) fun counts => ?_
  split
  · refine fails_bind ?_ fun flags => ?_
    · unfold DNSFlags.fromBytes
      split
      · exact fails_ok _
      · exact fails_throw hindex
    refine fails_bind (fails_readRecords (fun offset names => ?_) _ _ _) fun qs => ?_
    · exact fails_bind (fails_unpackHostName hdecode hindex _ _) fun _ => fails_ok _
    refine fails_bind (fails_readRecords hrecords _ _ _) fun as => ?_
    refine fails_bind (fails_readRecords hrecords _ _ _) fun us => ?_
    exact fails_bind (fails_readRecords hrecords _ _ _) fun ds => fails_ok _
  · exact fails_throw hstruct

end Fails

/-- The datagrams after which the loop goes on. -/
theorem receives_iff (data : Bytes) :
    (∃ packet?, recvfrom data = .ok packet?) ↔ MessageAt data := by
  rw [← DNSPacket.fromBytes_ok_iff]
  unfold recvfrom
  cases h : DNSPacket.fromBytes data with
  | ok packet => simp
  | error e =>
      have hne : e ≠ .osError := DNSPacket.fails_fromBytes (P := fun e => e ≠ .osError)
        nofun nofun nofun nofun data e h
      cases e <;> simp_all

/-- An exception of `recvfrom` ends the main loop. -/
theorem stops_of_recvfrom {data : Bytes} {e : Exn} (h : recvfrom data = .error e) {s : Server}
    (hrun : s.stopped = none) (clientAddress : Address) (o : Outside) :
    step s (.datagram data clientAddress o) = some { s with stopped := some e } := by
  have hturn : iteration data clientAddress o s.state = .error e s.state :=
    bind_error_iff.mpr (Or.inl (by rw [lift, reads, h]))
  rw [step, if_pos hrun, hturn]
  rfl

end Dns
end NetworkingFinal
