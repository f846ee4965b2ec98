/-
  NetworkingFinal.Dns.Decoding

  What the decoder makes of a well-formed message.  It takes every owner's name for a
  pointer of two bytes, keeps the low byte, and knows a name by one offset; it learns
  the target of an alias without its last two bytes.

  - `Decodable`: the messages on which this is right.
  - `decodes_iff`: the decoder returns the records of a message exactly then, but for
    messages whose bytes repeat.
-/
import NetworkingFinal.Dns.Effect
import NetworkingFinal.Dns.Messages
import NetworkingFinal.Dns.Receive

namespace NetworkingFinal
namespace Dns

open Py Py.Prog Py.Struct
open Lib (Placed)

-- ============================================================================
-- What is read right
-- ============================================================================

/-- The question as the message has it. -/
structure IsQuestion (data : Bytes) (q : Question) (r : DNSQueryRecord) : Prop where
  name : nameText [] q.labels = .ok r.domainName
  type : r.type = q.type data
  clase : r.clase = q.clase data

/-- The record as the message has it, but for its owner. -/
structure HasBody (data : Bytes) (e : Entry) (r : DNSAnswerRecord) : Prop where
  type : r.type = e.type data
  clase : r.clase = e.clase data
  ttl : r.ttl = e.ttl data
  rData : r.rData = e.rData data

/-- The record as the message has it, under its expanded owner's name. -/
structure IsRecord (data : Bytes) (e : Entry) (r : DNSAnswerRecord) : Prop extends
    HasBody data e r where
  owner : nameText [] e.owner = .ok r.domainName

/-- The packet has the questions and records of the message. -/
structure Reads (data : Bytes) (l : Layout) (p : DNSPacket) : Prop where
  questions : List.Forall₂ (IsQuestion data) l.questions p.queriesRecords
  answers : List.Forall₂ (IsRecord data) l.answers p.answersRecords
  authority : List.Forall₂ (IsRecord data) l.authority p.authorityRecords
  additional : List.Forall₂ (IsRecord data) l.additional p.additionalRecords

/-- When the response is saved, the cache has an address record of the message under the
    owner's name of every address record. -/
def CachedByOwner (data : Bytes) (l : Layout) (p : DNSPacket) : Prop :=
  ∀ now s t, saveCacheIntoDatabase now p s = .ok () t →
    ∀ e ∈ l.records, e.type data = DNSAnswerRecord.typeA →
      ∃ e' ∈ l.records, ∃ r cached, e'.type data = DNSAnswerRecord.typeA ∧ IsRecord data e' r ∧
        nameText [] e.owner = .ok r.domainName ∧
        t.database.cacheRecords.get? r.domainName = some cached ∧ CacheOf now r cached

-- ============================================================================
-- The messages
-- ============================================================================

/-- The names that the questions teach: their texts, each by its last offset. -/
inductive Learned : DomainNames → List Question → DomainNames → Prop
  | nil {names : DomainNames} : Learned names [] names
  | cons {names names' : DomainNames} {q : Question} {qs : List Question} {text : Str}
      (name : nameText [] q.labels = .ok text) (rest : Learned (names.set text q.start) qs names') :
      Learned names (q :: qs) names'

/-- The owner's name of every record takes two bytes, so it is a pointer, and its low byte
    is the offset by which the table knows the name; the data of an alias teaches a name. -/
inductive Resolved (data : Bytes) : DomainNames → List Entry → DomainNames → Prop
  | nil {names : DomainNames} : Resolved data names [] names
  | cons {names names' names'' : DomainNames} {e : Entry} {es : List Entry} {low : UInt8}
      {text : Str} (bare : e.body = e.start + 2) (second : data[e.start + 1]? = some low)
      (owner : nameText [] e.owner = .ok text) (known : names.get? text = some low.toNat)
      (cname : AliasAt (e.type data) (e.rData data) (e.body + 10) names names')
      (rest : Resolved data names' es names'') : Resolved data names (e :: es) names''

/-- The message's names are known to the decoder in the way it looks them up. -/
def Decodable (data : Bytes) (l : Layout) : Prop :=
  ∃ names₁ names₂ names₃ names₄, Learned Dict.empty l.questions names₁ ∧
    Resolved data names₁ l.answers names₂ ∧ Resolved data names₂ l.authority names₃ ∧
    Resolved data names₃ l.additional names₄

/-- The record has a longer or shorter owner's name, but its type, class and TTL stand
    also two bytes after its start. -/
def Entry.Repeats (data : Bytes) (e : Entry) : Prop :=
  e.body ≠ e.start + 2 ∧ (unpackIntFrom data (e.start + 2) 2).1 = e.type data ∧
    (unpackIntFrom data (e.start + 4) 2).1 = e.clase data ∧
    (unpackIntFrom data (e.start + 6) 4).1 = e.ttl data

-- ============================================================================
-- Questions
-- ============================================================================

theorem NamesBefore.mono {names : DomainNames} {offset next : Nat} (h : NamesBefore names offset)
    (hle : offset ≤ next) : NamesBefore names next :=
  ⟨h.inj, fun name o ho => Nat.lt_of_lt_of_le (h.lt name o ho) hle⟩

theorem unpackHostName_question {data : Bytes} {q : Question}
    (legal : ∀ label ∈ q.labels, RfcLabel label)
    (placed : Placed data q.start (wireName q.labels)) :
    unpackHostName data q.start = (nameText [] q.labels).map fun text => (text, q.nameEnd) :=
  unpackHostName_wireName (fun label hl => (legal label hl).short) placed

theorem fromBytes_question {data : Bytes} {q : Question}
    (legal : ∀ label ∈ q.labels, RfcLabel label) (placed : Placed data q.start (wireName q.labels))
    {names : DomainNames} {text : Str} (hname : nameText [] q.labels = .ok text) :
    DNSQueryRecord.fromBytes data q.start names =
      .ok (⟨text, q.type data, q.clase data⟩, q.nameEnd + 4, names.set text q.start) := by
  rw [DNSQueryRecord.fromBytes, unpackHostName_question legal placed, hname]
  rfl

theorem readRecords_of_learned {data : Bytes} {qs : List Question} {offset last : Nat}
    (h : QuestionsAt data offset qs last) {names names' : DomainNames}
    (hlearned : Learned names qs names') (hbefore : NamesBefore names offset) :
    ∃ rs, readRecords (DNSQueryRecord.fromBytes data) qs.length offset names =
        .ok (rs, last, names') ∧
      List.Forall₂ (IsQuestion data) qs rs ∧ NamesBefore names' last := by
  induction h generalizing names with
  | nil =>
      cases hlearned
      exact ⟨[], rfl, .nil, hbefore⟩
  | @cons q qs last legal placed fits rest ih =>
      cases hlearned with
      | @cons _ _ _ _ text name learned =>
          have hlt : q.start < q.nameEnd + 4 := by
            rw [Question.nameEnd]
            omega
          obtain ⟨rs, hrs, hmatch, hlast⟩ := ih learned (hbefore.set text hlt)
          refine ⟨⟨text, q.type data, q.clase data⟩ :: rs, ?_, .cons ⟨name, rfl, rfl⟩ hmatch, hlast⟩
          rw [List.length_cons, readRecords, fromBytes_question legal placed name, except_ok_bind]
          dsimp only
          rw [hrs]
          rfl

theorem learned_of_readRecords {data : Bytes} {qs : List Question} {offset last : Nat}
    (h : QuestionsAt data offset qs last) {names : DomainNames}
    {out : List DNSQueryRecord × Nat × DomainNames}
    (hread : readRecords (DNSQueryRecord.fromBytes data) qs.length offset names = .ok out) :
    out.2.1 = last ∧ Learned names qs out.2.2 := by
  induction h generalizing names out with
  | nil =>
      cases hread
      exact ⟨rfl, .nil⟩
  | @cons q qs last legal placed fits rest ih =>
      obtain ⟨⟨r, next, names₁⟩, hr, hrest⟩ := except_bind_ok_iff.mp hread
      obtain ⟨⟨rs, last', names₂⟩, hrs, hout⟩ := except_bind_ok_iff.mp hrest
      cases hout
      cases hname : nameText [] q.labels with
      | error e =>
          rw [DNSQueryRecord.fromBytes, unpackHostName_question legal placed, hname] at hr
          cases hr
      | ok text =>
          rw [fromBytes_question legal placed hname] at hr
          cases hr
          obtain ⟨hlast, hlearned⟩ := ih hrs
          exact ⟨hlast, .cons hname hlearned⟩

-- ============================================================================
-- Records
-- ============================================================================

theorem AliasAt.before {type : Nat} {rData : Bytes} {offset : Nat} {names names' : DomainNames}
    (h : AliasAt type rData offset names names') (hbefore : NamesBefore names offset) :
    NamesBefore names' (offset + rData.length) := by
  unfold AliasAt at h
  split at h
  · obtain ⟨name, nameEnd, hname, rfl⟩ := h
    have hpos : 0 < rData.length := by
      rw [List.length_pos_iff]
      rintro rfl
      cases hname
    exact hbefore.set name (by omega)
  · rw [h]
    exact hbefore.mono (by omega)

theorem Entry.next_eq {data : Bytes} {e : Entry} (fits : e.next data ≤ data.length) :
    e.next data = e.body + 10 + (e.rData data).length := by
  rw [Entry.rData, length_slice, Entry.next] at *
  omega

/-- A record whose owner is known is read as the message has it. -/
theorem fromBytes_entry {data : Bytes} {e : Entry} (bare : e.body = e.start + 2)
    {names names' : DomainNames} {low : UInt8} (hlow : data[e.start + 1]? = some low)
    {r : DNSAnswerRecord} (hr : IsRecord data e r)
    (hknown : (reversedDomainNames names).get? low.toNat = some r.domainName)
    (cname : AliasAt (e.type data) (e.rData data) (e.body + 10) names names') :
    DNSAnswerRecord.fromBytes data e.start names = .ok (r, e.next data, names') := by
  rw [DNSAnswerRecord.fromBytes_ok_iff]
  rw [← hr.type, ← hr.rData] at cname
  obtain ⟨start, owner, body⟩ := e
  dsimp only at *
  subst bare
  exact ⟨low, hlow, hknown, hr.type, hr.clase, hr.ttl, rfl, hr.rData, cname⟩

theorem readRecords_of_resolved {data : Bytes} {es : List Entry} {offset last : Nat}
    (h : EntriesAt data offset es last) {names names' : DomainNames}
    (hresolved : Resolved data names es names') (hbefore : NamesBefore names offset) :
    ∃ rs, readRecords (DNSAnswerRecord.fromBytes data) es.length offset names =
        .ok (rs, last, names') ∧
      List.Forall₂ (IsRecord data) es rs ∧ NamesBefore names' last := by
  induction h generalizing names with
  | nil =>
      cases hresolved
      exact ⟨[], rfl, .nil, hbefore⟩
  | @cons e es last owner fits rest ih =>
      cases hresolved with
      | @cons _ names₁ _ _ _ low text bare hlow htext known cname resolved =>
          have hr : IsRecord data e ⟨text, e.type data, e.clase data, e.ttl data, e.rData data⟩ :=
            ⟨⟨rfl, rfl, rfl, rfl⟩, htext⟩
          have hlt := owner.lt_next
          have hnext := hbefore.mono (show e.start ≤ e.body + 10 by omega)
          have hafter := cname.before hnext
          rw [← Entry.next_eq fits] at hafter
          obtain ⟨rs, hrs, hmatch, hlast⟩ := ih resolved hafter
          refine ⟨_ :: rs, ?_, .cons hr hmatch, hlast⟩
          rw [List.length_cons, readRecords,
            fromBytes_entry bare hlow hr (hbefore.get?_reversed known) cname, except_ok_bind]
          dsimp only
          rw [hrs]
          rfl

theorem resolved_of_readRecords {data : Bytes} {es : List Entry} {offset last : Nat}
    (h : EntriesAt data offset es last) {names : DomainNames}
    {out : List DNSAnswerRecord × Nat × DomainNames}
    (hread : readRecords (DNSAnswerRecord.fromBytes data) es.length offset names = .ok out)
    (hmatch : List.Forall₂ (IsRecord data) es out.1) :
    (∃ e ∈ es, e.Repeats data) ∨ (out.2.1 = last ∧ Resolved data names es out.2.2) := by
  induction h generalizing names out with
  | nil =>
      cases hread
      exact Or.inr ⟨rfl, .nil⟩
  | @cons e es last owner fits rest ih =>
      obtain ⟨⟨r, next, names₁⟩, hr, hrest⟩ := except_bind_ok_iff.mp hread
      obtain ⟨⟨rs, last', names₂⟩, hrs, hout⟩ := except_bind_ok_iff.mp hrest
      cases hout
      cases hmatch with
      | cons hfirst hothers =>
          obtain ⟨low, hlow, hknown, htype, hclase, httl, hnext, hrData, cname⟩ :=
            (DNSAnswerRecord.fromBytes_ok_iff _ _ _ _ _ _).mp hr
          by_cases hbare : e.body = e.start + 2
          · have hsame : next = e.next data := by
              rw [hnext, Entry.next, hbare]
            subst hsame
            have halias : AliasAt (e.type data) (e.rData data) (e.body + 10) names names₁ := by
              rw [← hfirst.type, ← hfirst.rData, hbare]
              exact cname
            rcases ih hrs hothers with ⟨e', he', hrepeats⟩ | ⟨hlast, hresolved⟩
            · exact Or.inl ⟨e', List.mem_cons_of_mem _ he', hrepeats⟩
            · exact Or.inr ⟨hlast, .cons hbare hlow hfirst.owner (get?_of_reversed hknown) halias
                hresolved⟩
          · refine Or.inl ⟨e, List.mem_cons_self, hbare, ?_, ?_, ?_⟩
            · rw [← htype, hfirst.type]
            · rw [← hclase, hfirst.clase]
            · have hint := httl.symm.trans hfirst.ttl
              exact Int.ofNat.inj hint

-- ============================================================================
-- Messages
-- ============================================================================

theorem exists_of_forall₂ {α β : Type} {R : α → β → Prop} {xs : List α} {ys : List β}
    (h : List.Forall₂ R xs ys) {x : α} (hx : x ∈ xs) : ∃ y ∈ ys, R x y := by
  induction h with
  | nil => cases hx
  | cons hfirst hrest ih =>
      rcases List.mem_cons.mp hx with rfl | hx
      · exact ⟨_, List.mem_cons_self, hfirst⟩
      · obtain ⟨y, hy, hxy⟩ := ih hx
        exact ⟨y, List.mem_cons_of_mem _ hy, hxy⟩

/-- The records of the message in the order they are cached. -/
theorem Reads.cached {data : Bytes} {l : Layout} {p : DNSPacket} (h : Reads data l p) :
    List.Forall₂ (IsRecord data) (l.additional ++ l.authority ++ l.answers) p.cachedRecords :=
  List.rel_append (List.rel_append h.additional h.authority) h.answers

theorem mem_records_iff {l : Layout} {e : Entry} :
    e ∈ l.records ↔ e ∈ l.additional ++ l.authority ++ l.answers := by
  simp only [Layout.records, List.mem_append]
  tauto

theorem cachedByOwner_of_reads {data : Bytes} {l : Layout} {p : DNSPacket} (h : Reads data l p) :
    CachedByOwner data l p := by
  intro now s t hsave e he htype
  obtain ⟨r, hr, hrecord⟩ := exists_of_forall₂ h.cached (mem_records_iff.mp he)
  have hlookup := get?_saveCache hsave r.domainName
  cases hlast : lastAddress p.cachedRecords r.domainName with
  | none =>
      exact absurd ⟨hrecord.type.trans htype, rfl⟩ (lastAddress_eq_none_iff.mp hlast r hr)
  | some r' =>
      rw [hlast] at hlookup
      obtain ⟨cached, hget, hcached⟩ := hlookup
      obtain ⟨hmem, htype', hname⟩ := of_lastAddress hlast
      have hflip : List.Forall₂ (fun r e => IsRecord data e r) p.cachedRecords
          (l.additional ++ l.authority ++ l.answers) := h.cached.flip
      obtain ⟨e', he', hrecord'⟩ := exists_of_forall₂ hflip hmem
      refine ⟨e', mem_records_iff.mpr he', r', cached, hrecord'.type.symm.trans htype', hrecord',
        ?_, ?_, hcached⟩
      · rw [hname]
        exact hrecord.owner
      · rw [hname]
        exact hget

theorem counts_of_layout {data : Bytes} {l : Layout} {last : Nat} (h : l.Upto data last) :
    counts data = (l.questions.length, l.answers.length, l.authority.length,
      l.additional.length) := by
  rw [counts, h.queriesCount, h.answersCount, h.authorityCount, h.additionalCount]

theorem reads_of_decodable {data : Bytes} {l : Layout} (h : l.Of data) (hd : Decodable data l) :
    ∃ p, DNSPacket.fromBytes data = .ok p ∧ Reads data l p := by
  obtain ⟨o₁, o₂, o₃, hqs, has, hus, hds⟩ := h.sections
  obtain ⟨names₁, names₂, names₃, names₄, hlearned, hanswers, hauthority, hadditional⟩ := hd
  obtain ⟨flags, hflags⟩ := DNSFlags.fromBytes_total h.header
  obtain ⟨qs, hreadq, hmatchq, hbefore₁⟩ :=
    readRecords_of_learned hqs hlearned (NamesBefore.empty 12)
  obtain ⟨as, hreada, hmatcha, hbefore₂⟩ := readRecords_of_resolved has hanswers hbefore₁
  obtain ⟨us, hreadu, hmatchu, hbefore₃⟩ := readRecords_of_resolved hus hauthority hbefore₂
  obtain ⟨ds, hreadd, hmatchd, -⟩ := readRecords_of_resolved hds hadditional hbefore₃
  exact ⟨⟨slice data 0 2, flags, _, _, _, _, names₄, qs, as, us, ds⟩,
    (DNSPacket.fromBytes_eq_ok_iff data _).mpr ⟨h.header, rfl, hflags, (counts_of_layout h).symm,
      o₁, names₁, o₂, names₂, o₃, names₃, data.length, hreadq, hreada, hreadu, hreadd⟩,
    hmatchq, hmatcha, hmatchu, hmatchd⟩

theorem decodable_of_reads {data : Bytes} {l : Layout} (h : l.Of data) {p : DNSPacket}
    (hp : DNSPacket.fromBytes data = .ok p) (hreads : Reads data l p) :
    Decodable data l ∨ ∃ e ∈ l.records, e.Repeats data := by
  obtain ⟨o₁, o₂, o₃, hqs, has, hus, hds⟩ := h.sections
  obtain ⟨-, -, -, hcounts, _, names₁, _, names₂, _, names₃, _, hreadq, hreada, hreadu, hreadd⟩ :=
    (DNSPacket.fromBytes_eq_ok_iff data p).mp hp
  rw [counts_of_layout h] at hcounts
  simp only [Prod.mk.injEq] at hcounts
  obtain ⟨hcount₁, hcount₂, hcount₃, hcount₄⟩ := hcounts
  rw [hcount₁] at hreadq
  rw [hcount₂] at hreada
  rw [hcount₃] at hreadu
  rw [hcount₄] at hreadd
  -- each section starts where the one before it ends, unless a record before repeats
  obtain ⟨hend₁, hlearned⟩ := learned_of_readRecords hqs hreadq
  dsimp only at hend₁ hlearned
  subst hend₁
  rcases resolved_of_readRecords has hreada hreads.answers with
    ⟨e, he, hrepeats⟩ | ⟨hend₂, hanswers⟩
  · exact Or.inr ⟨e, by simp [Layout.records, he], hrepeats⟩
  dsimp only at hend₂ hanswers
  subst hend₂
  rcases resolved_of_readRecords hus hreadu hreads.authority with
    ⟨e, he, hrepeats⟩ | ⟨hend₃, hauthority⟩
  · exact Or.inr ⟨e, by simp [Layout.records, he], hrepeats⟩
  dsimp only at hend₃ hauthority
  subst hend₃
  rcases resolved_of_readRecords hds hreadd hreads.additional with
    ⟨e, he, hrepeats⟩ | ⟨-, hadditional⟩
  · exact Or.inr ⟨e, by simp [Layout.records, he], hrepeats⟩
  exact Or.inl ⟨names₁, names₂, names₃, p.domainNames, hlearned, hanswers, hauthority, hadditional⟩

/-- **Decoding.**  A well-formed message is decoded to its questions and records, so that
    its address records are cached by their owners' names, when the names are known in
    the way the decoder looks them up; and only then, unless the type, class and TTL of a
    record with a longer or shorter owner's name stand twice. -/
theorem decodes_iff {data : Bytes} {l : Layout} (h : l.Of data) :
    (Decodable data l →
      ∃ p, DNSPacket.fromBytes data = .ok p ∧ Reads data l p ∧ CachedByOwner data l p) ∧
    ((∃ p, DNSPacket.fromBytes data = .ok p ∧ Reads data l p ∧ CachedByOwner data l p) →
      Decodable data l ∨ ∃ e ∈ l.records, e.Repeats data) := by
  constructor
  · intro hd
    obtain ⟨p, hp, hreads⟩ := reads_of_decodable h hd
    exact ⟨p, hp, hreads, cachedByOwner_of_reads hreads⟩
  · rintro ⟨p, hp, hreads, -⟩
    exact decodable_of_reads h hp hreads

/-- A response for the name `a.b` with the name server of the name at an offset. -/
def serverMessage (low : UInt8) : Bytes :=
  [0, 3, 0x81, 0x80, 0, 1, 0, 0, 0, 1, 0, 0, 1, 97, 1, 98, 0, 0, 1, 0, 1,
    0xc0, low, 0, 2, 0, 1, 0, 0, 0, 60, 0, 4, 2, 110, 115, 0]

def serverLayout (owner : List Bytes) : Layout :=
  { questions := [⟨12, [[97], [98]]⟩], answers := [], authority := [⟨21, owner, 23⟩],
    additional := [] }

theorem serverLayout_of {low : UInt8} {owner : List Bytes}
    (hlow : low = 12 ∧ owner = [[97], [98]] ∨ low = 14 ∧ owner = [[98]]) :
    (serverLayout owner).Of (serverMessage low) := by
  have hlegal : ∀ label ∈ ([[97], [98]] : List Bytes), RfcLabel label := by
    intro label hlabel
    simp only [List.mem_cons, List.not_mem_nil, or_false] at hlabel
    rcases hlabel with rfl | rfl <;> exact ⟨List.cons_ne_nil _ _, by decide⟩
  have hname : NameAt (serverMessage low) 21 owner 23 := by
    rcases hlow with ⟨rfl, rfl⟩ | ⟨rfl, rfl⟩
    · exact @NameAt.pointing _ 21 12 _ [] _ nofun (by decide) (by decide) (by decide) (by decide)
        (.whole hlegal (by decide))
    · exact @NameAt.pointing _ 21 14 _ [] _ nofun (by decide) (by decide) (by decide) (by decide)
        (.whole (fun label hl => hlegal label (List.mem_cons_of_mem _ hl)) (by decide))
  have hentry : Entry.next (serverMessage low) ⟨21, owner, 23⟩ = (serverMessage low).length := by
    rcases hlow with ⟨rfl, -⟩ | ⟨rfl, -⟩ <;> rfl
  refine ⟨by simp [serverMessage], ?_, ?_, ?_, ?_, 21, 21, 37, ?_, .nil, ?_, .nil⟩
  · rcases hlow with ⟨rfl, -⟩ | ⟨rfl, -⟩ <;> rfl
  · rcases hlow with ⟨rfl, -⟩ | ⟨rfl, -⟩ <;> rfl
  · rcases hlow with ⟨rfl, -⟩ | ⟨rfl, -⟩ <;> rfl
  · rcases hlow with ⟨rfl, -⟩ | ⟨rfl, -⟩ <;> rfl
  · have hplaced : Placed (serverMessage low) 12 (wireName [[97], [98]]) := by
      rcases hlow with ⟨rfl, -⟩ | ⟨rfl, -⟩ <;> decide
    have hfits : (⟨12, [[97], [98]]⟩ : Question).nameEnd + 4 ≤ (serverMessage low).length := by
      rcases hlow with ⟨rfl, -⟩ | ⟨rfl, -⟩ <;> decide
    exact .cons (q := ⟨12, [[97], [98]]⟩) hlegal hplaced hfits .nil
  · exact .cons (e := ⟨21, owner, 23⟩) hname hentry.le (hentry ▸ .nil)

theorem decodable_server : Decodable (serverMessage 12) (serverLayout [[97], [98]]) := by
  have hname : nameText [] [[97], [98]] = .ok "a.b".toList := by decide
  refine ⟨Dict.empty.set "a.b".toList 12, _, Dict.empty.set "a.b".toList 12, _,
    .cons hname .nil, .nil, .cons rfl rfl hname (by decide) ?_ .nil, .nil⟩
  unfold AliasAt
  rw [if_neg (by decide)]

theorem decodes_iff_server :
    ∃ p, DNSPacket.fromBytes (serverMessage 12) = .ok p ∧
      Reads (serverMessage 12) (serverLayout [[97], [98]]) p ∧
      CachedByOwner (serverMessage 12) (serverLayout [[97], [98]]) p :=
  (decodes_iff (serverLayout_of (Or.inl ⟨rfl, rfl⟩))).1 decodable_server

/-- The name server of `b`, by a pointer to the second label of the question: the decoder
    knows no name by that offset. -/
theorem not_decodes_serverOfSuffix :
    (serverLayout [[98]]).Of (serverMessage 14) ∧
      DNSPacket.fromBytes (serverMessage 14) = .error .keyError ∧
      ¬ ∃ p, DNSPacket.fromBytes (serverMessage 14) = .ok p ∧
        Reads (serverMessage 14) (serverLayout [[98]]) p ∧
        CachedByOwner (serverMessage 14) (serverLayout [[98]]) p := by
  have herror : DNSPacket.fromBytes (serverMessage 14) = .error .keyError := by decide +kernel
  refine ⟨serverLayout_of (Or.inr ⟨rfl, rfl⟩), herror, ?_⟩
  rintro ⟨p, hp, -⟩
  rw [herror] at hp
  cases hp

end Dns
end NetworkingFinal
