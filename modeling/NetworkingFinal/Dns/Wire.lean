/-
  NetworkingFinal.Dns.Wire

  Questions and answers as they stand in a message.  What the encoder writes for a
  list of records is the concatenation of their bytes, and the decoder, started where
  they stand, reads the records back.

  - `nameText_encode` / `labelsToBytes_encode`: the names of ASCII labels.
  - `writeQueries_wire` / `readRecords_questions`: the question section.
  - `toBytes_ok_iff` / `fromBytes_wire`: one answer, whose owner is an offset.
-/
import NetworkingFinal.Dns.Packets
import Mathlib.Data.List.TakeDrop

namespace NetworkingFinal
namespace Dns

open Py Py.Struct
open Lib (Placed)

-- ============================================================================
-- Names of ASCII labels
-- ============================================================================

/-- A label as the standard allows it, one byte for each character. -/
def LegalLabel (label : Str) : Prop := 1 ≤ label.length ∧ label.length ≤ 63 ∧ Ascii label

instance (label : Str) : Decidable (LegalLabel label) :=
  inferInstanceAs (Decidable (_ ∧ _ ∧ _))

/-- One or more legal labels. -/
def LegalName (name : Str) : Prop := ∀ label ∈ name.splitOn '.', LegalLabel label

instance (name : Str) : Decidable (LegalName name) :=
  inferInstanceAs (Decidable (∀ label ∈ name.splitOn '.', LegalLabel label))

theorem LegalLabel.length_encode {label : Str} (h : LegalLabel label) :
    (encode label).length = label.length := (length_encode_eq_iff label).mpr h.2.2

theorem LegalLabel.short {label : Str} (h : LegalLabel label) : ShortLabel (encode label) := by
  have hlen := h.length_encode
  obtain ⟨hpos, hle, -⟩ := h
  refine ⟨fun hnil => ?_, by omega⟩
  rw [hnil] at hlen
  simp at hlen
  omega

/-- The text of labels is the labels joined, each after the name so far and a dot. -/
theorem nameText_cons {domainName : Str} (hne : domainName ≠ []) {labels : List Str}
    (h : ∀ label ∈ labels, label ≠ []) :
    nameText domainName (labels.map encode) =
      .ok (domainName ++ labels.flatMap fun label => '.' :: label) := by
  induction labels generalizing domainName with
  | nil => simp [nameText]
  | cons label labels ih =>
      have hpos : domainName.length > 0 := List.length_pos_iff.mpr hne
      rw [List.map_cons, nameText, decode_encode, except_ok_bind, if_pos hpos,
        ih (by simp) (fun l hl => h l (List.mem_cons_of_mem _ hl))]
      simp

theorem intercalate_eq_flatMap (label : Str) (labels : List Str) :
    List.intercalate ['.'] (label :: labels) =
      label ++ labels.flatMap fun label => '.' :: label := by
  induction labels generalizing label with
  | nil => simp
  | cons next labels ih =>
      rw [List.intercalate_cons_cons, ih, List.flatMap_cons]
      simp

/-- The labels of a name spell the name. -/
theorem nameText_encode {name : Str} (h : ∀ label ∈ name.splitOn '.', label ≠ []) :
    nameText [] ((name.splitOn '.').map encode) = .ok name := by
  have hjoin : ['.'].intercalate (name.splitOn '.') = name := List.intercalate_splitOn '.'
  cases hlabels : name.splitOn '.' with
  | nil => exact absurd hlabels (List.splitOn_ne_nil '.' name)
  | cons label labels =>
      rw [hlabels] at h hjoin
      rw [List.map_cons, nameText, decode_encode, except_ok_bind, if_neg (by simp),
        List.nil_append, nameText_cons (h label List.mem_cons_self)
          (fun l hl => h l (List.mem_cons_of_mem _ hl)), ← intercalate_eq_flatMap, hjoin]

/-- The length before a label of at most 255 characters. -/
theorem packInt_byte {n : Nat} (h : n < 256) : packInt n 1 = .ok [UInt8.ofNat n] := by
  rw [packInt_natCast (by simpa using h)]
  simp [Order.toBytes, toLittle, Nat.mod_eq_of_lt h]

/-- The encoder writes legal labels as they stand in a message. -/
theorem labelsToBytes_encode {labels : List Str} (h : ∀ label ∈ labels, LegalLabel label) :
    ∃ bytes, DNSQueryRecord.labelsToBytes labels = .ok bytes ∧
      bytes ++ [0] = wireName (labels.map encode) := by
  induction labels with
  | nil => exact ⟨[], rfl, rfl⟩
  | cons label labels ih =>
      obtain ⟨bytes, hbytes, hwire⟩ := ih fun l hl => h l (List.mem_cons_of_mem _ hl)
      have hlabel := h label List.mem_cons_self
      have hlt : label.length < 256 := by
        have := hlabel.2.1
        omega
      refine ⟨[UInt8.ofNat label.length] ++ (encode label ++ bytes), by
        rw [DNSQueryRecord.labelsToBytes, packInt_byte hlt, except_ok_bind, hbytes, except_ok_bind,
          except_pure], ?_⟩
      rw [List.map_cons, wireName, hlabel.length_encode, ← hwire]
      simp

/-- The length of a name of legal labels. -/
theorem length_wireName_encode {labels : List Str} (h : ∀ label ∈ labels, LegalLabel label) :
    (wireName (labels.map encode)).length =
      (labels.flatMap fun label => '.' :: label).length + 1 := by
  induction labels with
  | nil => rfl
  | cons label labels ih =>
      have hrest := ih fun l hl => h l (List.mem_cons_of_mem _ hl)
      have hlen := (h label List.mem_cons_self).length_encode
      rw [List.map_cons, wireName, List.flatMap_cons]
      simp only [List.length_cons, List.length_append, hrest, hlen]
      omega

-- ============================================================================
-- Questions
-- ============================================================================

namespace DNSQueryRecord

/-- A question under a legal name whose type and class are 16-bit numbers. -/
structure Legal (r : DNSQueryRecord) : Prop where
  name : LegalName r.domainName
  type : r.type < 65536
  clase : r.clase < 65536

/-- The labels of the name, as bytes. -/
def labels (r : DNSQueryRecord) : List Bytes := (r.domainName.splitOn '.').map encode

/-- The question as it stands in a message. -/
def wire (r : DNSQueryRecord) : Bytes :=
  wireName r.labels ++ (Order.big.toBytes 2 r.type ++ Order.big.toBytes 2 r.clase)

theorem Legal.length_wire {r : DNSQueryRecord} (h : r.Legal) :
    r.wire.length = r.domainName.length + 6 := by
  have hname : (wireName r.labels).length = r.domainName.length + 2 := by
    rw [labels, length_wireName_encode h.name]
    have hjoin : ['.'].intercalate (r.domainName.splitOn '.') = r.domainName :=
      List.intercalate_splitOn '.'
    cases hlabels : r.domainName.splitOn '.' with
    | nil => exact absurd hlabels (List.splitOn_ne_nil '.' r.domainName)
    | cons label rest =>
        rw [hlabels, intercalate_eq_flatMap] at hjoin
        have := congrArg List.length hjoin
        simp only [List.flatMap_cons, List.length_append, List.length_cons] at this ⊢
        omega
  simp only [wire, List.length_append, hname, Order.length_toBytes]

theorem toBytes_wire {r : DNSQueryRecord} (h : r.Legal) : r.toBytes = .ok r.wire := by
  obtain ⟨bytes, hbytes, hwire⟩ := labelsToBytes_encode h.name
  rw [toBytes, hbytes, except_ok_bind, packInt_natCast (by simpa using h.type), except_ok_bind,
    packInt_natCast (by simpa using h.clase), except_ok_bind, except_pure, wire, labels, ← hwire]
  simp

theorem Legal.shortLabels {r : DNSQueryRecord} (h : r.Legal) :
    ∀ label ∈ r.labels, ShortLabel label := by
  intro label hlabel
  obtain ⟨text, htext, rfl⟩ := List.mem_map.mp hlabel
  exact (h.name text htext).short

theorem Legal.nameText_labels {r : DNSQueryRecord} (h : r.Legal) :
    nameText [] r.labels = .ok r.domainName := by
  apply nameText_encode
  intro label hlabel hnil
  have := (h.name label hlabel).1
  simp [hnil] at this

theorem fromBytes_wire {r : DNSQueryRecord} (h : r.Legal) {data : Bytes} {offset : Nat}
    (hplaced : Placed data offset r.wire) (names : DomainNames) :
    fromBytes data offset names =
      .ok (r, offset + r.wire.length, names.set r.domainName offset) := by
  have hname : unpackHostName data offset =
      .ok (r.domainName, offset + (wireName r.labels).length) := by
    rw [unpackHostName_wireName h.shortLabels hplaced.left, h.nameText_labels]
    rfl
  have hrest := hplaced.right
  have htype := unpackIntFrom_placed (h.type : r.type < 256 ^ 2) hrest.left
  have hclase := unpackIntFrom_placed (h.clase : r.clase < 256 ^ 2) hrest.right
  rw [Order.length_toBytes] at hclase
  have hend : offset + r.wire.length = offset + (wireName r.labels).length + 2 + 2 := by
    simp only [wire, List.length_append, Order.length_toBytes]
    omega
  simp only [fromBytes, hname, except_ok_bind, htype, hclase, hend, except_pure]

end DNSQueryRecord

/-- The question section as it stands in a message. -/
def questionBytes (records : List DNSQueryRecord) : Bytes := records.flatMap DNSQueryRecord.wire

/-- The names after questions that start at the offset were written or read. -/
def namesAfter : List DNSQueryRecord → Nat → DomainNames → DomainNames
  | [], _, names => names
  | record :: records, offset, names =>
      namesAfter records (offset + record.wire.length) (names.set record.domainName offset)

/-- The encoder writes the question section. -/
theorem writeQueries_wire {records : List DNSQueryRecord} (h : ∀ record ∈ records, record.Legal)
    (data : Bytes) (names : DomainNames) :
    writeQueries records data names =
      .ok (data ++ questionBytes records, namesAfter records data.length names) := by
  induction records generalizing data names with
  | nil => simp [writeQueries, questionBytes, namesAfter]
  | cons record records ih =>
      rw [writeQueries, DNSQueryRecord.toBytes_wire (h record List.mem_cons_self), except_ok_bind,
        ih fun r hr => h r (List.mem_cons_of_mem _ hr)]
      simp [questionBytes, namesAfter]

/-- The decoder reads the question section back. -/
theorem readRecords_questions {records : List DNSQueryRecord}
    (h : ∀ record ∈ records, record.Legal) {data : Bytes} {offset : Nat}
    (hplaced : Placed data offset (questionBytes records)) (names : DomainNames) :
    readRecords (DNSQueryRecord.fromBytes data) records.length offset names =
      .ok (records, offset + (questionBytes records).length, namesAfter records offset names) := by
  induction records generalizing offset names with
  | nil => rfl
  | cons record records ih =>
      have hrest := ih (fun r hr => h r (List.mem_cons_of_mem _ hr)) hplaced.right
        (names.set record.domainName offset)
      rw [List.length_cons, readRecords,
        DNSQueryRecord.fromBytes_wire (h record List.mem_cons_self) hplaced.left, except_ok_bind]
      dsimp only
      rw [hrest, except_ok_bind]
      simp [namesAfter, questionBytes, Nat.add_assoc]

-- ============================================================================
-- The table of names
-- ============================================================================

theorem get?_foldl_reversed (entries : List (Str × Nat)) (d : Dict Nat Str) (offset : Nat) :
    (entries.foldl (fun d entry => d.set entry.2 entry.1) d).get? offset =
      ((entries.reverse.find? fun entry => decide (entry.2 = offset)).map Prod.fst).or
        (d.get? offset) := by
  induction entries generalizing d with
  | nil => rfl
  | cons entry entries ih =>
      rw [List.foldl_cons, ih, Dict.get?_set, List.reverse_cons, List.find?_append]
      by_cases hoffset : entry.2 = offset
      · cases entries.reverse.find? (fun entry => decide (entry.2 = offset)) with
        | none => simp [hoffset]
        | some e => simp
      · have hne : offset ≠ entry.2 := fun h => hoffset h.symm
        cases entries.reverse.find? (fun entry => decide (entry.2 = offset)) with
        | none => simp [hoffset, hne]
        | some e => simp

/-- A name the reversed table gives stands at its offset. -/
theorem get?_of_reversed {names : DomainNames} {offset : Nat} {name : Str}
    (h : (reversedDomainNames names).get? offset = some name) : names.get? name = some offset := by
  rw [reversedDomainNames, get?_foldl_reversed, Dict.get?_empty, Option.or_none,
    Option.map_eq_some_iff] at h
  obtain ⟨entry, hentry, rfl⟩ := h
  have hmem := List.mem_of_find?_eq_some hentry
  have hvalue := List.find?_some hentry
  rw [List.mem_reverse] at hmem
  rw [← Dict.mem_entries_iff]
  rw [decide_eq_true_eq] at hvalue
  rw [← hvalue]
  exact hmem

/-- An offset of the table has a name in the reversed table. -/
theorem exists_reversed {names : DomainNames} {offset : Nat} {name : Str}
    (h : names.get? name = some offset) :
    ∃ name', (reversedDomainNames names).get? offset = some name' := by
  rw [reversedDomainNames, get?_foldl_reversed, Dict.get?_empty, Option.or_none]
  rw [← Dict.mem_entries_iff, ← List.mem_reverse] at h
  cases hfind : names.entries.reverse.find? (fun entry => decide (entry.2 = offset)) with
  | none => exact absurd (List.find?_eq_none.mp hfind _ h) (by simp)
  | some entry => exact ⟨entry.1, rfl⟩

/-- No two names stand at one offset, and all stand before the given one. -/
structure NamesBefore (names : DomainNames) (offset : Nat) : Prop where
  inj : ∀ name name' o, names.get? name = some o → names.get? name' = some o → name = name'
  lt : ∀ name o, names.get? name = some o → o < offset

namespace NamesBefore

variable {names : DomainNames} {offset : Nat}

theorem empty (offset : Nat) : NamesBefore Dict.empty offset :=
  ⟨nofun, nofun⟩

/-- The next name stands after the others. -/
theorem set (h : NamesBefore names offset) (name : Str) {next : Nat} (hlt : offset < next) :
    NamesBefore (names.set name offset) next := by
  constructor
  · intro a b o ha hb
    rw [Dict.get?_set] at ha hb
    split at ha
    · next haname =>
        split at hb
        · next hbname => rw [haname, hbname]
        · have := h.lt b o hb
          cases ha
          omega
    · split at hb
      · have := h.lt a o ha
        cases hb
        omega
      · exact h.inj a b o ha hb
  · intro a o ha
    rw [Dict.get?_set] at ha
    split at ha
    · cases ha
      exact hlt
    · have := h.lt a o ha
      omega

/-- The decoder finds the name the encoder pointed at. -/
theorem get?_reversed (h : NamesBefore names offset) {name : Str} {o : Nat}
    (hname : names.get? name = some o) : (reversedDomainNames names).get? o = some name := by
  obtain ⟨name', hname'⟩ := exists_reversed hname
  rw [hname', h.inj name' name o (get?_of_reversed hname') hname]

end NamesBefore

theorem length_wire_pos (r : DNSQueryRecord) : 0 < r.wire.length := by
  simp only [DNSQueryRecord.wire, List.length_append, Order.length_toBytes]
  omega

theorem namesBefore_namesAfter {names : DomainNames} {offset : Nat}
    (h : NamesBefore names offset) (records : List DNSQueryRecord) :
    NamesBefore (namesAfter records offset names) (offset + (questionBytes records).length) := by
  induction records generalizing names offset with
  | nil => exact h
  | cons record records ih =>
      have hpos := length_wire_pos record
      have hnext := ih (h.set record.domainName
        (by omega : offset < offset + record.wire.length))
      simpa [namesAfter, questionBytes, Nat.add_assoc] using hnext

/-- The last question is the last name stored. -/
theorem namesAfter_concat (records : List DNSQueryRecord) (record : DNSQueryRecord)
    (offset : Nat) (names : DomainNames) :
    namesAfter (records ++ [record]) offset names =
      (namesAfter records offset names).set record.domainName
        (offset + (questionBytes records).length) := by
  induction records generalizing offset names with
  | nil => rfl
  | cons r records ih =>
      rw [List.cons_append, namesAfter, ih, namesAfter]
      simp [questionBytes, Nat.add_assoc]

/-- Every question's name has an offset, at most that of the last question. -/
theorem get?_namesAfter {records : List DNSQueryRecord} {record : DNSQueryRecord}
    (hmem : record ∈ records) (offset : Nat) (names : DomainNames) :
    ∃ o, (namesAfter records offset names).get? record.domainName = some o ∧
      o ≤ offset + (questionBytes records.dropLast).length := by
  induction records using List.reverseRecOn with
  | nil => cases hmem
  | append_singleton records last ih =>
      rw [namesAfter_concat, Dict.get?_set, List.dropLast_concat]
      by_cases hlast : record.domainName = last.domainName
      · exact ⟨_, if_pos hlast, Nat.le_refl _⟩
      · have hrecord : record ∈ records := by
          rcases List.mem_append.mp hmem with h | h
          · exact h
          · rw [List.mem_singleton] at h
            exact absurd (by rw [h]) hlast
        obtain ⟨o, ho, hle⟩ := ih hrecord
        refine ⟨o, by rw [if_neg hlast]; exact ho, Nat.le_trans hle (Nat.add_le_add_left ?_ _)⟩
        have hsplit := List.dropLast_append_getLast (List.ne_nil_of_mem hrecord)
        conv_rhs => rw [← hsplit, questionBytes, List.flatMap_append, List.length_append]
        exact Nat.le_add_right _ _

-- ============================================================================
-- Answers
-- ============================================================================

namespace DNSAnswerRecord

/-- What stands after the owner of an answer. -/
def body (r : DNSAnswerRecord) : Bytes :=
  Order.big.toBytes 2 r.type ++ (Order.big.toBytes 2 r.clase ++ (Order.big.toBytes 4 r.ttl.toNat ++
    (Order.big.toBytes 2 r.rData.length ++ r.rData)))

/-- The answer as it stands in a message, its owner a pointer to the offset. -/
def wire (r : DNSAnswerRecord) (pointer : Nat) : Bytes :=
  0xc0 :: UInt8.ofNat pointer :: r.body

/-- The numbers of the answer fit into their fields. -/
structure Fits (r : DNSAnswerRecord) : Prop where
  type : r.type < 65536
  clase : r.clase < 65536
  ttl_nonneg : 0 ≤ r.ttl
  ttl_lt : r.ttl < 4294967296
  rData : r.rData.length < 65536

theorem Fits.ttl_toNat_lt {r : DNSAnswerRecord} (h : r.Fits) : r.ttl.toNat < 256 ^ 4 := by
  have := h.ttl_lt
  omega

theorem length_body (r : DNSAnswerRecord) : r.body.length = 10 + r.rData.length := by
  simp only [body, List.length_append, Order.length_toBytes]
  omega

theorem length_wire (r : DNSAnswerRecord) (pointer : Nat) :
    (r.wire pointer).length = 12 + r.rData.length := by
  rw [wire, List.length_cons, List.length_cons, length_body]
  omega

/-- What is written for an answer whose owner stands at an offset of one byte. -/
theorem toBytes_of_fits {r : DNSAnswerRecord} (h : r.Fits) {names : DomainNames} {pointer : Nat}
    (hname : names.get? r.domainName = some pointer) (hpointer : pointer < 256) (offset : Nat) :
    r.toBytes offset names =
      (namesWritten names r offset).map fun after => (r.wire pointer, after) := by
  have hbyte : bytesOf [pointer] = .ok [UInt8.ofNat pointer] := by
    rw [bytesOf_of_lt (by simpa using hpointer)]
    rfl
  have htype : packInt r.type 2 = .ok (Order.big.toBytes 2 r.type) := packInt_natCast h.type
  have hclase : packInt r.clase 2 = .ok (Order.big.toBytes 2 r.clase) := packInt_natCast h.clase
  have httl := packInt_natCast h.ttl_toNat_lt
  have hlength : packInt r.rData.length 2 = .ok (Order.big.toBytes 2 r.rData.length) :=
    packInt_natCast h.rData
  rw [Int.toNat_of_nonneg h.ttl_nonneg] at httl
  simp only [toBytes, hname, hbyte, htype, hclase, httl, hlength, except_ok_bind]
  cases namesWritten names r offset with
  | ok after => simp [Except.map, wire, body]
  | error e => rfl

/-- An answer that was written fits, and its owner stands at an offset of one byte. -/
theorem fits_of_toBytes {r : DNSAnswerRecord} {names : DomainNames} {offset : Nat}
    {written : Bytes × DomainNames} (h : r.toBytes offset names = .ok written) :
    r.Fits ∧ ∃ pointer, names.get? r.domainName = some pointer ∧ pointer < 256 := by
  unfold toBytes at h
  split at h
  · cases h
  · next pointer hname =>
      obtain ⟨pointerByte, hpointer, h⟩ := except_bind_ok_iff.mp h
      obtain ⟨type, htype, h⟩ := except_bind_ok_iff.mp h
      obtain ⟨clase, hclase, h⟩ := except_bind_ok_iff.mp h
      obtain ⟨ttl, httl, h⟩ := except_bind_ok_iff.mp h
      obtain ⟨length, hlength, h⟩ := except_bind_ok_iff.mp h
      have hlt : pointer < 256 := by
        unfold bytesOf at hpointer
        split at hpointer
        · next hall => simpa using hall
        · cases hpointer
      have htypeLt := (packInt_ok_iff.mp htype).1.2
      have hclaseLt := (packInt_ok_iff.mp hclase).1.2
      have httlBounds := (packInt_ok_iff.mp httl).1
      have hlengthLt := (packInt_ok_iff.mp hlength).1.2
      exact ⟨⟨by omega, by omega, httlBounds.1, httlBounds.2, by omega⟩, pointer, hname, hlt⟩

/-- The fields of a record whose bytes stand at the offset. -/
theorem fields_placed {r : DNSAnswerRecord} (h : r.Fits) {data : Bytes} {offset : Nat}
    (hbody : Placed data offset r.body) :
    unpackIntFrom data offset 2 = (r.type, offset + 2) ∧
      unpackIntFrom data (offset + 2) 2 = (r.clase, offset + 4) ∧
      unpackIntFrom data (offset + 4) 4 = (r.ttl.toNat, offset + 8) ∧
      unpackIntFrom data (offset + 8) 2 = (r.rData.length, offset + 10) ∧
      Placed data (offset + 10) r.rData := by
  have htype := unpackIntFrom_placed (h.type : r.type < 256 ^ 2) hbody.left
  have hafterType := hbody.right
  rw [Order.length_toBytes] at hafterType
  have hclase := unpackIntFrom_placed (h.clase : r.clase < 256 ^ 2) hafterType.left
  have hafterClase := hafterType.right
  rw [Order.length_toBytes] at hafterClase
  have httl := unpackIntFrom_placed h.ttl_toNat_lt hafterClase.left
  have hafterTtl := hafterClase.right
  rw [Order.length_toBytes] at hafterTtl
  have hlength := unpackIntFrom_placed (h.rData : r.rData.length < 256 ^ 2) hafterTtl.left
  have hrData := hafterTtl.right
  rw [Order.length_toBytes] at hrData
  exact ⟨htype, hclase, httl, hlength, hrData⟩

/-- An answer whose owner is the second byte of two. -/
theorem fromBytes_placed {r : DNSAnswerRecord} (h : r.Fits) {data : Bytes} {offset pointer : Nat}
    {first : UInt8} (hpointer : pointer < 256)
    (hplaced : Placed data offset (first :: UInt8.ofNat pointer :: r.body)) {names : DomainNames}
    (hname : (reversedDomainNames names).get? pointer = some r.domainName) :
    fromBytes data offset names =
      (namesRead names r.type r.rData (offset + 12)).map fun after =>
        (r, offset + (12 + r.rData.length), after) := by
  have hbyte : data[offset + 1]? = some (UInt8.ofNat pointer) := hplaced.tail.head
  have hbody : Placed data (offset + 1 + 1) r.body := hplaced.tail.tail
  obtain ⟨htype, hclase, httl, hlength, hrData⟩ := fields_placed h hbody
  have hslice := slice_placed hrData
  have hnat : (r.ttl.toNat : Int) = r.ttl := Int.toNat_of_nonneg h.ttl_nonneg
  have hstart : offset + 1 + 1 + 10 = offset + 12 := by omega
  rw [hstart] at hslice
  simp only [fromBytes, hbyte, toNat_ofNat_of_lt hpointer, hname, htype, hclase, httl, hlength,
    hslice, hnat, hstart]
  cases namesRead names r.type r.rData (offset + 12) with
  | ok after => simp [Except.map, Nat.add_assoc]
  | error e => rfl

end DNSAnswerRecord

/-- Answers none of which is an alias leave the names as they are, and those that are
    written all fit. -/
theorem fits_of_writeAnswers {records : List DNSAnswerRecord}
    (htype : ∀ r ∈ records, r.type ≠ DNSAnswerRecord.typeCNAME) {data : Bytes}
    {names : DomainNames} {written : Bytes × DomainNames}
    (h : writeAnswers records data names = .ok written) :
    ∀ r ∈ records, r.Fits ∧ ∃ pointer, names.get? r.domainName = some pointer ∧ pointer < 256 := by
  induction records generalizing data with
  | nil => simp
  | cons record records ih =>
      obtain ⟨⟨bytes, after⟩, hrecord, hrest⟩ := except_bind_ok_iff.mp h
      obtain ⟨hfits, pointer, hname, hlt⟩ := DNSAnswerRecord.fits_of_toBytes hrecord
      have hafter : after = names := by
        rw [DNSAnswerRecord.toBytes_of_fits hfits hname hlt, DNSAnswerRecord.namesWritten,
          if_neg (htype record List.mem_cons_self)] at hrecord
        cases hrecord
        rfl
      subst hafter
      intro r hr
      rcases List.mem_cons.mp hr with rfl | hr
      · exact ⟨hfits, pointer, hname, hlt⟩
      · exact ih (fun r hr => htype r (List.mem_cons_of_mem _ hr)) hrest r hr

/-- The offset of an answer's owner. -/
def DNSAnswerRecord.pointer (names : DomainNames) (r : DNSAnswerRecord) : Nat :=
  (names.get? r.domainName).getD 0

/-- Answers as they stand in a message. -/
def answerBytes (names : DomainNames) (records : List DNSAnswerRecord) : Bytes :=
  records.flatMap fun r => r.wire (r.pointer names)

/-- The encoder writes answers that fit. -/
theorem writeAnswers_wire {records : List DNSAnswerRecord}
    (htype : ∀ r ∈ records, r.type ≠ DNSAnswerRecord.typeCNAME) {names : DomainNames}
    (h : ∀ r ∈ records, r.Fits ∧ ∃ pointer, names.get? r.domainName = some pointer ∧ pointer < 256)
    (data : Bytes) :
    writeAnswers records data names = .ok (data ++ answerBytes names records, names) := by
  induction records generalizing data with
  | nil => simp [writeAnswers, answerBytes]
  | cons record records ih =>
      obtain ⟨hfits, pointer, hname, hlt⟩ := h record List.mem_cons_self
      have hpointer : record.pointer names = pointer := by
        rw [DNSAnswerRecord.pointer, hname, Option.getD_some]
      have hrecord : record.toBytes data.length names = .ok (record.wire pointer, names) := by
        rw [DNSAnswerRecord.toBytes_of_fits hfits hname hlt, DNSAnswerRecord.namesWritten,
          if_neg (htype record List.mem_cons_self)]
        rfl
      rw [writeAnswers, hrecord, except_ok_bind]
      dsimp only
      rw [ih (fun r hr => htype r (List.mem_cons_of_mem _ hr))
        (fun r hr => h r (List.mem_cons_of_mem _ hr))]
      simp [answerBytes, hpointer]

/-- The decoder reads the answers back when it knows the same names. -/
theorem readRecords_answers {records : List DNSAnswerRecord}
    (htype : ∀ r ∈ records, r.type ≠ DNSAnswerRecord.typeCNAME) {names : DomainNames}
    {bound : Nat} (hnames : NamesBefore names bound)
    (h : ∀ r ∈ records, r.Fits ∧ ∃ pointer, names.get? r.domainName = some pointer ∧ pointer < 256)
    {data : Bytes} {offset : Nat} (hplaced : Placed data offset (answerBytes names records)) :
    readRecords (DNSAnswerRecord.fromBytes data) records.length offset names =
      .ok (records, offset + (answerBytes names records).length, names) := by
  induction records generalizing offset with
  | nil => rfl
  | cons record records ih =>
      obtain ⟨hfits, pointer, hname, hlt⟩ := h record List.mem_cons_self
      have hpointer : record.pointer names = pointer := by
        rw [DNSAnswerRecord.pointer, hname, Option.getD_some]
      have hhead : Placed data offset (record.wire pointer) := by
        rw [← hpointer]
        exact hplaced.left
      have htail : Placed data (offset + (12 + record.rData.length))
          (answerBytes names records) := by
        rw [← record.length_wire (record.pointer names)]
        exact hplaced.right
      have hrecord : DNSAnswerRecord.fromBytes data offset names =
          .ok (record, offset + (12 + record.rData.length), names) := by
        rw [DNSAnswerRecord.fromBytes_placed hfits hlt hhead (hnames.get?_reversed hname),
          DNSAnswerRecord.namesRead, if_neg (htype record List.mem_cons_self)]
        rfl
      have hend : (answerBytes names (record :: records)).length =
          12 + record.rData.length + (answerBytes names records).length := by
        rw [answerBytes, List.flatMap_cons, List.length_append, record.length_wire]
        rfl
      rw [List.length_cons, readRecords, hrecord, except_ok_bind]
      dsimp only
      rw [ih (fun r hr => htype r (List.mem_cons_of_mem _ hr))
        (fun r hr => h r (List.mem_cons_of_mem _ hr)) htail, except_ok_bind, hend, Nat.add_assoc]
      rfl

-- ============================================================================
-- The header
-- ============================================================================

/-- The flags fit into their two bytes. -/
structure DNSFlags.Fits (f : DNSFlags) : Prop where
  opcode : f.opcode < 16
  rcode : f.rcode < 16

theorem DNSFlags.toBytes_of_fits {f : DNSFlags} (h : f.Fits) :
    ∃ b1 b2, f.toBytes = .ok [b1, b2] := by
  have hopcode := h.opcode
  have hrcode := h.rcode
  have hbool : ∀ b : Bool, b.toNat ≤ 1 := Bool.toNat_le
  have h1 := hbool f.isResponse
  have h2 := hbool f.authoritative
  have h3 := hbool f.truncated
  have h4 := hbool f.recdesired
  have h5 := hbool f.recavail
  have h6 := hbool f.z
  have h7 := hbool f.authenticated
  have h8 := hbool f.checkdisable
  refine ⟨_, _, bytesOf_of_lt ?_⟩
  intro n hn
  simp only [List.mem_cons, List.not_mem_nil, or_false] at hn
  rcases hn with rfl | rfl <;> omega

/-- Numbers that were packed stand at the offset. -/
theorem unpackFrom_placed {o : Order} {fmt : List Code} {vals : List Nat} {bs data : Bytes}
    {offset : Nat} (h : pack o fmt vals = .ok bs) (hplaced : Placed data offset bs) :
    unpackFrom o fmt data offset = .ok (norms fmt vals) := by
  obtain ⟨rest, hrest⟩ := hplaced
  have hback := unpackFrom_pack_zero h rest
  rw [unpackFrom, List.drop_zero, hrest] at hback
  exact hback

-- ============================================================================
-- What a decoder returns
-- ============================================================================

theorem unpackIntFrom_lt (data : Bytes) (offset size : Nat) :
    (unpackIntFrom data offset size).1 < 256 ^ size := by
  have hlt := Order.big.ofBytes_lt (slice data offset (offset + size))
  have hle : (slice data offset (offset + size)).length ≤ size := by
    rw [length_slice]
    omega
  exact Nat.lt_of_lt_of_le hlt (Nat.pow_le_pow_right (by decide) hle)

theorem length_readRecords {α : Type}
    {read : Nat → DomainNames → Except Exn (α × Nat × DomainNames)} {count offset : Nat}
    {names : DomainNames} {out : List α × Nat × DomainNames}
    (h : readRecords read count offset names = .ok out) : out.1.length = count := by
  induction count generalizing offset names out with
  | zero =>
      cases h
      rfl
  | succ count ih =>
      obtain ⟨⟨record, next, names₁⟩, -, hrest⟩ := except_bind_ok_iff.mp h
      obtain ⟨⟨records, last, names₂⟩, hrecords, hout⟩ := except_bind_ok_iff.mp hrest
      cases hout
      rw [List.length_cons, ih hrecords]

end Dns
end NetworkingFinal
