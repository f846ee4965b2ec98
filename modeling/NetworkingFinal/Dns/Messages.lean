/-
  NetworkingFinal.Dns.Messages

  Messages as RFC 1035 has them, read from the bytes alone: names with compression,
  the sections of records and where each record stands.  Nothing here is the code's;
  what the server decodes and relays is compared with it.

  - `NameAt`: a name, whole or ending in a pointer to an earlier one.
  - `Entry`, `EntriesAt`: a record by its places, and records in a row.
  - `Expands`: the data of a record with its names expanded.
  - `Layout.Upto`, `Layout.Of`: the message with the counts of its header.
-/
import NetworkingFinal.Dns.Converters

namespace NetworkingFinal
namespace Dns

open Py Py.Struct
open Lib (Placed)

-- ============================================================================
-- Names
-- ============================================================================

/-- A label of 1 to 63 bytes. -/
def RfcLabel (label : Bytes) : Prop := label ≠ [] ∧ label.length ≤ 63

theorem RfcLabel.short {label : Bytes} (h : RfcLabel label) : ShortLabel label :=
  ⟨h.1, Nat.lt_of_le_of_lt h.2 (by decide)⟩

/-- Labels, each after its length. -/
def labelBytes (labels : List Bytes) : Bytes :=
  labels.flatMap fun label => UInt8.ofNat label.length :: label

/-- A pointer: two set bits and fourteen bits of offset. -/
def pointerBytes (target : Nat) : Bytes :=
  [UInt8.ofNat (192 + target / 256), UInt8.ofNat (target % 256)]

/-- A name at the offset: its labels, with those that a pointer leads to, and where the
    bytes that stand at the offset end.  A pointer leads back, past the header. -/
inductive NameAt (data : Bytes) : Nat → List Bytes → Nat → Prop
  | whole {offset : Nat} {labels : List Bytes} (legal : ∀ label ∈ labels, RfcLabel label)
      (placed : Placed data offset (wireName labels)) :
      NameAt data offset labels (offset + (wireName labels).length)
  | pointing {offset target next : Nat} {labels rest : List Bytes}
      (legal : ∀ label ∈ labels, RfcLabel label)
      (placed : Placed data offset (labelBytes labels ++ pointerBytes target))
      (past : 12 ≤ target) (back : target < offset) (wide : target < 16384)
      (name : NameAt data target rest next) :
      NameAt data offset (labels ++ rest) (offset + (labelBytes labels).length + 2)

theorem wireName_eq (labels : List Bytes) : wireName labels = labelBytes labels ++ [0] := by
  induction labels with
  | nil => rfl
  | cons label labels ih =>
      rw [wireName, ih, labelBytes, labelBytes, List.flatMap_cons, List.cons_append,
        List.cons_append, List.append_assoc]

theorem NameAt.lt_next {data : Bytes} {offset next : Nat} {labels : List Bytes}
    (h : NameAt data offset labels next) : offset < next := by
  cases h with
  | whole legal placed =>
      have := List.length_pos_iff.mpr (wireName_ne_nil labels)
      omega
  | pointing legal placed past back wide name => omega

-- ============================================================================
-- Questions
-- ============================================================================

/-- A question: where it starts, and the labels of its name. -/
structure Question where
  start : Nat
  labels : List Bytes

namespace Question

variable (data : Bytes) (q : Question)

def nameEnd : Nat := q.start + (wireName q.labels).length

def type : Nat := (unpackIntFrom data q.nameEnd 2).1

def clase : Nat := (unpackIntFrom data (q.nameEnd + 2) 2).1

end Question

/-- Questions in a row, under names without pointers. -/
inductive QuestionsAt (data : Bytes) : Nat → List Question → Nat → Prop
  | nil {offset : Nat} : QuestionsAt data offset [] offset
  | cons {q : Question} {qs : List Question} {last : Nat}
      (legal : ∀ label ∈ q.labels, RfcLabel label)
      (placed : Placed data q.start (wireName q.labels))
      (fits : q.nameEnd + 4 ≤ data.length) (rest : QuestionsAt data (q.nameEnd + 4) qs last) :
      QuestionsAt data q.start (q :: qs) last

-- ============================================================================
-- Records
-- ============================================================================

/-- A record: where its owner's name starts, the labels of the owner, and where the type
    stands. -/
structure Entry where
  start : Nat
  owner : List Bytes
  body : Nat

namespace Entry

variable (data : Bytes) (e : Entry)

def type : Nat := (unpackIntFrom data e.body 2).1

def clase : Nat := (unpackIntFrom data (e.body + 2) 2).1

def ttl : Nat := (unpackIntFrom data (e.body + 4) 4).1

/-- Where the next record starts. -/
def next : Nat := e.body + 10 + (unpackIntFrom data (e.body + 8) 2).1

def rData : Bytes := slice data (e.body + 10) (e.next data)

end Entry

/-- Records in a row, under names in any form. -/
inductive EntriesAt (data : Bytes) : Nat → List Entry → Nat → Prop
  | nil {offset : Nat} : EntriesAt data offset [] offset
  | cons {e : Entry} {es : List Entry} {last : Nat} (owner : NameAt data e.start e.owner e.body)
      (fits : e.next data ≤ data.length) (rest : EntriesAt data (e.next data) es last) :
      EntriesAt data e.start (e :: es) last

-- ============================================================================
-- The data of a record
-- ============================================================================

/-- What the data of a record is made of. -/
inductive Part where
  | name
  | bytes (n : Nat)
  | rest
  deriving DecidableEq

/-- The parts of the data by the type of the record.  NS, MD, MF, CNAME, MB, MG, MR and PTR
    records hold a name, SOA and MINFO records two, MX records a number and a name; other
    data holds none. -/
def parts : Nat → List Part
  | 2 | 3 | 4 | 5 | 7 | 8 | 9 | 12 => [.name]
  | 6 => [.name, .name, .bytes 20]
  | 14 => [.name, .name]
  | 15 => [.bytes 2, .name]
  | _ => [.rest]

/-- A part as it reads: a name is its labels. -/
inductive Piece where
  | name (labels : List Bytes)
  | bytes (data : Bytes)
  deriving DecidableEq

/-- The data falls into the parts from an offset of its own on, and reads as the pieces,
    when `N offset labels next` reads its names. -/
inductive Expands (N : Nat → List Bytes → Nat → Prop) (rData : Bytes) :
    List Part → Nat → List Piece → Prop
  | nil : Expands N rData [] rData.length []
  | name {ps : List Part} {pieces : List Piece} {offset next : Nat} {labels : List Bytes}
      (name : N offset labels next) (fits : next ≤ rData.length)
      (rest : Expands N rData ps next pieces) :
      Expands N rData (.name :: ps) offset (.name labels :: pieces)
  | bytes {ps : List Part} {pieces : List Piece} {offset n : Nat}
      (fits : offset + n ≤ rData.length) (rest : Expands N rData ps (offset + n) pieces) :
      Expands N rData (.bytes n :: ps) offset (.bytes (slice rData offset (offset + n)) :: pieces)
  | rest {offset : Nat} : Expands N rData [.rest] offset [.bytes (rData.drop offset)]

/-- Reading the names in another way makes no difference where that way reads the same. -/
theorem Expands.mono {N N' : Nat → List Bytes → Nat → Prop} {rData : Bytes} {ps : List Part}
    {offset : Nat} {pieces : List Piece} (h : Expands N rData ps offset pieces)
    (hN : ∀ offset labels next, N offset labels next → next ≤ rData.length →
      N' offset labels next) : Expands N' rData ps offset pieces := by
  induction h with
  | nil => exact .nil
  | name name fits rest ih => exact .name (hN _ _ _ name fits) fits ih
  | bytes fits rest ih => exact .bytes fits ih
  | rest => exact .rest

/-- The data of a record, with its names read in the message. -/
def Entry.Expands (data : Bytes) (e : Entry) (pieces : List Piece) : Prop :=
  Dns.Expands (fun offset labels next => NameAt data (e.body + 10 + offset) labels
    (e.body + 10 + next)) (e.rData data) (parts (e.type data)) 0 pieces

-- ============================================================================
-- Messages
-- ============================================================================

/-- The questions and the three sections of records. -/
structure Layout where
  questions : List Question
  answers : List Entry
  authority : List Entry
  additional : List Entry

namespace Layout

def records (l : Layout) : List Entry := l.answers ++ l.authority ++ l.additional

/-- The bytes up to the offset are a well-formed message of this layout: the header counts
    what follows it. -/
structure Upto (l : Layout) (data : Bytes) (last : Nat) : Prop where
  header : 12 ≤ data.length
  queriesCount : (unpackIntFrom data 4 2).1 = l.questions.length
  answersCount : (unpackIntFrom data 6 2).1 = l.answers.length
  authorityCount : (unpackIntFrom data 8 2).1 = l.authority.length
  additionalCount : (unpackIntFrom data 10 2).1 = l.additional.length
  sections : ∃ o₁ o₂ o₃, QuestionsAt data 12 l.questions o₁ ∧ EntriesAt data o₁ l.answers o₂ ∧
    EntriesAt data o₂ l.authority o₃ ∧ EntriesAt data o₃ l.additional last

/-- Nothing follows the message. -/
abbrev Of (l : Layout) (data : Bytes) : Prop := l.Upto data data.length

end Layout

-- ============================================================================
-- A message reads in one way
-- ============================================================================

theorem labelBytes_cons (label : Bytes) (labels : List Bytes) :
    labelBytes (label :: labels) =
      UInt8.ofNat label.length :: (label ++ labelBytes labels) := by
  rw [labelBytes, List.flatMap_cons, List.cons_append, labelBytes]

/-- Labels end before the first byte that is no length of a label. -/
theorem labels_unique {data : Bytes} {labels labels' : List Bytes} {b b' : UInt8}
    (hlegal : ∀ label ∈ labels, RfcLabel label) (hlegal' : ∀ label ∈ labels', RfcLabel label)
    (hb : b = 0 ∨ 192 ≤ b.toNat) (hb' : b' = 0 ∨ 192 ≤ b'.toNat) {offset : Nat}
    (h : Placed data offset (labelBytes labels ++ [b]))
    (h' : Placed data offset (labelBytes labels' ++ [b'])) : labels = labels' ∧ b = b' := by
  have hlength : ∀ {label : Bytes} {b : UInt8}, RfcLabel label → b = 0 ∨ 192 ≤ b.toNat →
      UInt8.ofNat label.length ≠ b := by
    intro label b hlabel hb heq
    have hpos := List.length_pos_iff.mpr hlabel.1
    have hle := hlabel.2
    have hnat : b.toNat = label.length := by
      rw [← heq, toNat_ofNat_of_lt (by omega)]
    rcases hb with rfl | hb
    · have hzero : (0 : UInt8).toNat = 0 := rfl
      omega
    · omega
  induction labels generalizing labels' offset with
  | nil =>
      cases labels' with
      | nil =>
          have hhead : data[offset]? = some b := Placed.head h
          have hhead' : data[offset]? = some b' := Placed.head h'
          exact ⟨rfl, Option.some.inj (hhead.symm.trans hhead')⟩
      | cons label' labels' =>
          have hhead : data[offset]? = some b := Placed.head h
          have hhead' : data[offset]? = some (UInt8.ofNat label'.length) := Placed.head h'
          exact absurd (Option.some.inj (hhead'.symm.trans hhead))
            (hlength (hlegal' _ List.mem_cons_self) hb)
  | cons label labels ih =>
      have hhead : data[offset]? = some (UInt8.ofNat label.length) := Placed.head h
      have hsmall := (hlegal _ List.mem_cons_self).2
      cases labels' with
      | nil =>
          have hhead' : data[offset]? = some b' := Placed.head h'
          exact absurd (Option.some.inj (hhead.symm.trans hhead'))
            (hlength (hlegal _ List.mem_cons_self) hb')
      | cons label' labels' =>
          have hhead' : data[offset]? = some (UInt8.ofNat label'.length) := Placed.head h'
          have hsmall' := (hlegal' _ List.mem_cons_self).2
          have hsame : label.length = label'.length := by
            have hbytes := congrArg UInt8.toNat (Option.some.inj (hhead.symm.trans hhead'))
            rwa [toNat_ofNat_of_lt (by omega), toNat_ofNat_of_lt (by omega)] at hbytes
          have hafter : Placed data (offset + 1) (label ++ (labelBytes labels ++ [b])) := by
            rw [labelBytes_cons, List.cons_append, List.append_assoc] at h
            exact h.tail
          have hafter' : Placed data (offset + 1) (label' ++ (labelBytes labels' ++ [b'])) := by
            rw [labelBytes_cons, List.cons_append, List.append_assoc] at h'
            exact h'.tail
          obtain rfl := hafter.left.unique hafter'.left hsame
          obtain ⟨rfl, hend⟩ := ih (fun x hx => hlegal x (List.mem_cons_of_mem _ hx))
            (fun x hx => hlegal' x (List.mem_cons_of_mem _ hx)) hafter.right hafter'.right
          exact ⟨rfl, hend⟩

/-- The first byte of a pointer. -/
theorem pointer_head {target : Nat} (wide : target < 16384) :
    (UInt8.ofNat (192 + target / 256)).toNat = 192 + target / 256 :=
  toNat_ofNat_of_lt (by omega)

theorem pointerBytes_inj {target target' : Nat} (wide : target < 16384)
    (wide' : target' < 16384) (h : pointerBytes target = pointerBytes target') :
    target = target' := by
  rw [pointerBytes, pointerBytes, List.cons.injEq, List.cons.injEq] at h
  have hhigh := congrArg UInt8.toNat h.1
  have hlow := congrArg UInt8.toNat h.2.1
  rw [pointer_head wide, pointer_head wide'] at hhigh
  rw [toNat_ofNat_of_lt (Nat.mod_lt _ (by decide)), toNat_ofNat_of_lt (Nat.mod_lt _ (by decide))]
    at hlow
  omega

theorem placed_pointer_head {data : Bytes} {offset target : Nat} {labels : List Bytes}
    (h : Placed data offset (labelBytes labels ++ pointerBytes target)) :
    Placed data offset (labelBytes labels ++ [UInt8.ofNat (192 + target / 256)]) := by
  have hsplit : labelBytes labels ++ pointerBytes target =
      labelBytes labels ++ [UInt8.ofNat (192 + target / 256)] ++ [UInt8.ofNat (target % 256)] := by
    rw [List.append_assoc]
    rfl
  rw [hsplit] at h
  exact h.left

theorem NameAt.unique {data : Bytes} {offset next next' : Nat} {labels labels' : List Bytes}
    (h : NameAt data offset labels next) (h' : NameAt data offset labels' next') :
    labels = labels' ∧ next = next' := by
  induction h generalizing labels' next' with
  | whole legal placed =>
      rw [wireName_eq] at placed
      cases h' with
      | whole legal' placed' =>
          rw [wireName_eq] at placed'
          obtain ⟨rfl, -⟩ := labels_unique legal legal' (Or.inl rfl) (Or.inl rfl) placed placed'
          exact ⟨rfl, rfl⟩
      | pointing legal' placed' past back wide name =>
          have hhead := pointer_head wide
          obtain ⟨-, hzero⟩ := labels_unique legal legal' (Or.inl rfl) (Or.inr (by omega)) placed
            (placed_pointer_head placed')
          rw [← hzero] at hhead
          have hnat : (0 : UInt8).toNat = 0 := rfl
          omega
  | @pointing offset target next labels rest legal placed past back wide name ih =>
      have hhead := pointer_head wide
      cases h' with
      | whole legal' placed' =>
          rw [wireName_eq] at placed'
          obtain ⟨-, hzero⟩ := labels_unique legal legal' (Or.inr (by omega)) (Or.inl rfl)
            (placed_pointer_head placed) placed'
          rw [hzero] at hhead
          have hnat : (0 : UInt8).toNat = 0 := rfl
          omega
      | @pointing _ target' _ labels' rest' legal' placed' past' back' wide' name' =>
          have hhead' := pointer_head wide'
          obtain ⟨rfl, -⟩ := labels_unique legal legal' (Or.inr (by omega)) (Or.inr (by omega))
            (placed_pointer_head placed) (placed_pointer_head placed')
          obtain rfl := pointerBytes_inj wide wide'
            (placed.right.unique placed'.right rfl)
          obtain ⟨rfl, rfl⟩ := ih name'
          exact ⟨rfl, rfl⟩

/-- The data of a record reads in one way when its names do. -/
theorem Expands.unique {N : Nat → List Bytes → Nat → Prop} {rData : Bytes}
    (hN : ∀ offset labels labels' next next', N offset labels next → N offset labels' next' →
      labels = labels' ∧ next = next') {ps : List Part} {offset : Nat}
    {pieces pieces' : List Piece} (h : Expands N rData ps offset pieces)
    (h' : Expands N rData ps offset pieces') : pieces = pieces' := by
  induction h generalizing pieces' with
  | nil =>
      cases h'
      rfl
  | name name fits rest ih =>
      cases h' with
      | name name' fits' rest' =>
          obtain ⟨rfl, rfl⟩ := hN _ _ _ _ _ name name'
          rw [ih rest']
  | bytes fits rest ih =>
      cases h' with
      | bytes fits' rest' => rw [ih rest']
  | rest =>
      cases h'
      rfl

-- ============================================================================
-- Messages that agree after the header
-- ============================================================================

/-- A name reads the same in a message that begins the same way after the header. -/
theorem NameAt.of_begins {data data' : Bytes} (hsame : data.drop 12 <+: data'.drop 12)
    {offset next : Nat} {labels : List Bytes} (h : NameAt data offset labels next)
    (hoffset : 12 ≤ offset) : NameAt data' offset labels next := by
  induction h with
  | whole legal placed => exact .whole legal (placed.of_begins hsame hoffset)
  | pointing legal placed past back wide name ih =>
      exact .pointing legal (placed.of_begins hsame hoffset) past back wide (ih past)

end Dns
end NetworkingFinal
