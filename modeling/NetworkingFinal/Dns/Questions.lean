/-
  NetworkingFinal.Dns.Questions

  A query decoded and encoded again, as the handler does with the questions that it
  forwards.  The decoder joins the labels of a name with dots and the encoder splits it
  there; the text of the root is empty, which splits into one label without characters.

  - `DNSFlags.toBytes_fromBytes`: the flags keep all their bits.
  - `reencoded_iff`: the queries that come back byte for byte.
-/
import NetworkingFinal.Dns.Receive
import NetworkingFinal.Dns.Wire

namespace NetworkingFinal
namespace Dns

open Py Py.Struct
open Lib (Placed)

-- ============================================================================
-- Flags
-- ============================================================================

/-- The low byte is its code and its four flags. -/
theorem low_flags (b : UInt8) :
    b.toNat % 16 + (decide (b.toNat &&& 2 ^ 4 > 0)).toNat * 2 ^ 4 +
      ((decide (b.toNat &&& 2 ^ 5 > 0)).toNat * 2 ^ 5 +
        (decide (b.toNat &&& 2 ^ 6 > 0)).toNat * 2 ^ 6 +
        (decide (b.toNat &&& 2 ^ 7 > 0)).toNat * 2 ^ 7) = b.toNat := by
  have hall : ∀ n < 256, n % 16 + (decide (n &&& 2 ^ 4 > 0)).toNat * 2 ^ 4 +
      ((decide (n &&& 2 ^ 5 > 0)).toNat * 2 ^ 5 + (decide (n &&& 2 ^ 6 > 0)).toNat * 2 ^ 6 +
        (decide (n &&& 2 ^ 7 > 0)).toNat * 2 ^ 7) = n := by decide +kernel
  exact hall _ b.toNat_lt

/-- The high byte is its opcode and its four flags. -/
theorem high_flags (b : UInt8) :
    (decide (b.toNat &&& 2 ^ 0 > 0)).toNat * 2 ^ 0 +
      (decide (b.toNat &&& 2 ^ 1 > 0)).toNat * 2 ^ 1 +
      (decide (b.toNat &&& 2 ^ 2 > 0)).toNat * 2 ^ 2 +
      (b.toNat / 8 % 16 * 2 ^ 3 +
        (decide (b.toNat / 8 / 16 &&& 2 ^ 0 > 0)).toNat * 2 ^ 7) = b.toNat := by
  have hall : ∀ n < 256, (decide (n &&& 2 ^ 0 > 0)).toNat * 2 ^ 0 +
      (decide (n &&& 2 ^ 1 > 0)).toNat * 2 ^ 1 + (decide (n &&& 2 ^ 2 > 0)).toNat * 2 ^ 2 +
      (n / 8 % 16 * 2 ^ 3 + (decide (n / 8 / 16 &&& 2 ^ 0 > 0)).toNat * 2 ^ 7) = n := by
    decide +kernel
  exact hall _ b.toNat_lt

/-- Decoded flags are written as they were. -/
theorem DNSFlags.toBytes_fromBytes (b1 b2 : UInt8) :
    ∃ f, fromBytes [b1, b2] = .ok f ∧ f.toBytes = .ok [b1, b2] := by
  refine ⟨_, rfl, ?_⟩
  unfold toBytes
  dsimp only
  rw [low_flags, high_flags, bytesOf_of_lt]
  · simp only [List.map_cons, List.map_nil, UInt8.ofNat_toNat]
  · intro n hn
    simp only [List.mem_cons, List.not_mem_nil, or_false] at hn
    rcases hn with rfl | rfl
    · exact b1.toNat_lt
    · exact b2.toNat_lt

-- ============================================================================
-- Questions
-- ============================================================================

/-- A question of a client: the labels of its name (none for the root), its type and its
    class. -/
structure ClientQuestion where
  labels : List Str
  type : Nat
  clase : Nat

namespace ClientQuestion

/-- The labels are legal, without a dot, and the numbers have 16 bits. -/
structure Legal (q : ClientQuestion) : Prop where
  labels : ∀ label ∈ q.labels, LegalLabel label
  noDot : ∀ label ∈ q.labels, '.' ∉ label
  type : q.type < 65536
  clase : q.clase < 65536

def wire (q : ClientQuestion) : Bytes :=
  wireName (q.labels.map encode) ++ (Order.big.toBytes 2 q.type ++ Order.big.toBytes 2 q.clase)

/-- The decoded question. -/
def record (q : ClientQuestion) : DNSQueryRecord := ⟨['.'].intercalate q.labels, q.type, q.clase⟩

/-- What is written for the decoded question: one zero byte more for the root. -/
def written (q : ClientQuestion) : Bytes := if q.labels = [] then 0 :: q.wire else q.wire

theorem Legal.nameText_labels {q : ClientQuestion} (h : q.Legal) :
    nameText [] (q.labels.map encode) = .ok (['.'].intercalate q.labels) := by
  have hne : ∀ label ∈ q.labels, label ≠ [] := by
    intro label hlabel hnil
    have hpos := (h.labels label hlabel).1
    rw [hnil] at hpos
    exact absurd hpos (by decide)
  cases hlabels : q.labels with
  | nil => rfl
  | cons label labels =>
      rw [hlabels, List.forall_mem_cons] at hne
      rw [List.map_cons, nameText, decode_encode, except_ok_bind, if_neg (by simp),
        List.nil_append, nameText_cons hne.1 hne.2, intercalate_eq_flatMap]

/-- The decoder reads the question back. -/
theorem fromBytes_wire {q : ClientQuestion} (h : q.Legal) {data : Bytes} {offset : Nat}
    (hplaced : Placed data offset q.wire) (names : DomainNames) :
    ∃ names', DNSQueryRecord.fromBytes data offset names =
      .ok (q.record, offset + q.wire.length, names') := by
  have hshort : ∀ label ∈ q.labels.map encode, ShortLabel label := by
    intro label hlabel
    obtain ⟨text, htext, rfl⟩ := List.mem_map.mp hlabel
    exact (h.labels text htext).short
  have hname : unpackHostName data offset =
      .ok (['.'].intercalate q.labels, offset + (wireName (q.labels.map encode)).length) := by
    rw [unpackHostName_wireName hshort hplaced.left, h.nameText_labels]
    rfl
  have hrest := hplaced.right
  have htype := unpackIntFrom_placed (h.type : q.type < 256 ^ 2) hrest.left
  have hclase := unpackIntFrom_placed (h.clase : q.clase < 256 ^ 2) hrest.right
  rw [Order.length_toBytes] at hclase
  have hend : offset + q.wire.length =
      offset + (wireName (q.labels.map encode)).length + 2 + 2 := by
    simp only [wire, List.length_append, Order.length_toBytes]
    omega
  refine ⟨names.set (['.'].intercalate q.labels) offset, ?_⟩
  simp only [DNSQueryRecord.fromBytes, hname, except_ok_bind, htype, hclase, hend, except_pure,
    record]

/-- The encoder writes the labels that it finds in the text of the name. -/
theorem toBytes_record {q : ClientQuestion} (h : q.Legal) : q.record.toBytes = .ok q.written := by
  have hname : ∃ bytes, DNSQueryRecord.labelsToBytes ((['.'].intercalate q.labels).splitOn '.') =
      .ok bytes ∧ bytes ++ [0] =
        (if q.labels = [] then 0 :: wireName (q.labels.map encode)
          else wireName (q.labels.map encode)) := by
    by_cases hroot : q.labels = []
    · rw [hroot, if_pos rfl]
      exact ⟨[0], rfl, rfl⟩
    · rw [if_neg hroot, List.splitOn_intercalate '.' h.noDot hroot]
      exact labelsToBytes_encode h.labels
  obtain ⟨bytes, hbytes, hwire⟩ := hname
  rw [DNSQueryRecord.toBytes, record, hbytes, except_ok_bind,
    packInt_natCast (by simpa using h.type), except_ok_bind,
    packInt_natCast (by simpa using h.clase), except_ok_bind, except_pure, Except.ok.injEq,
    List.append_cons, hwire, written, wire]
  split
  · rfl
  · rfl

theorem length_written (q : ClientQuestion) :
    q.written.length = q.wire.length + if q.labels = [] then 1 else 0 := by
  unfold written
  split
  · exact List.length_cons
  · rfl

end ClientQuestion

/-- The decoder reads the question section back. -/
theorem readRecords_client {qs : List ClientQuestion} (h : ∀ q ∈ qs, q.Legal) {data : Bytes}
    {offset : Nat} (hplaced : Placed data offset (qs.flatMap ClientQuestion.wire))
    (names : DomainNames) :
    ∃ last names', readRecords (DNSQueryRecord.fromBytes data) qs.length offset names =
      .ok (qs.map ClientQuestion.record, last, names') := by
  induction qs generalizing offset names with
  | nil => exact ⟨offset, names, rfl⟩
  | cons q qs ih =>
      obtain ⟨names₁, hq⟩ :=
        ClientQuestion.fromBytes_wire (h q List.mem_cons_self) hplaced.left names
      obtain ⟨last, names₂, hqs⟩ :=
        ih (fun r hr => h r (List.mem_cons_of_mem _ hr)) hplaced.right names₁
      refine ⟨last, names₂, ?_⟩
      rw [List.length_cons, readRecords, hq, except_ok_bind]
      dsimp only
      rw [hqs]
      rfl

/-- The encoder writes the question section. -/
theorem writeQueries_client {qs : List ClientQuestion} (h : ∀ q ∈ qs, q.Legal) (data : Bytes)
    (names : DomainNames) :
    ∃ names', writeQueries (qs.map ClientQuestion.record) data names =
      .ok (data ++ qs.flatMap ClientQuestion.written, names') := by
  induction qs generalizing data names with
  | nil => exact ⟨names, by simp [writeQueries]⟩
  | cons q qs ih =>
      obtain ⟨names', hqs⟩ := ih (fun r hr => h r (List.mem_cons_of_mem _ hr))
        (data ++ q.written) (names.set q.record.domainName data.length)
      refine ⟨names', ?_⟩
      rw [List.map_cons, writeQueries, ClientQuestion.toBytes_record (h q List.mem_cons_self),
        except_ok_bind, hqs, List.flatMap_cons, List.append_assoc]

-- ============================================================================
-- Messages
-- ============================================================================

/-- The counts in the header of a query: its questions, and nothing else. -/
def queryCounts (count : Nat) : Bytes := Order.big.toBytes 2 count ++ List.replicate 6 0

/-- The message with the header and the questions. -/
def queryMessage (id flags : Bytes) (qs : List ClientQuestion) : Bytes :=
  id ++ (flags ++ queryCounts qs.length) ++ qs.flatMap ClientQuestion.wire

/-- The message is encoded as it was decoded. -/
def ReEncoded (d : Bytes) : Prop :=
  ∃ p, DNSPacket.fromBytes d = .ok p ∧ p.toBytes = .ok d

theorem length_queryCounts (count : Nat) : (queryCounts count).length = 8 := by
  rw [queryCounts, List.length_append, Order.length_toBytes, List.length_replicate]

theorem pack_queryCounts {count : Nat} (h : count < 65536) :
    pack .big [.H, .H, .H, .H] [count, 0, 0, 0] = .ok (queryCounts count) := by
  have hcount : Code.H.norm count < 256 ^ Code.H.size := h
  have hzero : Code.H.norm 0 < 256 ^ Code.H.size := by decide
  rw [pack, packFrom, if_pos hcount, packFrom, if_pos hzero, packFrom, if_pos hzero, packFrom,
    if_pos hzero, packFrom]
  rfl

/-- The decoded query. -/
theorem fromBytes_queryMessage {id : Bytes} {b1 b2 : UInt8} {qs : List ClientQuestion}
    (hid : id.length = 2) (hcount : qs.length < 65536) (h : ∀ q ∈ qs, q.Legal) {f : DNSFlags}
    (hflags : DNSFlags.fromBytes [b1, b2] = .ok f) :
    ∃ names, DNSPacket.fromBytes (queryMessage id [b1, b2] qs) = .ok {
      transactionID := id, flags := f, queriesCount := qs.length, answersCount := 0,
      authorityCount := 0, additionalCount := 0, domainNames := names,
      queriesRecords := qs.map ClientQuestion.record } := by
  have hhead : (id ++ ([b1, b2] ++ queryCounts qs.length)).length = 12 := by
    rw [List.length_append, List.length_append, hid, length_queryCounts]
    rfl
  have hall : Placed (queryMessage id [b1, b2] qs) 0 (queryMessage id [b1, b2] qs) :=
    List.prefix_refl _
  have hplaced : Placed (queryMessage id [b1, b2] qs) 12 (qs.flatMap ClientQuestion.wire) := by
    have := hall.right
    rwa [hhead] at this
  have hcounts : counts (queryMessage id [b1, b2] qs) = (qs.length, 0, 0, 0) := by
    have hfour : Placed (queryMessage id [b1, b2] qs) 4 (queryCounts qs.length) := by
      have := hall.left.right.right
      rwa [hid] at this
    have hunpack := unpackFrom_placed (pack_queryCounts hcount) hfour
    have hlong : 12 ≤ (queryMessage id [b1, b2] qs).length := by
      rw [queryMessage, List.length_append, hhead]
      omega
    rw [unpack_counts, if_pos hlong] at hunpack
    simp only [norms, Code.norm, Except.ok.injEq, List.cons.injEq, and_true] at hunpack
    obtain ⟨hq, ha, hu, hd⟩ := hunpack
    rw [counts, hq, ha, hu, hd]
  obtain ⟨last, names, hread⟩ := readRecords_client h hplaced Dict.empty
  refine ⟨names, (DNSPacket.fromBytes_eq_ok_iff _ _).mpr ⟨?_, ?_, ?_, hcounts.symm, last, names,
    last, names, last, names, last, hread, rfl, rfl, rfl⟩⟩
  · rw [queryMessage, List.length_append, hhead]
    omega
  · rw [queryMessage, List.append_assoc]
    exact (slice_append_zero hid.symm).symm
  · have hslice : slice (queryMessage id [b1, b2] qs) 2 4 = [b1, b2] := by
      rw [queryMessage, List.append_assoc, slice_append_of_le hid.le, hid, List.append_assoc]
      exact slice_append_zero rfl
    rw [hslice, hflags]

/-- What is sent for the decoded query. -/
theorem toBytes_queryMessage {id : Bytes} {b1 b2 : UInt8} {qs : List ClientQuestion}
    (hcount : qs.length < 65536) (h : ∀ q ∈ qs, q.Legal) {f : DNSFlags}
    (hflags : f.toBytes = .ok [b1, b2]) (names : DomainNames) :
    DNSPacket.toBytes {
      transactionID := id, flags := f, queriesCount := qs.length, answersCount := 0,
      authorityCount := 0, additionalCount := 0, domainNames := names,
      queriesRecords := qs.map ClientQuestion.record } =
      .ok (id ++ ([b1, b2] ++ queryCounts qs.length) ++ qs.flatMap ClientQuestion.written) := by
  obtain ⟨names', hwrite⟩ := writeQueries_client h (id ++ ([b1, b2] ++ queryCounts qs.length)) names
  simp only [DNSPacket.toBytes, hflags, pack_queryCounts hcount, except_ok_bind, hwrite]
  rfl

theorem length_flatMap_written (qs : List ClientQuestion) :
    (qs.flatMap ClientQuestion.written).length =
      (qs.flatMap ClientQuestion.wire).length + qs.countP (fun q => q.labels = []) := by
  induction qs with
  | nil => rfl
  | cons q qs ih =>
      rw [List.flatMap_cons, List.flatMap_cons, List.length_append, List.length_append, ih,
        q.length_written, List.countP_cons]
      simp only [decide_eq_true_iff]
      omega

/-- A query comes back as it was exactly if no question is about the root. -/
theorem reencoded_iff {id flags : Bytes} {qs : List ClientQuestion} (hid : id.length = 2)
    (hflags : flags.length = 2) (hcount : qs.length < 65536) (h : ∀ q ∈ qs, q.Legal) :
    ReEncoded (queryMessage id flags qs) ↔ ∀ q ∈ qs, q.labels ≠ [] := by
  obtain ⟨b1, b2, rfl⟩ := List.length_eq_two.mp hflags
  obtain ⟨f, hfrom, hto⟩ := DNSFlags.toBytes_fromBytes b1 b2
  obtain ⟨names, hread⟩ := fromBytes_queryMessage hid hcount h hfrom
  have hwrite := @toBytes_queryMessage id b1 b2 qs hcount h f hto names
  have hsame : ReEncoded (queryMessage id [b1, b2] qs) ↔
      qs.flatMap ClientQuestion.written = qs.flatMap ClientQuestion.wire := by
    unfold ReEncoded
    constructor
    · rintro ⟨p, hp, hbytes⟩
      rw [hread, Except.ok.injEq] at hp
      rw [← hp, hwrite, Except.ok.injEq, queryMessage, List.append_cancel_left_eq] at hbytes
      exact hbytes
    · intro heq
      exact ⟨_, hread, by rw [hwrite, heq, queryMessage]⟩
  rw [hsame]
  constructor
  · intro heq
    have hlen := length_flatMap_written qs
    rw [heq] at hlen
    have hzero : qs.countP (fun q => q.labels = []) = 0 := by omega
    intro q hq
    have := List.countP_eq_zero.mp hzero q hq
    simpa using this
  · intro hroots
    rw [List.flatMap_congr fun q hq => ?_]
    rw [ClientQuestion.written, if_neg (hroots q hq)]

/-- The addresses of two names. -/
def twoQuestions : List ClientQuestion :=
  [⟨["example".toList, "com".toList], 1, 1⟩, ⟨["localhost".toList], 28, 1⟩]

theorem reencoded_iff_twoQuestions : ReEncoded (queryMessage [0, 7] [1, 0] twoQuestions) := by
  have hlegal : ∀ q ∈ twoQuestions, q.Legal := by
    intro q hq
    simp only [twoQuestions, List.mem_cons, List.not_mem_nil, or_false] at hq
    rcases hq with rfl | rfl
    · exact ⟨by decide +kernel, by decide +kernel, by decide, by decide⟩
    · exact ⟨by decide +kernel, by decide +kernel, by decide, by decide⟩
  exact (reencoded_iff rfl rfl (by decide) hlegal).mpr (by decide +kernel)

/-- The question for the name servers of the root. -/
def rootQuestion : ClientQuestion := ⟨[], 2, 1⟩

/-- The question about the root gets a second zero byte. -/
theorem not_reencoded :
    ¬ ∀ (id flags : Bytes) (qs : List ClientQuestion), id.length = 2 → flags.length = 2 →
      qs.length < 65536 → (∀ q ∈ qs, q.Legal) → ReEncoded (queryMessage id flags qs) := by
  intro hall
  have hlegal : ∀ q ∈ [rootQuestion], q.Legal := by
    intro q hq
    rw [List.mem_singleton.mp hq]
    exact ⟨nofun, nofun, by decide, by decide⟩
  obtain ⟨p, hp, hbytes⟩ := hall [0, 7] [1, 0] [rootQuestion] rfl rfl (by decide) hlegal
  have hcheck : (DNSPacket.fromBytes (queryMessage [0, 7] [1, 0] [rootQuestion])).bind
      DNSPacket.toBytes ≠ .ok (queryMessage [0, 7] [1, 0] [rootQuestion]) := by
    decide +kernel
  rw [hp] at hcheck
  exact hcheck hbytes

end Dns
end NetworkingFinal
