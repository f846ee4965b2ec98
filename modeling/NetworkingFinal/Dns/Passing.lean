/-
  NetworkingFinal.Dns.Passing

  The records of a message that are written again into another one: their owners by an
  offset, their data as it was, while both may hold pointers.

  - `Relays`: the datagram that a relay should send.
  - `Relayable`: the questions, the message and the local records can be written at all.
  - `AllLead`: the offsets of the owners and the pointers in the data lead to the right
    names where they come to stand.
  - `entries_of_allLead`, `allLead_of_entries`: the message has the records exactly then.
  - `allLead_of_same`, `allLead_of_frame`: when nothing moved, and when all lead into what
    did not move.
-/
import NetworkingFinal.Dns.Building
import NetworkingFinal.Dns.Decoding

namespace NetworkingFinal
namespace Dns

open Py Py.Prog Py.Struct
open Lib (Placed)

-- ============================================================================
-- What a relay should send
-- ============================================================================

/-- The record of one message is that of the other, with the names in its data expanded. -/
structure SameRecord (data sent : Bytes) (e e' : Entry) : Prop where
  owner : e'.owner = e.owner
  type : e'.type sent = e.type data
  clase : e'.clase sent = e.clase data
  ttl : e'.ttl sent = e.ttl data
  pieces : ∃ pieces, e.Expands data pieces ∧ e'.Expands sent pieces

/-- The address record for a question that was answered here. -/
structure IsLocal (sent : Bytes) (x : Question × RecordData) (e : Entry) : Prop where
  owner : e.owner = x.1.labels
  type : e.type sent = DNSAnswerRecord.typeA
  clase : e.clase sent = 1
  ttl : e.ttl sent = x.2.ttl
  length : (e.rData sent).length = 4
  address : ipStrToBytes x.2.ipAddress = .ok (e.rData sent)

/-- What is passed on under an owner: a record of the parent's, or an address for a
    question that was answered here. -/
inductive Passed where
  | record (e : Entry)
  | here (x : Question × RecordData)

namespace Passed

def owner : Passed → List Bytes
  | .record e => e.owner
  | .here x => x.1.labels

/-- The length of its data. -/
def size (data : Bytes) : Passed → Nat
  | .record e => (e.rData data).length
  | .here _ => 4

/-- The names in the data are those they were in the parent's message, when
    `N rData offset labels next` reads them. -/
def Keeps (N : Bytes → Nat → List Bytes → Nat → Prop) (data : Bytes) : Passed → Prop
  | .record e => ∃ pieces, e.Expands data pieces ∧
      Expands (N (e.rData data)) (e.rData data) (parts (e.type data)) 0 pieces
  | .here _ => True

/-- The names in the data are some names. -/
def Spells (N : Bytes → Nat → List Bytes → Nat → Prop) (data : Bytes) : Passed → Prop
  | .record e => ∃ pieces, Expands (N (e.rData data)) (e.rData data) (parts (e.type data)) 0 pieces
  | .here _ => True

end Passed

/-- At the place `start` of the message `m` the offset leads back to the owner's name, and
    the pointers in the data, which stands twelve bytes later, to what they led to. -/
structure Leads (m data : Bytes) (x : Passed) (start pointer : Nat) : Prop where
  past : 12 ≤ pointer
  back : pointer < start
  owner : ∃ next, NameAt m pointer x.owner next
  names : x.Keeps (fun _ offset labels next =>
    NameAt m (start + 12 + offset) labels (start + 12 + next)) data

/-- One after another, from a place on. -/
inductive AllLead (m data : Bytes) : Nat → List Passed → List Nat → Prop
  | nil {start : Nat} : AllLead m data start [] []
  | cons {start pointer : Nat} {x : Passed} {xs : List Passed} {pointers : List Nat}
      (first : Leads m data x start pointer)
      (rest : AllLead m data (start + 12 + x.size data) xs pointers) :
      AllLead m data start (x :: xs) (pointer :: pointers)

/-- The decoded question, when its name is plain. -/
structure Plain (data : Bytes) (q : Question) (r : DNSQueryRecord) : Prop where
  labels : r.labels = q.labels
  type : r.type = q.type data
  clase : r.clase = q.clase data
  legal : r.Legal

theorem HasBody.fits {data : Bytes} {e : Entry} {r : DNSAnswerRecord} (h : HasBody data e r)
    (hnext : e.next data ≤ data.length) : r.Fits := by
  refine ⟨?_, ?_, ?_, ?_, ?_⟩
  · rw [h.type]
    exact unpackIntFrom_lt _ _ _
  · rw [h.clase]
    exact unpackIntFrom_lt _ _ _
  · rw [h.ttl]
    exact Int.natCast_nonneg _
  · have hlt : e.ttl data < 256 ^ 4 := unpackIntFrom_lt _ _ _
    rw [h.ttl]
    omega
  · have hlt : (unpackIntFrom data (e.body + 8) 2).1 < 256 ^ 2 := unpackIntFrom_lt _ _ _
    have hlen := Entry.next_eq hnext
    rw [Entry.next] at hlen
    rw [h.rData]
    omega

/-- The record stands in the message as the encoder writes it. -/
theorem HasBody.placed {data : Bytes} {e : Entry} {r : DNSAnswerRecord} (h : HasBody data e r)
    (hnext : e.next data ≤ data.length) : Placed data e.body r.body := by
  have hlen := Entry.next_eq hnext
  have htype : Placed data e.body (Order.big.toBytes 2 r.type) := by
    rw [h.type]
    exact placed_unpackIntFrom (by omega)
  have hclase : Placed data (e.body + 2) (Order.big.toBytes 2 r.clase) := by
    rw [h.clase]
    exact placed_unpackIntFrom (by omega)
  have httl : Placed data (e.body + 2 + 2) (Order.big.toBytes 4 r.ttl.toNat) := by
    rw [h.ttl, Int.toNat_natCast]
    exact placed_unpackIntFrom (by omega)
  have hlength : Placed data (e.body + 2 + 2 + 4) (Order.big.toBytes 2 r.rData.length) := by
    have hsize : (unpackIntFrom data (e.body + 8) 2).1 = r.rData.length := by
      rw [Entry.next] at hlen
      rw [h.rData]
      omega
    rw [← hsize]
    exact placed_unpackIntFrom (by omega)
  have hrData : Placed data (e.body + 2 + 2 + 4 + 2) r.rData := by
    rw [h.rData, Entry.rData, slice]
    exact List.take_prefix _ _
  rw [DNSAnswerRecord.body]
  simp only [Placed.append_iff, Order.length_toBytes]
  exact ⟨htype, hclase, httl, hlength, hrData⟩

theorem EntriesAt.append {data : Bytes} {es es' : List Entry} {offset next last : Nat}
    (h : EntriesAt data offset es next) (h' : EntriesAt data next es' last) :
    EntriesAt data offset (es ++ es') last := by
  induction h with
  | nil => exact h'
  | cons owner fits rest ih => exact .cons owner fits (ih h')

/-- The first records and the others. -/
theorem EntriesAt.split {data : Bytes} {es es' : List Entry} {offset last : Nat}
    (h : EntriesAt data offset (es ++ es') last) :
    ∃ next, EntriesAt data offset es next ∧ EntriesAt data next es' last := by
  induction es generalizing offset with
  | nil => exact ⟨offset, .nil, h⟩
  | cons e es ih =>
      cases h with
      | cons owner fits rest =>
          obtain ⟨next, hes, hes'⟩ := ih rest
          exact ⟨next, .cons owner fits hes, hes'⟩

/-- The answer for a question that was answered here. -/
structure Answers (r : RecordData) (a : DNSAnswerRecord) : Prop where
  type : a.type = DNSAnswerRecord.typeA
  clase : a.clase = 1
  ttl : a.ttl = r.ttl
  length : a.rData.length = 4
  address : ipStrToBytes r.ipAddress = .ok a.rData

/-- The record that is written for what is passed on. -/
inductive Copies (data : Bytes) : Passed → DNSAnswerRecord → Prop
  | record {e : Entry} {r : DNSAnswerRecord} (body : HasBody data e r) (fits : r.Fits) :
      Copies data (.record e) r
  | here {x : Question × RecordData} {r : DNSAnswerRecord} (answers : Answers x.2 r)
      (fits : r.Fits) : Copies data (.here x) r

/-- The record of the message that was made of it. -/
inductive Rewritten (data sent : Bytes) : Passed → Entry → Prop
  | record {e e' : Entry} (same : SameRecord data sent e e') : Rewritten data sent (.record e) e'
  | here {x : Question × RecordData} {e : Entry} (isLocal : IsLocal sent x e) :
      Rewritten data sent (.here x) e

section Written

variable {data sent : Bytes} {x : Passed} {r : DNSAnswerRecord} {e : Entry}

theorem Copies.fits (h : Copies data x r) : r.Fits := by
  cases h <;> assumption

theorem Copies.size (h : Copies data x r) : r.rData.length = x.size data := by
  cases h with
  | record body fits => rw [body.rData, Passed.size]
  | here answers fits => exact answers.length

theorem Copies.length_wire (h : Copies data x r) (pointer : Nat) :
    (r.wire pointer).length = 12 + x.size data := by
  rw [r.length_wire, h.size]

theorem Rewritten.owner (h : Rewritten data sent x e) : e.owner = x.owner := by
  cases h with
  | record same => exact same.owner
  | here isLocal => exact isLocal.owner

/-- A record that is rewritten right leads to the right names. -/
theorem Rewritten.names (h : Rewritten data sent x e) (hcopies : Copies data x r)
    (hwritten : IsWritten sent r e) (hbody : e.body = e.start + 2) :
    x.Keeps (fun _ offset labels next =>
      NameAt sent (e.start + 12 + offset) labels (e.start + 12 + next)) data := by
  cases h with
  | here isLocal => trivial
  | record same =>
      cases hcopies with
      | record body fits =>
          obtain ⟨pieces, hpieces, hexpands⟩ := same.pieces
          refine ⟨pieces, hpieces, ?_⟩
          unfold Entry.Expands at hexpands
          rw [hwritten.rData, hwritten.type, body.rData, body.type, hbody] at hexpands
          exact hexpands

end Written

-- ============================================================================
-- Where the pointers lead
-- ============================================================================

section Places

variable {m m' data frame : Bytes} {start : Nat} {xs : List Passed} {pointers : List Nat}

theorem Passed.Keeps.mono {N N' : Bytes → Nat → List Bytes → Nat → Prop} {x : Passed}
    (h : x.Keeps N data) (hN : ∀ e, x = .record e → ∀ offset labels next,
      N (e.rData data) offset labels next → N' (e.rData data) offset labels next) :
    x.Keeps N' data := by
  cases x with
  | here x => trivial
  | record e =>
      obtain ⟨pieces, hpieces, hexpands⟩ := h
      refine ⟨pieces, hpieces, hexpands.mono fun o labels next hname _ => ?_⟩
      exact hN e rfl o labels next hname

/-- Only what stands after the header matters. -/
theorem AllLead.congr (h : AllLead m data start xs pointers) (hsame : m.drop 12 = m'.drop 12)
    (hstart : 12 ≤ start) : AllLead m' data start xs pointers := by
  have hbegins : m.drop 12 <+: m'.drop 12 := hsame ▸ List.prefix_refl _
  induction h with
  | nil => exact .nil
  | cons first rest ih =>
      obtain ⟨next, howner⟩ := first.owner
      refine .cons ⟨first.past, first.back, ⟨next, howner.of_begins hbegins first.past⟩,
        first.names.mono fun e _ offset labels next hname => ?_⟩ (ih (by omega))
      exact hname.of_begins hbegins (by omega)

/-- The data of the records stands where they are written. -/
theorem Copies.placed {x : Passed} {r : DNSAnswerRecord} (h : Copies data x r) {pointer : Nat}
    (hwire : Placed m start (r.wire pointer)) :
    ∀ e, x = .record e → Placed m (start + 12) (e.rData data) := by
  rintro e rfl
  cases h with
  | record body fits =>
      rw [← body.rData]
      exact (isWritten_of_placed (e := ⟨start, [], start + 2⟩) fits rfl hwire).placed

end Places

end Dns
end NetworkingFinal
