/-
  NetworkingFinal.Dns.Packets

  The DNS packets (src/dns/packets.py).  A packet remembers where each name it has
  seen stands (`domainNames`): the decoder turns the pointer of an answer into the
  name that stands there, and the encoder turns the name of an answer into a pointer.

  Both keep one byte of the offset, and a pointer is always taken to be the whole
  owner name of an answer.
-/
import NetworkingFinal.Dns.Converters
import NetworkingFinal.Py.Dict

namespace NetworkingFinal
namespace Dns

open Py Py.Struct

/-- `DNSPacketBase.domainNames`: the offset of each name. -/
abbrev DomainNames := Dict Str Nat

/-- `dict(zip(domainNames.values(), domainNames.keys()))` -/
def reversedDomainNames (names : DomainNames) : Dict Nat Str :=
  names.entries.foldl (fun d entry => d.set entry.2 entry.1) Dict.empty

-- ============================================================================
-- Questions
-- ============================================================================

structure DNSQueryRecord where
  domainName : Str
  type : Nat
  clase : Nat
  deriving DecidableEq, Repr

namespace DNSQueryRecord

/-- The record at the offset, the offset after it and the names seen so far. -/
def fromBytes (data : Bytes) (offset : Nat) (names : DomainNames) :
    Except Exn (DNSQueryRecord × Nat × DomainNames) := do
  let domainNameOffset := offset
  let (domainName, offset) ← unpackHostName data offset
  let names := names.set domainName domainNameOffset
  let (recordType, offset) := unpackIntFrom data offset 2
  let (recordClass, offset) := unpackIntFrom data offset 2
  return (⟨domainName, recordType, recordClass⟩, offset, names)

/-- The loop over the labels: a label is written after its length in characters. -/
def labelsToBytes : List Str → Except Exn Bytes
  | [] => .ok []
  | label :: labels => do
      let length ← packInt label.length 1
      let rest ← labelsToBytes labels
      return length ++ (encode label ++ rest)

def toBytes (r : DNSQueryRecord) : Except Exn Bytes := do
  let labels ← labelsToBytes (r.domainName.splitOn '.')
  let type ← packInt r.type 2
  let clase ← packInt r.clase 2
  return labels ++ (0 :: (type ++ clase))

end DNSQueryRecord

-- ============================================================================
-- Answers
-- ============================================================================

structure DNSAnswerRecord where
  domainName : Str
  type : Nat
  clase : Nat
  ttl : Int
  rData : Bytes
  deriving DecidableEq, Repr

namespace DNSAnswerRecord

/-- The type of an address record. -/
def typeA : Nat := 1

/-- The type of an alias. -/
def typeCNAME : Nat := 5

/-- The names after the decoder read an answer whose data starts at `nameOffset`. -/
def namesRead (names : DomainNames) (type : Nat) (rData : Bytes) (nameOffset : Nat) :
    Except Exn DomainNames :=
  if type = typeCNAME then do
    let (cName, _) ← unpackHostName (rData.take (rData.length - 2)) 0
    return names.set cName nameOffset
  else .ok names

/-- The record at the offset, the offset after it and the names seen so far. -/
def fromBytes (data : Bytes) (offset : Nat) (names : DomainNames) :
    Except Exn (DNSAnswerRecord × Nat × DomainNames) := do
  let offset := offset + 1
  match data[offset]? with
  | none => throw .indexError
  | some domainNameOffset =>
      match (reversedDomainNames names).get? domainNameOffset.toNat with
      | none => throw .keyError
      | some domainName =>
          let offset := offset + 1
          let (recordType, offset) := unpackIntFrom data offset 2
          let (recordClass, offset) := unpackIntFrom data offset 2
          let (ttl, offset) := unpackIntFrom data offset 4
          let (rDataLength, offset) := unpackIntFrom data offset 2
          let nameOffset := offset
          let rData := slice data offset (offset + rDataLength)
          let offset := offset + rDataLength
          let names ← namesRead names recordType rData nameOffset
          return (⟨domainName, recordType, recordClass, ttl, rData⟩, offset, names)

/-- The names after the encoder wrote an answer at the offset. -/
def namesWritten (names : DomainNames) (r : DNSAnswerRecord) (offset : Nat) :
    Except Exn DomainNames :=
  if r.type = typeCNAME then do
    let (name, _) ← unpackHostName r.rData 0
    return names.set name (offset + 10)
  else .ok names

/-- `to_bytes`: the bytes of the record and the names after it. -/
def toBytes (r : DNSAnswerRecord) (offset : Nat) (names : DomainNames) :
    Except Exn (Bytes × DomainNames) :=
  match names.get? r.domainName with
  | none => throw .keyError
  | some domainNameOffset => do
      let pointer ← bytesOf [domainNameOffset]
      let type ← packInt r.type 2
      let clase ← packInt r.clase 2
      let ttl ← packInt r.ttl 4
      let rDataLength ← packInt r.rData.length 2
      let names ← namesWritten names r offset
      return (0xc0 :: (pointer ++ (type ++ (clase ++ (ttl ++ (rDataLength ++ r.rData))))), names)

end DNSAnswerRecord

-- ============================================================================
-- Flags
-- ============================================================================

structure DNSFlags where
  isResponse : Bool
  opcode : Nat
  authoritative : Bool
  truncated : Bool
  recdesired : Bool
  recavail : Bool
  z : Bool
  authenticated : Bool
  checkdisable : Bool
  rcode : Nat
  deriving DecidableEq, Repr

namespace DNSFlags

def fromBytes : Bytes → Except Exn DNSFlags
  | first :: second :: _ =>
      let b1 := first.toNat
      let b2 := second.toNat
      let rcode := b2 % 16
      let checkdisable := decide (b2 &&& 2 ^ 4 > 0)
      let authenticated := decide (b2 &&& 2 ^ 5 > 0)
      let z := decide (b2 &&& 2 ^ 6 > 0)
      let recavail := decide (b2 &&& 2 ^ 7 > 0)
      let recdesired := decide (b1 &&& 2 ^ 0 > 0)
      let truncated := decide (b1 &&& 2 ^ 1 > 0)
      let authoritative := decide (b1 &&& 2 ^ 2 > 0)
      let b1 := b1 / 8
      let opcode := b1 % 16
      let b1 := b1 / 16
      let isResponse := decide (b1 &&& 2 ^ 0 > 0)
      .ok { isResponse, opcode, authoritative, truncated, recdesired, recavail, z, authenticated,
            checkdisable, rcode }
  | _ => .error .indexError

def toBytes (f : DNSFlags) : Except Exn Bytes :=
  let b2 := f.rcode + f.checkdisable.toNat * 2 ^ 4
  let b2 := b2 + (f.authenticated.toNat * 2 ^ 5 + f.z.toNat * 2 ^ 6 + f.recavail.toNat * 2 ^ 7)
  let b1 := f.recdesired.toNat * 2 ^ 0 + f.truncated.toNat * 2 ^ 1 + f.authoritative.toNat * 2 ^ 2
  let b1 := b1 + (f.opcode * 2 ^ 3 + f.isResponse.toNat * 2 ^ 7)
  bytesOf [b1, b2]

end DNSFlags

-- ============================================================================
-- Packets
-- ============================================================================

structure DNSPacket where
  transactionID : Bytes
  flags : DNSFlags
  queriesCount : Nat
  answersCount : Nat
  authorityCount : Nat
  additionalCount : Nat
  domainNames : DomainNames := Dict.empty
  queriesRecords : List DNSQueryRecord := []
  answersRecords : List DNSAnswerRecord := []
  authorityRecords : List DNSAnswerRecord := []
  additionalRecords : List DNSAnswerRecord := []
  deriving DecidableEq

/-- `while count > 0`: read a record and go on after it. -/
def readRecords {α : Type}
    (read : Nat → DomainNames → Except Exn (α × Nat × DomainNames)) :
    Nat → Nat → DomainNames → Except Exn (List α × Nat × DomainNames)
  | 0, offset, names => .ok ([], offset, names)
  | count + 1, offset, names => do
      let (record, offset, names) ← read offset names
      let (records, offset, names) ← readRecords read count offset names
      return (record :: records, offset, names)

/-- The loop over the questions. -/
def writeQueries : List DNSQueryRecord → Bytes → DomainNames → Except Exn (Bytes × DomainNames)
  | [], data, names => .ok (data, names)
  | record :: records, data, names => do
      let bytes ← record.toBytes
      writeQueries records (data ++ bytes) (names.set record.domainName data.length)

/-- The loop over the answers. -/
def writeAnswers : List DNSAnswerRecord → Bytes → DomainNames → Except Exn (Bytes × DomainNames)
  | [], data, names => .ok (data, names)
  | record :: records, data, names => do
      let (bytes, names) ← record.toBytes data.length names
      writeAnswers records (data ++ bytes) names

namespace DNSPacket

def fromBytes (data : Bytes) : Except Exn DNSPacket := do
  let transactionID := slice data 0 2
  let flags := slice data 2 4
  match ← unpackFrom .big [.H, .H, .H, .H] data 4 with
  | [queriesCount, answersCount, authorityCount, additionalCount] =>
      let flags ← DNSFlags.fromBytes flags
      let (queriesRecords, offset, names) ←
        readRecords (DNSQueryRecord.fromBytes data) queriesCount 12 Dict.empty
      let (answersRecords, offset, names) ←
        readRecords (DNSAnswerRecord.fromBytes data) answersCount offset names
      let (authorityRecords, offset, names) ←
        readRecords (DNSAnswerRecord.fromBytes data) authorityCount offset names
      let (additionalRecords, _, domainNames) ←
        readRecords (DNSAnswerRecord.fromBytes data) additionalCount offset names
      return {
        transactionID, flags, queriesCount, answersCount, authorityCount, additionalCount,
        domainNames, queriesRecords, answersRecords, authorityRecords, additionalRecords }
  | _ => throw .structError

/-- `__bytes__` -/
def toBytes (p : DNSPacket) : Except Exn Bytes := do
  let flags ← p.flags.toBytes
  let counts ← pack .big [.H, .H, .H, .H]
    [p.queriesCount, p.answersCount, p.authorityCount, p.additionalCount]
  let (data, names) ←
    writeQueries p.queriesRecords (p.transactionID ++ (flags ++ counts)) p.domainNames
  let (data, _) ←
    writeAnswers (p.answersRecords ++ p.authorityRecords ++ p.additionalRecords) data names
  return data

end DNSPacket

end Dns
end NetworkingFinal
