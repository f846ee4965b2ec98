/-
  NetworkingFinal.Dns.Handlers

  The handler of a query (src/dns/handlers.py): names with an active record are
  answered from the database, the other questions go to the parent server in one
  query, whose response is cached and passed on.
-/
import NetworkingFinal.Dns.Database

namespace NetworkingFinal
namespace Dns

open Py Py.Prog

/-- What one run of the handler gets from outside. -/
structure Outside where
  /-- the clock when the question at an index is looked up -/
  looks : Nat → Int
  /-- the number `random.randint` draws -/
  random : Nat
  /-- what `parentSocket.recvfrom` returns, `none` for `socket.error` -/
  received : List (Option Bytes)
  /-- the clock when the response is cached -/
  saves : Int

/-- What the lookups of a query give. -/
structure Found where
  locals : List (Option RecordData)
  queriesRecords : List DNSQueryRecord := []
  missing : Int

/-- The loop over the questions, from index `i` on. -/
def findLocals (looks : Nat → Int) : Nat → List DNSQueryRecord → Found → Prog State Found
  | _, [], found => return found
  | i, queryRecord :: records, found => do
      match ← getActiveRecord (looks i) queryRecord.domainName with
      | some recordData =>
          if i < found.locals.length then
            findLocals looks (i + 1) records
              { found with
                locals := found.locals.set i (some recordData), missing := found.missing - 1 }
          else throw .indexError
      | none =>
          findLocals looks (i + 1) records
            { found with queriesRecords := found.queriesRecords ++ [queryRecord] }

/-- `random.randint(1, stop)`, where the draw is given. -/
def randint (draw stop : Nat) : Except Exn Nat :=
  if stop < 1 then .error .valueError
  else if 1 ≤ draw ∧ draw ≤ stop then .ok draw
  else .error .diverges

/-- The loop that waits for the response with the transaction id. -/
def awaitResponse (transactionID : Bytes) : List (Option Bytes) → Except Exn DNSPacket
  | [] => .error .diverges
  | none :: received => awaitResponse transactionID received
  | some data :: received =>
      match DNSPacket.fromBytes data with
      | .ok response =>
          if response.flags.isResponse ∧ response.transactionID = transactionID then .ok response
          else awaitResponse transactionID received
      | .error .osError => awaitResponse transactionID received
      | .error e => .error e

/-- The query for the questions without a record. -/
def nextQuery (query : DNSPacket) (transactionID : Bytes) (queriesRecords : List DNSQueryRecord) :
    DNSPacket where
  transactionID := transactionID
  flags := query.flags
  queriesCount := queriesRecords.length
  answersCount := 0
  authorityCount := 0
  additionalCount := 0
  queriesRecords := queriesRecords

/-- Send a query to the parent server and wait for its response. -/
def askParent (query : DNSPacket) (queriesRecords : List DNSQueryRecord) (o : Outside) :
    Prog State DNSPacket := do
  let transactionIDAsNum := (unpackIntFrom query.transactionID 0 2).1
  let draw ← lift (randint o.random (transactionIDAsNum - 1))
  let transactionID ← lift (packInt draw 2)
  let packet := nextQuery query transactionID queriesRecords
  let data ← lift packet.toBytes
  modify fun s =>
    { s with toParent := s.toParent ++ [⟨packet, data, (s.database.parentDns, 53)⟩] }
  lift (awaitResponse transactionID o.received)

def saveCacheIntoDatabase (now : Int) (response : DNSPacket) : Prog State Unit := do
  each (fun record : DNSAnswerRecord => do
    if record.type = DNSAnswerRecord.typeA then
      let ipAddress ← lift (ipBytesToStr record.rData)
      updateCache fun cache => cache.set record.domainName ⟨⟨ipAddress⟩, now + record.ttl⟩
    else return ())
    (response.additionalRecords ++ response.authorityRecords ++ response.answersRecords)
  saveDatabase

/-- One A / IN record for each question that was answered here. -/
def localAnswers : List (Option RecordData) → Except Exn (List DNSAnswerRecord)
  | [] => .ok []
  | none :: locals => localAnswers locals
  | some recordData :: locals => do
      let rData ← ipStrToBytes recordData.ipAddress
      let answers ← localAnswers locals
      return ⟨recordData.domainName, DNSAnswerRecord.typeA, 1, recordData.ttl, rData⟩ :: answers

/-- A packet with the header of the query and no records. -/
def emptyResponse (query : DNSPacket) : DNSPacket where
  transactionID := query.transactionID
  flags := query.flags
  queriesCount := query.queriesCount
  answersCount := 0
  authorityCount := 0
  additionalCount := 0

/-- The response to the client, made from that of the parent server if it was asked. -/
def createResponse (query : DNSPacket) (response : Option DNSPacket)
    (locals : List (Option RecordData)) : Except Exn DNSPacket := do
  let response := response.getD (emptyResponse query)
  let answers ← localAnswers locals
  let answersRecords := response.answersRecords ++ answers
  return { response with
    transactionID := query.transactionID
    flags := { response.flags with
      isResponse := true, authoritative := false, recavail := true, authenticated := false,
      checkdisable := false }
    queriesCount := query.queriesCount
    queriesRecords := query.queriesRecords
    answersRecords := answersRecords
    answersCount := answersRecords.length }

/-- The questions without a record: ask the parent server, and cache its response. -/
def forward (query : DNSPacket) (found : Found) (o : Outside) : Prog State (Option DNSPacket) :=
  if found.missing > 0 then do
    let response ← askParent query found.queriesRecords o
    saveCacheIntoDatabase o.saves response
    return some response
  else return none

/-- What the lookups of a query start from. -/
def Found.start (query : DNSPacket) : Found :=
  { locals := List.replicate query.queriesCount none, missing := query.queriesCount }

def requestHandler (query : DNSPacket) (clientAddress : Address) (o : Outside) :
    Prog State Unit := do
  let found ← findLocals o.looks 0 query.queriesRecords (.start query)
  let response ← forward query found o
  let response ← lift (createResponse query response found.locals)
  let data ← lift response.toBytes
  modify fun s => { s with sent := s.sent ++ [⟨response, data, clientAddress⟩] }

-- ============================================================================
-- Questions that are all answered here
-- ============================================================================

/-- The active records of questions, looked up from index `i` on, when all have one. -/
def Database.activeRecords (d : Database) (looks : Nat → Int) :
    Nat → List DNSQueryRecord → Option (List RecordData)
  | _, [] => some []
  | i, queryRecord :: records =>
      match d.active (looks i) queryRecord.domainName with
      | some recordData => (d.activeRecords looks (i + 1) records).map (recordData :: ·)
      | none => none

theorem length_activeRecords {d : Database} {looks : Nat → Int} {i : Nat}
    {queries : List DNSQueryRecord} {records : List RecordData}
    (h : d.activeRecords looks i queries = some records) : records.length = queries.length := by
  induction queries generalizing i records with
  | nil =>
      cases h
      rfl
  | cons queryRecord queries ih =>
      rw [Database.activeRecords] at h
      split at h
      · obtain ⟨rest, hrest, rfl⟩ := Option.map_eq_some_iff.mp h
        rw [List.length_cons, List.length_cons, ih hrest]
      · cases h

/-- Each active record is under the name of its question. -/
theorem domainName_activeRecords {d : Database} {looks : Nat → Int} {i : Nat}
    {queries : List DNSQueryRecord} {records : List RecordData}
    (h : d.activeRecords looks i queries = some records) :
    records.map RecordData.domainName = queries.map DNSQueryRecord.domainName := by
  induction queries generalizing i records with
  | nil =>
      cases h
      rfl
  | cons queryRecord queries ih =>
      rw [Database.activeRecords] at h
      split at h
      · next recordData hactive =>
          obtain ⟨rest, hrest, rfl⟩ := Option.map_eq_some_iff.mp h
          rw [List.map_cons, List.map_cons, ih hrest, domainName_of_active hactive]
      · cases h

/-- The loop over questions that all have an active record leaves nothing missing. -/
theorem findLocals_of_activeRecords {looks : Nat → Int} {s : State}
    {queries : List DNSQueryRecord} {records done : List RecordData}
    {queriesRecords : List DNSQueryRecord}
    (h : s.database.activeRecords looks done.length queries = some records) :
    findLocals looks done.length queries
        { locals := done.map some ++ List.replicate queries.length none, queriesRecords,
          missing := queries.length } s =
      .ok { locals := (done ++ records).map some, queriesRecords, missing := 0 } s := by
  induction queries generalizing done records with
  | nil =>
      cases h
      simp [findLocals]
  | cons queryRecord queries ih =>
      rw [Database.activeRecords] at h
      split at h
      · next recordData hactive =>
          obtain ⟨rest, hrest, rfl⟩ := Option.map_eq_some_iff.mp h
          have hdone : (done ++ [recordData]).length = done.length + 1 := by simp
          rw [findLocals, bind_of_ok (getActiveRecord_of_active hactive)]
          dsimp only
          rw [if_pos (by simp)]
          rw [← hdone] at hrest
          have hnext := ih hrest
          rw [hdone, List.append_assoc] at hnext
          rw [List.set_append_right _ _ (by simp), List.length_map, Nat.sub_self,
            List.length_cons, List.replicate_succ, List.set_cons_zero]
          have hlocals : (done ++ [recordData]).map some ++ List.replicate queries.length none =
              done.map some ++ some recordData :: List.replicate queries.length none := by
            simp
          have hmissing : ((queries.length + 1 : Nat) : Int) - 1 = queries.length := by omega
          rw [hlocals] at hnext
          rw [hmissing, hnext]
          rfl
      · cases h

end Dns
end NetworkingFinal
