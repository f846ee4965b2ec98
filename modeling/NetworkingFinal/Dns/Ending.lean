/-
  NetworkingFinal.Dns.Ending

  When a query that is passed on is answered.  The handler waits for the parent's
  response without an end: a timeout of the socket makes it wait again.

  - `Arrives`: the receive at which the response comes.
  - `Ended`: a run that answers the client once.
  - `query_ends_iff`: the queries that are answered.
-/
import NetworkingFinal.Dns.Relay

namespace NetworkingFinal
namespace Dns

open Py Py.Prog Py.Struct

-- ============================================================================
-- Waiting for the response
-- ============================================================================

/-- The response is the one to the query with the transaction id. -/
def DNSPacket.Matches (transactionID : Bytes) (response : DNSPacket) : Prop :=
  response.flags.isResponse = true ∧ response.transactionID = transactionID

/-- A receive after which the handler waits on: a timeout, or another message. -/
def PassedOver (transactionID : Bytes) (outcome : Option Bytes) : Prop :=
  ∀ data, outcome = some data →
    ∃ other, DNSPacket.fromBytes data = .ok other ∧ ¬ other.Matches transactionID

/-- The response comes at the receive `k`, after others that are passed over. -/
structure Arrives (transactionID : Bytes) (outcomes : Nat → Option Bytes) (k : Nat)
    (response : DNSPacket) : Prop where
  received : ∃ data, outcomes k = some data ∧ DNSPacket.fromBytes data = .ok response
  own : response.Matches transactionID
  before : ∀ j < k, PassedOver transactionID (outcomes j)

theorem passedOver_some_iff (transactionID : Bytes) {data : Bytes} {other : DNSPacket}
    (h : DNSPacket.fromBytes data = .ok other) :
    PassedOver transactionID (some data) ↔ ¬ other.Matches transactionID := by
  simp [PassedOver, h]

/-- The first receive is passed over, or it gives the response. -/
theorem awaitResponse_cons_iff {transactionID : Bytes} {outcome : Option Bytes}
    {received : List (Option Bytes)} {response : DNSPacket} :
    awaitResponse transactionID (outcome :: received) = .ok response ↔
      PassedOver transactionID outcome ∧ awaitResponse transactionID received = .ok response ∨
      (∃ data, outcome = some data ∧ DNSPacket.fromBytes data = .ok response) ∧
        response.Matches transactionID := by
  cases outcome with
  | none => simp [awaitResponse, PassedOver]
  | some data =>
      rw [awaitResponse]
      cases hdecode : DNSPacket.fromBytes data with
      | error e =>
          have hne : e ≠ .osError := DNSPacket.fails_fromBytes (P := fun e => e ≠ .osError)
            nofun nofun nofun nofun data e hdecode
          cases e <;> simp_all [PassedOver]
      | ok other =>
          have hpassed := passedOver_some_iff transactionID hdecode
          have hgot : (∃ data', some data = some data' ∧
              DNSPacket.fromBytes data' = .ok response) ↔ other = response := by
            simp [hdecode]
          rw [hpassed, hgot]
          dsimp only
          by_cases hown : other.Matches transactionID
          · rw [if_pos (show _ ∧ _ from hown), Except.ok.injEq]
            constructor
            · rintro rfl
              exact Or.inr ⟨rfl, hown⟩
            · rintro (⟨hnot, -⟩ | ⟨heq, -⟩)
              · exact absurd hown hnot
              · exact heq
          · rw [if_neg (show ¬ (_ ∧ _) from hown)]
            constructor
            · exact fun h => Or.inl ⟨hown, h⟩
            · rintro (⟨-, h⟩ | ⟨rfl, hmatches⟩)
              · exact h
              · exact absurd hmatches hown

theorem awaitResponse_ok_iff {transactionID : Bytes} {outcomes : Nat → Option Bytes} {n : Nat}
    {response : DNSPacket} :
    awaitResponse transactionID ((List.range n).map outcomes) = .ok response ↔
      ∃ k < n, Arrives transactionID outcomes k response := by
  induction n generalizing outcomes with
  | zero => simp [awaitResponse]
  | succ n ih =>
      rw [List.range_succ_eq_map, List.map_cons, List.map_map, awaitResponse_cons_iff,
        show outcomes ∘ Nat.succ = fun i => outcomes (i + 1) from rfl, ih]
      constructor
      · rintro (⟨hfirst, k, hk, harrives⟩ | ⟨hreceived, hown⟩)
        · refine ⟨k + 1, Nat.succ_lt_succ hk, harrives.received, harrives.own, fun j hj => ?_⟩
          cases j with
          | zero => exact hfirst
          | succ j => exact harrives.before j (Nat.lt_of_succ_lt_succ hj)
        · exact ⟨0, Nat.succ_pos n, hreceived, hown, fun j hj => absurd hj (Nat.not_lt_zero j)⟩
      · rintro ⟨k, hk, harrives⟩
        cases k with
        | zero => exact Or.inr ⟨harrives.received, harrives.own⟩
        | succ k =>
            exact Or.inl ⟨harrives.before 0 (Nat.succ_pos k), k, Nat.lt_of_succ_lt_succ hk,
              harrives.received, harrives.own,
              fun j hj => harrives.before (j + 1) (Nat.succ_lt_succ hj)⟩

-- ============================================================================
-- Asking the parent
-- ============================================================================

/-- The handler with the first `n` outcomes of the parent's socket. -/
def Outside.receiving (o : Outside) (outcomes : Nat → Option Bytes) (n : Nat) : Outside :=
  { o with received := (List.range n).map outcomes }

/-- The transaction id of the query, as a number. -/
def DNSPacket.transactionIDAsNum (p : DNSPacket) : Nat := (unpackIntFrom p.transactionID 0 2).1

/-- The transaction id of the query to the parent. -/
def Outside.forwardedID (o : Outside) : Bytes := Order.big.toBytes 2 o.random

/-- `random.randint` draws from a range that is not empty. -/
def Outside.Draws (o : Outside) (query : DNSPacket) : Prop :=
  2 ≤ query.transactionIDAsNum → 1 ≤ o.random ∧ o.random ≤ query.transactionIDAsNum - 1

/-- `bytes(packet)` raises nothing. -/
def DNSPacket.Writable (p : DNSPacket) : Prop := ∃ data, p.toBytes = .ok data

variable {query : DNSPacket} {clientAddress : Address} {o : Outside}
  {outcomes : Nat → Option Bytes} {n : Nat} {response : DNSPacket} {s s' t : State}

theorem transactionIDAsNum_lt (query : DNSPacket) : query.transactionIDAsNum < 65536 := by
  have hlt := Order.ofBytes_lt .big (slice query.transactionID 0 (0 + 2))
  have hlen : (slice query.transactionID 0 (0 + 2)).length ≤ 2 := by
    rw [length_slice]
    omega
  have hpow : 256 ^ (slice query.transactionID 0 (0 + 2)).length ≤ 256 ^ 2 :=
    Nat.pow_le_pow_right (by decide) hlen
  exact Nat.lt_of_lt_of_le hlt hpow

/-- The draw for an id above 1 is packed into two bytes. -/
theorem forwardedID_of_draw (hdraws : o.Draws query) (hid : 2 ≤ query.transactionIDAsNum) :
    randint o.random (query.transactionIDAsNum - 1) = .ok o.random ∧
      packInt (o.random : Int) 2 = .ok o.forwardedID := by
  have hlt := transactionIDAsNum_lt query
  obtain ⟨hpos, hle⟩ := hdraws hid
  constructor
  · rw [randint, if_neg (by omega), if_pos ⟨hpos, hle⟩]
  · rw [packInt, if_pos (by omega), Int.toNat_natCast, Outside.forwardedID]

/-- The datagram to the parent server. -/
def State.question (s : State) (packet : DNSPacket) (data : Bytes) : Datagram :=
  ⟨packet, data, (s.database.parentDns, 53)⟩

theorem length_of_ipBytesToStr {data : Bytes} {address : Str}
    (h : ipBytesToStr data = .ok address) : 4 ≤ data.length := by
  match data, h with
  | a :: b :: c :: d :: rest, _ => simp

/-- The query is sent when the range of the draw is not empty and the query can be
    written, and the parent has answered when the response is among the receives. -/
theorem askParent_receiving_iff (hdraws : o.Draws query) {queriesRecords : List DNSQueryRecord} :
    askParent query queriesRecords (o.receiving outcomes n) s = .ok response t ↔
      2 ≤ query.transactionIDAsNum ∧ (∃ k < n, Arrives o.forwardedID outcomes k response) ∧
        ∃ data, (nextQuery query o.forwardedID queriesRecords).toBytes = .ok data ∧
          t = s.asking (s.question (nextQuery query o.forwardedID queriesRecords) data) := by
  show (lift (randint o.random (query.transactionIDAsNum - 1)) >>= fun draw => _ : Prog State _) s
    = _ ↔ _
  by_cases hid : 2 ≤ query.transactionIDAsNum
  · obtain ⟨hdraw, hpacked⟩ := forwardedID_of_draw hdraws hid
    rw [lift_ok_bind hdraw, lift_ok_bind hpacked, and_iff_right hid, ← awaitResponse_ok_iff]
    constructor
    · intro h
      obtain ⟨data, s₁, hdata, h⟩ := bind_ok_iff.mp h
      obtain ⟨_, s₂, hsend, hawait⟩ := bind_ok_iff.mp h
      obtain ⟨hencoded, rfl⟩ := lift_ok hdata
      obtain ⟨hreceived, rfl⟩ := lift_ok hawait
      cases hsend
      exact ⟨hreceived, data, hencoded, rfl⟩
    · rintro ⟨hreceived, data, hdata, rfl⟩
      rw [lift_ok_bind hdata]
      show lift (awaitResponse o.forwardedID ((List.range n).map outcomes)) _ = _
      rw [hreceived]
      rfl
  · have hdraw : randint o.random (query.transactionIDAsNum - 1) = .error .valueError := by
      rw [randint, if_pos (by omega)]
    rw [hdraw]
    constructor
    · intro h
      obtain ⟨_, _, hlift, -⟩ := bind_ok_iff.mp h
      exact absurd (lift_ok hlift).1 nofun
    · exact fun h => absurd h.1 hid

-- ============================================================================
-- Caching
-- ============================================================================

theorem length_of_saveRecords {now : Int} {records : List DNSAnswerRecord}
    (h : each (saveRecord now) records s = .ok () t) :
    ∀ r ∈ records, r.type = DNSAnswerRecord.typeA → 4 ≤ r.rData.length := by
  induction records generalizing s with
  | nil => exact fun r hr => by cases hr
  | cons r records ih =>
      obtain ⟨_, u, hfirst, hrest⟩ := bind_ok_iff.mp h
      refine List.forall_mem_cons.mpr ⟨fun htype => ?_, ih hrest⟩
      rw [saveRecord, if_pos htype] at hfirst
      obtain ⟨address, _, haddress, -⟩ := bind_ok_iff.mp hfirst
      exact length_of_ipBytesToStr (lift_ok haddress).1

/-- A response is cached when its addresses have their four bytes. -/
theorem saveCache_ok_iff {now : Int} :
    (∃ t, saveCacheIntoDatabase now response s = .ok () t) ↔
      ∀ r ∈ response.cachedRecords, r.type = DNSAnswerRecord.typeA → 4 ≤ r.rData.length := by
  constructor
  · rintro ⟨t, ht⟩
    rw [saveCacheIntoDatabase_eq] at ht
    obtain ⟨_, u, hrecords, -⟩ := bind_ok_iff.mp ht
    exact length_of_saveRecords hrecords
  · exact fun h => saveCache_ok h now s

-- ============================================================================
-- A run of the handler
-- ============================================================================

theorem createResponse_ok_iff {locals : List (Option RecordData)} {packet : DNSPacket} :
    createResponse query (some response) locals = .ok packet ↔
      ∃ own, localAnswers locals = .ok own ∧ packet = relayed query response own := by
  constructor
  · intro h
    obtain ⟨own, hown, -⟩ := except_bind_ok_iff.mp h
    rw [createResponse_of_localAnswers query response hown] at h
    exact ⟨own, hown, (Except.ok.inj h).symm⟩
  · rintro ⟨own, hown, rfl⟩
    exact createResponse_of_localAnswers query response hown

/-- The two datagrams of a run that answers the client, and the state after it. -/
structure PassedOn (query : DNSPacket) (clientAddress : Address) (found : Found) (o : Outside)
    (response : DNSPacket) (t s' : State) : Prop where
  run : ∃ own data sent u, localAnswers found.locals = .ok own ∧
    (nextQuery query o.forwardedID found.queriesRecords).toBytes = .ok data ∧
    saveCacheIntoDatabase o.saves response
      (t.asking (t.question (nextQuery query o.forwardedID found.queriesRecords) data)) =
        .ok () u ∧
    (relayed query response own).toBytes = .ok sent ∧
    s' = u.sending ⟨relayed query response own, sent, clientAddress⟩

/-- The runs of the handler that return, when the parent is asked. -/
theorem requestHandler_receiving_iff (hdraws : o.Draws query) {found : Found}
    (hfound : findLocals o.looks 0 query.queriesRecords (.start query) s = .ok found t)
    (hmissing : 0 < found.missing) :
    requestHandler query clientAddress (o.receiving outcomes n) s = .ok () s' ↔
      2 ≤ query.transactionIDAsNum ∧ ∃ response,
        (∃ k < n, Arrives o.forwardedID outcomes k response) ∧
        PassedOn query clientAddress found o response t s' := by
  have hlooks : findLocals (o.receiving outcomes n).looks 0 query.queriesRecords (.start query) s =
      .ok found t := hfound
  rw [requestHandler, bind_of_ok hlooks, forward, if_pos hmissing]
  constructor
  · intro h
    obtain ⟨used, u, hforward, h⟩ := bind_ok_iff.mp h
    obtain ⟨response, t₁, hasked, hforward⟩ := bind_ok_iff.mp hforward
    obtain ⟨_, t₂, hsave, hpure⟩ := bind_ok_iff.mp hforward
    cases hpure
    obtain ⟨packet, t₃, hpacket, h⟩ := bind_ok_iff.mp h
    obtain ⟨sent, t₄, hsent, hsend⟩ := bind_ok_iff.mp h
    obtain ⟨hcreated, rfl⟩ := lift_ok hpacket
    obtain ⟨hencoded, rfl⟩ := lift_ok hsent
    cases hsend
    obtain ⟨hid, harrives, data, hdata, rfl⟩ := (askParent_receiving_iff hdraws).mp hasked
    obtain ⟨own, hown, rfl⟩ := createResponse_ok_iff.mp hcreated
    exact ⟨hid, response, harrives, ⟨own, data, sent, _, hown, hdata, hsave, hencoded, rfl⟩⟩
  · rintro ⟨hid, response, harrives, ⟨own, data, sent, u, hown, hdata, hsave, hencoded, rfl⟩⟩
    have hasked : askParent query found.queriesRecords (o.receiving outcomes n) t =
        .ok response (t.asking (t.question (nextQuery query o.forwardedID found.queriesRecords)
          data)) :=
      (askParent_receiving_iff hdraws).mpr ⟨hid, harrives, data, hdata, rfl⟩
    have hcreated := createResponse_of_localAnswers query response hown
    have hforward : (askParent query found.queriesRecords (o.receiving outcomes n) >>=
        fun response => saveCacheIntoDatabase o.saves response >>= fun _ =>
          pure (some response)) t = .ok (some response) u := by
      rw [bind_of_ok hasked, bind_of_ok hsave]
      rfl
    rw [show (o.receiving outcomes n).saves = o.saves from rfl, bind_of_ok hforward,
      lift_ok_bind hcreated, lift_ok_bind hencoded]
    rfl

-- ============================================================================
-- Ending
-- ============================================================================

/-- The handler returned after `n` receives: it sent one response to the client, with
    the client's transaction id, and the response of the parent that it passed on and
    cached, if any, is one to its own query. -/
structure Ended (query : DNSPacket) (clientAddress : Address) (o : Outside)
    (outcomes : Nat → Option Bytes) (s : State) (n : Nat) (s' : State) : Prop where
  returned : requestHandler query clientAddress (o.receiving outcomes n) s = .ok () s'
  answer : ∃ d asked locals used, s'.sent = s.sent ++ [d] ∧ s'.toParent = s.toParent ++ [asked] ∧
    d.address = clientAddress ∧ d.packet.transactionID = query.transactionID ∧
    d.packet.toBytes = .ok d.data ∧ createResponse query used locals = .ok d.packet ∧
    (∃ t u, Forgets s t ∧ s'.database = u.database ∧ match used with
      | some response => saveCacheIntoDatabase o.saves response t = .ok () u
      | none => u = t) ∧
    ∀ response ∈ used, response.Matches asked.packet.transactionID

/-- The handler returns, whatever number of receives that takes. -/
def Ends (query : DNSPacket) (clientAddress : Address) (o : Outside)
    (outcomes : Nat → Option Bytes) (s : State) : Prop :=
  ∃ n s', Ended query clientAddress o outcomes s n s'

/-- What it takes: an id above 1, a response among the receives, and records that can be
    cached and written. -/
structure Answerable (query : DNSPacket) (found : Found) (o : Outside)
    (outcomes : Nat → Option Bytes) : Prop where
  id : 2 ≤ query.transactionIDAsNum
  question : (nextQuery query o.forwardedID found.queriesRecords).Writable
  response : ∃ k response own, Arrives o.forwardedID outcomes k response ∧
    (∀ r ∈ response.cachedRecords, r.type = DNSAnswerRecord.typeA → 4 ≤ r.rData.length) ∧
    localAnswers found.locals = .ok own ∧ (relayed query response own).Writable

/-- A run that passes the response on. -/
theorem ended_of_passedOn (hdraws : o.Draws query) {found : Found}
    (hfound : findLocals o.looks 0 query.queriesRecords (.start query) s = .ok found t)
    (hmissing : 0 < found.missing) (hid : 2 ≤ query.transactionIDAsNum)
    (harrives : ∃ k < n, Arrives o.forwardedID outcomes k response)
    (h : PassedOn query clientAddress found o response t s') :
    Ended query clientAddress o outcomes s n s' where
  returned := (requestHandler_receiving_iff hdraws hfound hmissing).mpr
    ⟨hid, response, harrives, h⟩
  answer := by
    obtain ⟨own, data, sent, u, hown, hdata, hsave, hencoded, rfl⟩ := h.run
    have herased := (keeps_findLocals _ _ _ _).of_ok hfound
    have hcached := (keeps_saveCacheIntoDatabase _ _).of_ok hsave
    obtain ⟨k, -, hresponse⟩ := harrives
    have hsent : (u.sending ⟨relayed query response own, sent, clientAddress⟩).sent =
        s.sent ++ [⟨relayed query response own, sent, clientAddress⟩] := by
      rw [State.sending, hcached.sent, State.asking, herased.sent]
    have hasked : (u.sending ⟨relayed query response own, sent, clientAddress⟩).toParent =
        s.toParent ++
          [t.question (nextQuery query o.forwardedID found.queriesRecords) data] := by
      rw [State.sending, hcached.toParent, State.asking, herased.toParent]
    have hforgets : Forgets s
        (t.asking (t.question (nextQuery query o.forwardedID found.queriesRecords) data)) :=
      ⟨herased.config, herased.cache⟩
    refine ⟨_, _, found.locals, some response, hsent, hasked, rfl, rfl, hencoded,
      createResponse_of_localAnswers query response hown, ⟨_, u, hforgets, rfl, hsave⟩, ?_⟩
    intro response' hused
    rw [Option.mem_some_iff] at hused
    exact hused ▸ hresponse.own

/-- **Ending.**  A query that is passed on is answered when its id is above 1, the
    response arrives after timeouts and other messages only, and the records can be cached
    and written, and on no other input. -/
theorem query_ends_iff (hdraws : o.Draws query) {found : Found}
    (hfound : findLocals o.looks 0 query.queriesRecords (.start query) s = .ok found t)
    (hmissing : 0 < found.missing) (clientAddress : Address) (outcomes : Nat → Option Bytes) :
    Ends query clientAddress o outcomes s ↔ Answerable query found o outcomes := by
  constructor
  · rintro ⟨n, s', hended⟩
    obtain ⟨hid, response, ⟨k, -, harrives⟩, hrun⟩ :=
      (requestHandler_receiving_iff hdraws hfound hmissing).mp hended.returned
    obtain ⟨own, data, sent, u, hown, hdata, hsave, hencoded, -⟩ := hrun
    exact ⟨hid, ⟨data, hdata⟩, k, response, own, harrives, saveCache_ok_iff.mp ⟨u, hsave⟩, hown,
      sent, hencoded⟩
  · rintro ⟨hid, ⟨data, hdata⟩, k, response, own, harrives, haddresses, hown, sent, hencoded⟩
    obtain ⟨u, hsave⟩ := saveCache_ok haddresses o.saves
      (t.asking (t.question (nextQuery query o.forwardedID found.queriesRecords) data))
    exact ⟨k + 1, _, ended_of_passedOn hdraws hfound hmissing hid
      ⟨k, Nat.lt_succ_self k, harrives⟩ ⟨own, data, sent, u, hown, hdata, hsave, hencoded, rfl⟩⟩

/-- A timeout, a message that is not the response, and the response. -/
def lateOutcomes (n : Nat) : Option Bytes :=
  match n with
  | 1 => some (aliasQueryData [[97]])
  | 2 => some (aliasData [[97]] 12)
  | _ => none

theorem answerable_late :
    Answerable (aliasQuery "a".toList) ⟨[none], [⟨"a".toList, 1, 1⟩], 1⟩ (aliasOutside [[97]] 12)
      lateOutcomes where
  id := by decide
  question := ⟨[0, 3, 1, 0, 0, 1, 0, 0, 0, 0, 0, 0, 1, 97, 0, 0, 1, 0, 1], by decide +kernel⟩
  response := by
    have hother : DNSPacket.fromBytes (aliasQueryData [[97]]) = .ok (aliasQuery "a".toList) := by
      decide +kernel
    refine ⟨2, aliasResponse "a".toList 31 12, [], ⟨⟨_, rfl, by decide +kernel⟩, ⟨rfl, rfl⟩,
      fun j hj => ?_⟩, by decide, rfl, _, (by decide +kernel :
        (relayed (aliasQuery "a".toList) (aliasResponse "a".toList 31 12) []).toBytes =
          .ok [0, 7, 129, 128, 0, 1, 0, 1, 0, 0, 0, 0, 1, 97, 0, 0, 1, 0, 1,
            192, 12, 0, 5, 0, 1, 0, 0, 0, 60, 0, 4, 1, 120, 192, 12])⟩
    match j, hj with
    | 0, _ => exact fun data hdata => by cases hdata
    | 1, _ => exact (passedOver_some_iff _ hother).mpr nofun

theorem query_ends_iff_late :
    Ends (aliasQuery "a".toList) ("10.0.0.9".toList, 5353) (aliasOutside [[97]] 12) lateOutcomes
      defaultState :=
  have hfound : findLocals (aliasOutside [[97]] 12).looks 0 (aliasQuery "a".toList).queriesRecords
      (.start (aliasQuery "a".toList)) defaultState =
      .ok ⟨[none], [⟨"a".toList, 1, 1⟩], 1⟩ defaultState := rfl
  (query_ends_iff (fun _ => by decide +kernel) hfound (by decide) _ _).mpr answerable_late

/-- The parent never answers, and every receive times out. -/
def silent (_ : Nat) : Option Bytes := none

/-- The handler waits for the silent parent without an end. -/
theorem not_query_ends_silent :
    DNSPacket.fromBytes (aliasQueryData [[97]]) = .ok (aliasQuery "a".toList) ∧
      (aliasOutside [[97]] 12).Draws (aliasQuery "a".toList) ∧
      (∃ found, findLocals (aliasOutside [[97]] 12).looks 0
          (aliasQuery "a".toList).queriesRecords (.start (aliasQuery "a".toList)) defaultState =
          .ok found defaultState ∧ 0 < found.missing) ∧
      (∀ n, silent n = none) ∧
      ¬ Ends (aliasQuery "a".toList) ("10.0.0.9".toList, 5353) (aliasOutside [[97]] 12) silent
        defaultState := by
  have hfound : findLocals (aliasOutside [[97]] 12).looks 0 (aliasQuery "a".toList).queriesRecords
      (.start (aliasQuery "a".toList)) defaultState =
      .ok ⟨[none], [⟨"a".toList, 1, 1⟩], 1⟩ defaultState := rfl
  have hdraws : (aliasOutside [[97]] 12).Draws (aliasQuery "a".toList) :=
    fun _ => by decide +kernel
  refine ⟨by decide +kernel, hdraws, ⟨_, hfound, by decide⟩, fun _ => rfl, ?_⟩
  rintro ⟨n, s', hended⟩
  obtain ⟨-, response, ⟨k, -, harrives⟩, -⟩ :=
    (requestHandler_receiving_iff hdraws hfound (by decide)).mp hended.returned
  obtain ⟨data, hdata, -⟩ := harrives.received
  cases hdata

end Dns
end NetworkingFinal
