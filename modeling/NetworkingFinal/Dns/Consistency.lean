/-
  NetworkingFinal.Dns.Consistency

  What one run of the query handler sends, over any questions and any clock.  The
  lookups split the questions: those without a record go to the parent server in one
  query, and each of the others gets one answer of its own.

  - `findLocals_of_lookUps`: the bookkeeping of the handler follows the lookups.
  - `Reply`: a packet to the client, over the answers it starts from.
  - `requestHandler_consistent`: the ways a run can end.
-/
import NetworkingFinal.Dns.Ending

namespace NetworkingFinal
namespace Dns

open Py Py.Prog

-- ============================================================================
-- The lookups of a query
-- ============================================================================

/-- Look up the questions one after the other, from index `i` on. -/
def lookUps (looks : Nat → Int) : Nat → List DNSQueryRecord → Prog State (List (Option RecordData))
  | _, [] => return []
  | i, queryRecord :: records => do
      let recordData ← getActiveRecord (looks i) queryRecord.domainName
      let gave ← lookUps looks (i + 1) records
      return recordData :: gave

/-- A record that a lookup gave is under the name of the question. -/
def Named (q : DNSQueryRecord) (gave : Option RecordData) : Prop :=
  ∀ record ∈ gave, record.domainName = q.domainName

/-- Every question is looked up, and cached records may be gone after that. -/
theorem lookUps_ok (looks : Nat → Int) (i : Nat) (queries : List DNSQueryRecord) (s : State) :
    ∃ gave t, lookUps looks i queries s = .ok gave t ∧ List.Forall₂ Named queries gave ∧
      Erased s t := by
  induction queries generalizing i s with
  | nil => exact ⟨[], s, rfl, .nil, Erased.refl s⟩
  | cons queryRecord queries ih =>
      have hlook := getActiveRecord_eq (looks i) queryRecord.domainName s
      have hfirst := (keeps_getActiveRecord (looks i) queryRecord.domainName).of_ok hlook
      obtain ⟨gave, t, hgave, hnames, hrest⟩ := ih (i + 1) _
      refine ⟨s.database.active (looks i) queryRecord.domainName :: gave, t, ?_,
        .cons (fun record hrecord => domainName_of_active hrecord) hnames, hfirst.trans hrest⟩
      rw [lookUps, bind_of_ok hlook, bind_of_ok hgave]
      rfl

/-- The questions whose lookup gave nothing. -/
def missed (queries : List DNSQueryRecord) (gave : List (Option RecordData)) :
    List DNSQueryRecord :=
  ((queries.zip gave).filter fun x => x.2.isNone).map Prod.fst

/-- The questions whose lookup gave a record, with the record. -/
def hits (queries : List DNSQueryRecord) (gave : List (Option RecordData)) :
    List (DNSQueryRecord × RecordData) :=
  (queries.zip gave).filterMap fun x => x.2.map (Prod.mk x.1)

section Split

variable (q : DNSQueryRecord) (queries : List DNSQueryRecord) (record : RecordData)
  (gave : List (Option RecordData))

@[simp] theorem missed_nil : missed [] gave = [] := rfl

@[simp] theorem missed_none : missed (q :: queries) (none :: gave) = q :: missed queries gave :=
  rfl

@[simp] theorem missed_some : missed (q :: queries) (some record :: gave) = missed queries gave :=
  rfl

@[simp] theorem hits_nil : hits [] gave = [] := rfl

@[simp] theorem hits_none : hits (q :: queries) (none :: gave) = hits queries gave := rfl

@[simp] theorem hits_some :
    hits (q :: queries) (some record :: gave) = (q, record) :: hits queries gave := rfl

end Split

/-- Each question is missed or hit. -/
theorem length_missed_add_hits {queries : List DNSQueryRecord} {gave : List (Option RecordData)}
    (h : List.Forall₂ Named queries gave) :
    (missed queries gave).length + (hits queries gave).length = queries.length := by
  induction h with
  | nil => rfl
  | @cons q record queries gave _ _ ih =>
      cases record with
      | none =>
          rw [missed_none, hits_none, List.length_cons, List.length_cons]
          omega
      | some record =>
          rw [missed_some, hits_some, List.length_cons, List.length_cons]
          omega

/-- The loop over the questions keeps what the lookups gave in `locals`, the missed
    questions in `queriesRecords`, and counts the hits down from `missing`. -/
theorem findLocals_of_lookUps {looks : Nat → Int} {queries : List DNSQueryRecord}
    {done gave : List (Option RecordData)} {queriesRecords : List DNSQueryRecord} {missing : Int}
    {s t : State} (h : lookUps looks done.length queries s = .ok gave t) :
    findLocals looks done.length queries
        { locals := done ++ List.replicate queries.length none, queriesRecords, missing } s =
      .ok { locals := done ++ gave, queriesRecords := queriesRecords ++ missed queries gave,
            missing := missing - (hits queries gave).length } t := by
  induction queries generalizing done gave queriesRecords missing s with
  | nil =>
      cases h
      simp [findLocals]
  | cons queryRecord queries ih =>
      obtain ⟨recordData, u, hlook, h⟩ := bind_ok_iff.mp h
      obtain ⟨rest, v, hrest, hpure⟩ := bind_ok_iff.mp h
      cases hpure
      have hdone : (done ++ [recordData]).length = done.length + 1 := by simp
      rw [← hdone] at hrest
      rw [findLocals, bind_of_ok hlook, List.length_cons, List.replicate_succ]
      have hshift : ∀ tail : List (Option RecordData),
          done ++ recordData :: tail = done ++ [recordData] ++ tail := by simp
      cases recordData with
      | none =>
          dsimp only
          rw [hshift, ← hdone, ih hrest, missed_none, hits_none, List.append_assoc,
            List.append_assoc]
          rfl
      | some record =>
          have hset : (done ++ none :: List.replicate queries.length none).set done.length
              (some record) = done ++ [some record] ++ List.replicate queries.length none := by
            rw [List.set_append_right _ _ (Nat.le_refl _), Nat.sub_self, List.set_cons_zero,
              hshift]
          have hcount : missing - 1 - ((hits queries rest).length : Int) =
              missing - (((hits queries rest).length + 1 : Nat) : Int) := by omega
          dsimp only
          rw [if_pos (by simp), hset, ← hdone, ih hrest, missed_some, hits_some, List.length_cons,
            hcount, List.append_assoc]
          rfl

-- ============================================================================
-- The packets sent
-- ============================================================================

/-- Each count in the header is the number of records in its section. -/
structure DNSPacket.Counted (p : DNSPacket) : Prop where
  queries : p.queriesCount = p.queriesRecords.length
  answers : p.answersCount = p.answersRecords.length
  authority : p.authorityCount = p.authorityRecords.length
  additional : p.additionalCount = p.additionalRecords.length

theorem DNSPacket.counted_of_fromBytes {data : Bytes} {p : DNSPacket}
    (h : fromBytes data = .ok p) : p.Counted := by
  obtain ⟨-, -, -, -, _, _, _, _, _, _, _, hqueries, hanswers, hauthority, hadditional⟩ :=
    (fromBytes_eq_ok_iff data p).mp h
  exact ⟨(length_readRecords hqueries).symm, (length_readRecords hanswers).symm,
    (length_readRecords hauthority).symm, (length_readRecords hadditional).symm⟩

/-- The A / IN record for a question that was answered here. -/
structure DNSAnswerRecord.Answers (hit : DNSQueryRecord × RecordData) (a : DNSAnswerRecord) :
    Prop where
  domainName : a.domainName = hit.1.domainName
  type : a.type = typeA
  clase : a.clase = 1
  ttl : a.ttl = hit.2.ttl
  rData : ipStrToBytes hit.2.ipAddress = .ok a.rData

/-- The query to the parent server asks the missed questions, and there are some. -/
structure Forwarded (missed : List DNSQueryRecord) (d : Datagram) : Prop where
  some : missed ≠ []
  queriesRecords : d.packet.queriesRecords = missed
  counted : d.packet.Counted
  bytes : d.packet.toBytes = .ok d.data

/-- The packet to the client answers its query, with the given answers first and one
    for each hit after them. -/
structure Reply (query : DNSPacket) (clientAddress : Address) (given : List DNSAnswerRecord)
    (hits : List (DNSQueryRecord × RecordData)) (d : Datagram) : Prop where
  address : d.address = clientAddress
  transactionID : d.packet.transactionID = query.transactionID
  isResponse : d.packet.flags.isResponse = true
  queriesRecords : d.packet.queriesRecords = query.queriesRecords
  answers : ∃ own, d.packet.answersRecords = given ++ own ∧
    List.Forall₂ DNSAnswerRecord.Answers hits own
  counted : d.packet.Counted
  bytes : d.packet.toBytes = .ok d.data

/-- The ways a run of the handler ends, over what the lookups gave. -/
inductive Consistent (query : DNSPacket) (clientAddress : Address) (o : Outside)
    (gave : List (Option RecordData)) (s : State) : EStateM.Result Exn State Unit → Prop
  /-- it raised before anything was sent -/
  | silent (e : Exn) (t : State) (hparent : t.toParent = s.toParent) (hsent : t.sent = s.sent) :
      Consistent query clientAddress o gave s (.error e t)
  /-- it raised while it waited for the response, or after that -/
  | asked (e : Exn) (t : State) (d : Datagram)
      (hforwarded : Forwarded (missed query.queriesRecords gave) d)
      (hparent : t.toParent = s.toParent ++ [d]) (hsent : t.sent = s.sent) :
      Consistent query clientAddress o gave s (.error e t)
  /-- every question was answered here -/
  | fromHere (t : State) (d : Datagram) (hmissed : missed query.queriesRecords gave = [])
      (hreply : Reply query clientAddress [] (hits query.queriesRecords gave) d)
      (hparent : t.toParent = s.toParent) (hsent : t.sent = s.sent ++ [d]) :
      Consistent query clientAddress o gave s (.ok () t)
  /-- the response that the parent gave to the forwarded query was passed on -/
  | fromParent (t : State) (d d' : Datagram) (data : Bytes) (response : DNSPacket)
      (hforwarded : Forwarded (missed query.queriesRecords gave) d)
      (hreceived : some data ∈ o.received) (hdecoded : DNSPacket.fromBytes data = .ok response)
      (hmatches : response.Matches d.packet.transactionID)
      (hreply : Reply query clientAddress response.answersRecords
        (hits query.queriesRecords gave) d')
      (hparent : t.toParent = s.toParent ++ [d]) (hsent : t.sent = s.sent ++ [d']) :
      Consistent query clientAddress o gave s (.ok () t)

-- ============================================================================
-- The answers found here
-- ============================================================================

/-- There is one answer for each hit, in the order of the questions. -/
theorem answers_of_localAnswers {queries : List DNSQueryRecord}
    {gave : List (Option RecordData)} {own : List DNSAnswerRecord}
    (hnames : List.Forall₂ Named queries gave) (h : localAnswers gave = .ok own) :
    List.Forall₂ DNSAnswerRecord.Answers (hits queries gave) own := by
  induction hnames generalizing own with
  | nil =>
      cases h
      exact .nil
  | @cons q record queries gave hname _ ih =>
      cases record with
      | none => exact ih h
      | some record =>
          obtain ⟨rData, hrData, h⟩ := except_bind_ok_iff.mp h
          obtain ⟨answers, hanswers, hown⟩ := except_bind_ok_iff.mp h
          cases hown
          exact .cons ⟨hname record rfl, rfl, rfl, rfl, hrData⟩ (ih hanswers)

/-- The created response is a reply, over a response whose own counts are right. -/
theorem reply_of_createResponse {query packet : DNSPacket} {response : Option DNSPacket}
    {gave : List (Option RecordData)} {data : Bytes} (clientAddress : Address)
    (hquery : query.Counted) (hresponse : ∀ r ∈ response, r.Counted)
    (hnames : List.Forall₂ Named query.queriesRecords gave)
    (h : createResponse query response gave = .ok packet) (hdata : packet.toBytes = .ok data) :
    Reply query clientAddress (response.elim [] DNSPacket.answersRecords)
      (hits query.queriesRecords gave) ⟨packet, data, clientAddress⟩ := by
  obtain ⟨own, hown, hpacket⟩ := except_bind_ok_iff.mp h
  have hanswers := answers_of_localAnswers hnames hown
  cases hpacket
  cases response with
  | none => exact ⟨rfl, rfl, rfl, rfl, ⟨own, rfl, hanswers⟩, ⟨hquery.queries, rfl, rfl, rfl⟩, hdata⟩
  | some response =>
      have hcounted := hresponse response rfl
      exact ⟨rfl, rfl, rfl, rfl, ⟨own, rfl, hanswers⟩,
        ⟨hquery.queries, rfl, hcounted.authority, hcounted.additional⟩, hdata⟩

-- ============================================================================
-- One run of the handler
-- ============================================================================

/-- A response that ended the wait was received, and is the one to the query. -/
theorem received_of_awaitResponse {transactionID : Bytes} {received : List (Option Bytes)}
    {response : DNSPacket} (h : awaitResponse transactionID received = .ok response) :
    (∃ data, some data ∈ received ∧ DNSPacket.fromBytes data = .ok response) ∧
      response.Matches transactionID := by
  induction received with
  | nil => cases h
  | cons outcome received ih =>
      rcases awaitResponse_cons_iff.mp h with ⟨-, h⟩ | ⟨⟨data, rfl, hdecoded⟩, hmatches⟩
      · obtain ⟨⟨data, hdata, hdecoded⟩, hmatches⟩ := ih h
        exact ⟨⟨data, List.mem_cons_of_mem _ hdata, hdecoded⟩, hmatches⟩
      · exact ⟨⟨data, List.mem_cons_self, hdecoded⟩, hmatches⟩

/-- The parent is asked the missed questions, once, or the handler raised before that. -/
theorem wp_askParent (query : DNSPacket) {missed : List DNSQueryRecord} (hsome : missed ≠ [])
    (o : Outside) (s : State) :
    wp (askParent query missed o)
      (fun response t => ∃ d, Forwarded missed d ∧ t = s.asking d ∧
        (∃ data, some data ∈ o.received ∧ DNSPacket.fromBytes data = .ok response) ∧
          response.Matches d.packet.transactionID)
      (fun _ t => t = s ∨ ∃ d, Forwarded missed d ∧ t = s.asking d) s := by
  rw [askParent, wp_bind, wp_lift]
  refine ⟨fun draw _ => ?_, fun _ _ => Or.inl rfl⟩
  rw [wp_bind, wp_lift]
  refine ⟨fun transactionID _ => ?_, fun _ _ => Or.inl rfl⟩
  rw [wp_bind, wp_lift]
  refine ⟨fun data hdata => ?_, fun _ _ => Or.inl rfl⟩
  have hforwarded : Forwarded missed
      ⟨nextQuery query transactionID missed, data, (s.database.parentDns, 53)⟩ :=
    ⟨hsome, rfl, ⟨rfl, rfl, rfl, rfl⟩, hdata⟩
  rw [wp_bind, wp_modify, wp_lift]
  refine ⟨fun response hawait => ?_, fun _ _ => ?_⟩
  · exact ⟨_, hforwarded, rfl, received_of_awaitResponse hawait⟩
  · exact Or.inr ⟨_, hforwarded, rfl⟩

/-- Whatever a decoded query asks, and whenever its names expire, what the handler sends
    follows the lookups: a run that returns answers the client, one that raises does not. -/
theorem requestHandler_consistent {data : Bytes} {query : DNSPacket}
    (hquery : DNSPacket.fromBytes data = .ok query) (clientAddress : Address) (o : Outside)
    (s : State) :
    ∃ gave t, lookUps o.looks 0 query.queriesRecords s = .ok gave t ∧
      Consistent query clientAddress o gave s (requestHandler query clientAddress o s) := by
  obtain ⟨gave, t, hlook, hnames, herased⟩ := lookUps_ok o.looks 0 query.queriesRecords s
  have hcounted := DNSPacket.counted_of_fromBytes hquery
  have hsplit := length_missed_add_hits hnames
  rw [← hcounted.queries] at hsplit
  have hfound := @findLocals_of_lookUps o.looks query.queriesRecords [] gave []
    query.queriesCount s t hlook
  rw [List.nil_append, List.nil_append, List.length_nil, ← hcounted.queries] at hfound
  refine ⟨gave, t, hlook, outcome_of_wp ?_⟩
  rw [requestHandler, Found.start, wp_bind_of_ok hfound, wp_bind]
  by_cases hmissed : missed query.queriesRecords gave = []
  · -- every question was hit
    rw [hmissed, List.length_nil] at hsplit
    rw [forward, if_neg (by dsimp only; omega), wp_pure, List.nil_append]
    simp only [wp_bind, wp_lift, wp_modify]
    refine ⟨fun packet hpacket => ?_, fun _ _ => .silent _ _ herased.toParent herased.sent⟩
    refine ⟨fun sent hsent => ?_, fun _ _ => .silent _ _ herased.toParent herased.sent⟩
    exact .fromHere _ _ hmissed
      (reply_of_createResponse clientAddress hcounted (by rintro _ ⟨⟩) hnames hpacket hsent)
      herased.toParent (congrArg (· ++ _) herased.sent)
  · have hsome := List.length_pos_iff.mpr hmissed
    rw [forward, if_pos (by dsimp only; omega), List.nil_append]
    simp only [wp_bind, wp_pure, wp_lift, wp_modify]
    have hasked : ∀ {d : Datagram} {u : State}, Cached (t.asking d) u →
        u.toParent = s.toParent ++ [d] ∧ u.sent = s.sent := fun hcached =>
      ⟨hcached.toParent.trans (congrArg (· ++ _) herased.toParent),
        hcached.sent.trans herased.sent⟩
    refine wp_mono (wp_askParent query hmissed o t) ?_ ?_
    · rintro response _ ⟨d, hforwarded, rfl, ⟨received, hreceived, hdecoded⟩, hmatches⟩
      refine wp_mono (wp_of_keeps (keeps_saveCacheIntoDatabase o.saves response)
        fun u hcached => hasked hcached) ?_ ?_
      · rintro - u ⟨hparent, hsent⟩
        refine ⟨fun packet hpacket => ⟨fun sent hdata => ?_, fun _ _ => ?_⟩, fun _ _ => ?_⟩
        · have hreply := reply_of_createResponse clientAddress hcounted
            (by rintro _ ⟨⟩; exact DNSPacket.counted_of_fromBytes hdecoded) hnames hpacket hdata
          exact .fromParent _ d _ received response hforwarded hreceived hdecoded hmatches hreply
            hparent (congrArg (· ++ _) hsent)
        · exact .asked _ _ d hforwarded hparent hsent
        · exact .asked _ _ d hforwarded hparent hsent
      · rintro e u ⟨hparent, hsent⟩
        exact .asked e u d hforwarded hparent hsent
    · rintro e _ (rfl | ⟨d, hforwarded, rfl⟩)
      · exact .silent _ _ herased.toParent herased.sent
      · obtain ⟨hparent, hsent⟩ := hasked (caching.refl (t.asking d))
        exact .asked _ _ d hforwarded hparent hsent

/-- A question for the storage server's name, and one for a name that is not known here. -/
def mixedQueryData : Bytes :=
  [0, 7, 1, 0, 0, 2, 0, 0, 0, 0, 0, 0] ++
    (wireName [[97, 112, 112], [102, 105, 110, 97, 108], [112, 114, 111, 106, 101, 99, 116],
      [108, 111, 99, 97, 108]] ++ [0, 1, 0, 1] ++ (wireName [[97]] ++ [0, 1, 0, 1]))

def mixedQuery : DNSPacket :=
  { aliasQuery "a".toList with
    queriesCount := 2
    domainNames := (Dict.empty.set "app.final.project.local".toList 12).set "a".toList 41
    queriesRecords := [⟨"app.final.project.local".toList, 1, 1⟩, ⟨"a".toList, 1, 1⟩] }

/-- The second question is forwarded, and the response to it passed on with the record for
    the first. -/
theorem requestHandler_consistent_mixed :
    ∃ gave t u d d' response,
      lookUps (aliasOutside [[97]] 12).looks 0 mixedQuery.queriesRecords defaultState =
        .ok gave t ∧
      requestHandler mixedQuery ("10.0.0.9".toList, 5353) (aliasOutside [[97]] 12) defaultState =
        .ok () u ∧
      Forwarded (missed mixedQuery.queriesRecords gave) d ∧
      DNSPacket.fromBytes (aliasData [[97]] 12) = .ok response ∧
      Reply mixedQuery ("10.0.0.9".toList, 5353) response.answersRecords
        (hits mixedQuery.queriesRecords gave) d' ∧
      u.toParent = defaultState.toParent ++ [d] ∧ u.sent = defaultState.sent ++ [d'] := by
  have hquery : DNSPacket.fromBytes mixedQueryData = .ok mixedQuery := by decide +kernel
  have hcounts : (final (requestHandler mixedQuery ("10.0.0.9".toList, 5353)
      (aliasOutside [[97]] 12) defaultState)).toParent.length = 1 ∧
      (final (requestHandler mixedQuery ("10.0.0.9".toList, 5353)
        (aliasOutside [[97]] 12) defaultState)).sent.length = 1 := by decide +kernel
  obtain ⟨gave, t, hlook, hrun⟩ := requestHandler_consistent hquery ("10.0.0.9".toList, 5353)
    (aliasOutside [[97]] 12) defaultState
  refine ⟨gave, t, ?_⟩
  generalize hresult : requestHandler mixedQuery ("10.0.0.9".toList, 5353)
    (aliasOutside [[97]] 12) defaultState = result at hrun hcounts
  cases hrun with
  | silent e u hparent hsent =>
      rw [final_error, hsent] at hcounts
      exact absurd hcounts.2 (by decide)
  | asked e u d hforwarded hparent hsent =>
      rw [final_error, hsent] at hcounts
      exact absurd hcounts.2 (by decide)
  | fromHere u d hmissed hreply hparent hsent =>
      rw [final_ok, hparent] at hcounts
      exact absurd hcounts.1 (by decide)
  | fromParent u d d' data response hforwarded hreceived hdecoded hmatches hreply hparent
      hsent =>
      obtain rfl := Option.some_inj.mp (List.mem_singleton.mp hreceived)
      exact ⟨u, d, d', response, hlook, rfl, hforwarded, hdecoded, hreply, hparent, hsent⟩

end Dns
end NetworkingFinal
