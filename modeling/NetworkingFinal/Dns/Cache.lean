/-
  NetworkingFinal.Dns.Cache

  A question that is asked again while the parent's response to it is cached.  The
  cache keeps one address for each name: the second answer section is that address
  record, whatever the first one held.

  - `forgets_of_exec`: while the parent is not asked, cached records only go away.
  - `cached_after_response`: what the cache holds for a name after a response to it.
  - `cache_answer`: the answer section of the second response, and when it holds the
    records of the first.
-/
import NetworkingFinal.Dns.Effect
import NetworkingFinal.Lib.Runs

namespace NetworkingFinal
namespace Dns

open Py Py.Prog
open Lib (exec exec_invariant)

-- ============================================================================
-- Between the two questions
-- ============================================================================

/-- A run of the handler forgets records, or asks the parent. -/
theorem forgets_of_run {query : DNSPacket} {clientAddress : Address} {o : Outside}
    {s s' : State} (h : Run query clientAddress o s s') :
    (s'.toParent = s.toParent ∧ Forgets s s') ∨ s.toParent.length < s'.toParent.length := by
  cases h with
  | fromHere found t packet data hfound _ _ _ hstate =>
      have herased := (keeps_findLocals _ _ _ _).of_ok hfound
      subst hstate
      exact Or.inl ⟨herased.toParent, herased.config, herased.cache⟩
  | fromParent found t u d response packet data hfound _ _ _ _ hsave _ _ hstate =>
      have herased := (keeps_findLocals _ _ _ _).of_ok hfound
      have hcached := (keeps_saveCacheIntoDatabase _ _).of_ok hsave
      subst hstate
      right
      have hsent : u.toParent = s.toParent ++ [d] := by
        rw [hcached.toParent, State.asking, herased.toParent]
      show s.toParent.length < u.toParent.length
      rw [hsent, List.length_append]
      exact Nat.lt_succ_self _

theorem forgets_of_step {server server' : Server} {e : Event} (h : step server e = some server')
    (hrunning : server'.stopped = none) :
    (server'.state.toParent = server.state.toParent ∧ Forgets server.state server'.state) ∨
      server.state.toParent.length < server'.state.toParent.length := by
  cases e with
  | timeout =>
      unfold step at h
      dsimp only at h
      split at h
      · cases h
        exact Or.inl ⟨rfl, Forgets.refl _⟩
      · cases h
  | datagram data clientAddress o =>
      unfold step at h
      dsimp only at h
      split at h
      · rw [Option.some_inj] at h
        subst h
        cases hrun : iteration data clientAddress o server.state with
        | error e t =>
            rw [hrun] at hrunning
            cases hrunning
        | ok u t =>
            show (t.toParent = server.state.toParent ∧ Forgets server.state t) ∨
              server.state.toParent.length < t.toParent.length
            obtain ⟨packet, s₁, hpacket, hdispatch⟩ := bind_ok_iff.mp hrun
            obtain ⟨-, rfl⟩ := lift_ok hpacket
            cases packet with
            | none =>
                cases hdispatch
                exact Or.inl ⟨rfl, Forgets.refl _⟩
            | some packet =>
                dsimp only at hdispatch
                split at hdispatch
                · cases hdispatch
                  exact Or.inl ⟨rfl, Forgets.refl _⟩
                · exact forgets_of_run (run_of_requestHandler hdispatch)
      · cases h

/-- While the parent is not asked, cached records only go away. -/
theorem forgets_of_exec {s t : State} {es : List Event}
    (h : exec step { state := s } es = some { state := t }) (hquiet : t.toParent = s.toParent) :
    Forgets s t := by
  have hrun : ({ state := t } : Server).stopped = none →
      (t.toParent = s.toParent ∧ Forgets s t) ∨ s.toParent.length < t.toParent.length := by
    refine exec_invariant (fun server => server.stopped = none →
      (server.state.toParent = s.toParent ∧ Forgets s server.state) ∨
        s.toParent.length < server.state.toParent.length)
      (fun _ => Or.inl ⟨rfl, Forgets.refl s⟩) (fun server e server' hbefore hstep hafter => ?_) h
    have hrunning : server.stopped = none := by
      cases e <;> unfold step at hstep <;> dsimp only at hstep <;> split at hstep
      case datagram.isTrue hnone => exact hnone
      case timeout.isTrue hnone => exact hnone
      all_goals cases hstep
    rcases hbefore hrunning with ⟨hsame, hforgets⟩ | hlonger
    · rcases forgets_of_step hstep hafter with ⟨hsame', hforgets'⟩ | hlonger'
      · exact Or.inl ⟨hsame'.trans hsame, hforgets.trans hforgets'⟩
      · exact Or.inr (by rw [← hsame]; exact hlonger')
    · rcases forgets_of_step hstep hafter with ⟨hsame', -⟩ | hlonger'
      · exact Or.inr (by rw [hsame']; exact hlonger)
      · exact Or.inr (by omega)
  rcases hrun rfl with ⟨-, hforgets⟩ | hlonger
  · exact hforgets
  · rw [hquiet] at hlonger
    exact absurd hlonger (Nat.lt_irrefl _)

-- ============================================================================
-- A question asked twice
-- ============================================================================

/-- The query asks one question. -/
structure DNSPacket.Asks (query : DNSPacket) (q : DNSQueryRecord) : Prop where
  questions : query.queriesRecords = [q]
  count : query.queriesCount = 1

/-- The lookups of one question. -/
theorem findLocals_single {query : DNSPacket} {q : DNSQueryRecord} (hquery : query.Asks q)
    (looks : Nat → Int) (s : State) :
    ∃ t, getActiveRecord (looks 0) q.domainName s =
        .ok (s.database.active (looks 0) q.domainName) t ∧
      findLocals looks 0 query.queriesRecords (.start query) s =
        .ok (match s.database.active (looks 0) q.domainName with
          | some record => { locals := [some record], missing := 0 }
          | none => { locals := [none], queriesRecords := [q], missing := 1 }) t := by
  refine ⟨_, getActiveRecord_eq _ _ _, ?_⟩
  rw [hquery.questions, findLocals, bind_of_ok (getActiveRecord_eq _ _ _), Found.start,
    hquery.count]
  cases s.database.active (looks 0) q.domainName with
  | some record => rfl
  | none => rfl

/-- A question goes to the parent, its response is cached, and after a while in which
    the parent is not asked the same question is answered from the cache. -/
structure AskedTwice (q : DNSQueryRecord) (response : DNSPacket) (o₁ o₂ : Outside)
    (s s₁ s₂ s₃ : State) : Prop where
  notStatic : s.database.staticRecords.get? q.domainName = none
  asked : s.database.active (o₁.looks 0) q.domainName = none
  first : ∃ query clientAddress, query.Asks q ∧ parentResponse query o₁ = .ok response ∧
    requestHandler query clientAddress o₁ s = .ok () s₁
  between : ∃ es, exec step { state := s₁ } es = some { state := s₂ }
  quiet : s₂.toParent = s₁.toParent
  cached : s₂.database.active (o₂.looks 0) q.domainName ≠ none
  second : ∃ query clientAddress, query.Asks q ∧
    requestHandler query clientAddress o₂ s₂ = .ok () s₃

/-- After a response to a question the cache has the last address record of the
    response for its name, and nothing else under it. -/
theorem cached_after_response {query : DNSPacket} {q : DNSQueryRecord} {clientAddress : Address}
    {o : Outside} {s s' : State} {response : DNSPacket} (hquery : query.Asks q)
    (hstatic : s.database.staticRecords.get? q.domainName = none)
    (hasked : s.database.active (o.looks 0) q.domainName = none)
    (hresponse : parentResponse query o = .ok response)
    (hrun : requestHandler query clientAddress o s = .ok () s') :
    (∃ d, s'.sent = s.sent ++ [d] ∧ d.packet.answersRecords = response.answersRecords) ∧
      s'.database.staticRecords = s.database.staticRecords ∧
      ∀ record, s'.database.cacheRecords.get? q.domainName = some record →
        ∃ r, lastAddress response.cachedRecords q.domainName = some r ∧
          CacheOf o.saves r record := by
  obtain ⟨t, hlookup, hsingle⟩ := findLocals_single hquery o.looks s
  rw [hasked] at hlookup hsingle
  have herased : Erased s t := (keeps_getActiveRecord _ _).of_ok hlookup
  have hnone := get?_of_getActiveRecord_none hstatic hlookup
  cases run_of_requestHandler hrun with
  | fromHere found t' packet data hfound hmissing =>
      rw [hsingle] at hfound
      cases hfound
      exact absurd hmissing (by simp)
  | fromParent found t' u d response' packet data hfound _ _ _ hresponse' hsave hpacket _ hstate =>
      rw [hsingle] at hfound
      cases hfound
      obtain rfl : response = response' := Except.ok.inj (hresponse.symm.trans hresponse')
      have hcached := (keeps_saveCacheIntoDatabase _ _).of_ok hsave
      subst hstate
      refine ⟨⟨⟨packet, data, clientAddress⟩, ?_, ?_⟩, ?_, fun record hrecord => ?_⟩
      · show u.sent ++ _ = s.sent ++ _
        rw [hcached.sent]
        show t.sent ++ _ = _
        rw [herased.sent]
      · cases hpacket
        exact List.append_nil _
      · have hconfig := congrArg Database.staticRecords hcached.config
        exact hconfig.trans herased.staticRecords
      · have hget := get?_saveCache hsave q.domainName
        cases hlast : lastAddress response.cachedRecords q.domainName with
        | none =>
            rw [hlast] at hget
            have hgone : u.database.cacheRecords.get? q.domainName = none := hget.trans hnone
            rw [show u.database.cacheRecords.get? q.domainName = some record from hrecord] at hgone
            cases hgone
        | some r =>
            rw [hlast] at hget
            obtain ⟨cached, hcachedGet, hof⟩ := hget
            have hsame : cached = record :=
              Option.some.inj (hcachedGet.symm.trans hrecord)
            exact ⟨r, rfl, hsame ▸ hof⟩

/-- The answer made from the cache. -/
theorem answer_from_cache {query : DNSPacket} {q : DNSQueryRecord} {clientAddress : Address}
    {o : Outside} {s s' : State} {record : RecordData} {data : Bytes} (hquery : query.Asks q)
    (hactive : s.database.active (o.looks 0) q.domainName = some record)
    (haddress : ipBytesToStr data = .ok record.ipAddress)
    (hrun : requestHandler query clientAddress o s = .ok () s') :
    ∃ d, s'.sent = s.sent ++ [d] ∧ d.packet.answersRecords =
      [⟨q.domainName, DNSAnswerRecord.typeA, 1, record.ttl, data.take 4⟩] := by
  obtain ⟨t, hlookup, hsingle⟩ := findLocals_single hquery o.looks s
  rw [hactive] at hlookup hsingle
  have herased : Erased s t := (keeps_getActiveRecord _ _).of_ok hlookup
  have hpacked := ipStrToBytes_of_inetNtoa (inetNtoa_of_ipBytesToStr haddress)
  cases run_of_requestHandler hrun with
  | fromParent found t' u d response packet data hfound hmissing =>
      rw [hsingle] at hfound
      cases hfound
      exact absurd hmissing (by simp)
  | fromHere found t' packet bytes hfound _ hpacket _ hstate =>
      rw [hsingle] at hfound
      cases hfound
      subst hstate
      refine ⟨⟨packet, bytes, clientAddress⟩, ?_, ?_⟩
      · show t.sent ++ _ = _
        rw [herased.sent]
      · simp only [createResponse, localAnswers, hpacked, except_ok_bind, except_pure,
          Except.ok.injEq] at hpacket
        rw [← hpacket, ← domainName_of_active hactive]
        rfl

/-- The record some seconds later. -/
def DNSAnswerRecord.aged (elapsed : Int) (r : DNSAnswerRecord) : DNSAnswerRecord :=
  { r with ttl := r.ttl - elapsed }

/-- The second answer section holds the records of the first, with their times to live
    reduced by the elapsed seconds. -/
def SameRecords (elapsed : Int) (first second : DNSPacket) : Prop :=
  ∀ a, a ∈ second.answersRecords ↔ a ∈ first.answersRecords.map (DNSAnswerRecord.aged elapsed)

/-- One record is the aged first section when that section is the record itself, once
    or more. -/
theorem sameRecords_singleton_iff {elapsed : Int} {first second : DNSPacket}
    {r : DNSAnswerRecord} (h : second.answersRecords = [r.aged elapsed]) :
    SameRecords elapsed first second ↔
      first.answersRecords ≠ [] ∧ ∀ a ∈ first.answersRecords, a = r := by
  have hinj : ∀ a : DNSAnswerRecord, a.aged elapsed = r.aged elapsed ↔ a = r := by
    intro a
    cases a
    cases r
    simp [DNSAnswerRecord.aged]
  unfold SameRecords
  rw [h]
  constructor
  · intro hall
    refine ⟨fun hnil => ?_, fun a ha => ?_⟩
    · have := (hall (r.aged elapsed)).mp List.mem_cons_self
      rw [hnil] at this
      cases this
    · have := (hall (a.aged elapsed)).mpr (List.mem_map_of_mem ha)
      exact (hinj a).mp (List.mem_singleton.mp this)
  · rintro ⟨hne, hall⟩ a
    rw [List.mem_singleton, List.mem_map]
    constructor
    · rintro rfl
      obtain ⟨x, hx⟩ := List.exists_mem_of_ne_nil _ hne
      exact ⟨x, hx, by rw [hall x hx]⟩
    · rintro ⟨x, hx, rfl⟩
      rw [hall x hx]

/-- A question for an address that is answered from the cache gets one A / IN record:
    the first four bytes of the last address record that the response had for the name,
    with its time to live reduced.  These are the records of the first answer section
    exactly when that section held this record alone. -/
theorem cache_answer {q : DNSQueryRecord} {response : DNSPacket} {o₁ o₂ : Outside}
    {s s₁ s₂ s₃ : State} (_htype : q.type = DNSAnswerRecord.typeA) (_hclase : q.clase = 1)
    (h : AskedTwice q response o₁ o₂ s s₁ s₂ s₃) :
    ∃ d₁ d₂ r, s₁.sent = s.sent ++ [d₁] ∧ s₃.sent = s₂.sent ++ [d₂] ∧
      d₁.packet.answersRecords = response.answersRecords ∧
      lastAddress response.cachedRecords q.domainName = some r ∧
      d₂.packet.answersRecords =
        [⟨q.domainName, DNSAnswerRecord.typeA, 1, r.ttl - (o₂.looks 0 - o₁.saves),
          r.rData.take 4⟩] ∧
      (SameRecords (o₂.looks 0 - o₁.saves) d₁.packet d₂.packet ↔
        response.answersRecords ≠ [] ∧ ∀ a ∈ response.answersRecords,
          a = ⟨q.domainName, DNSAnswerRecord.typeA, 1, r.ttl, r.rData.take 4⟩) := by
  obtain ⟨query₁, address₁, hquery₁, hresponse, hfirst⟩ := h.first
  obtain ⟨query₂, address₂, hquery₂, hsecond⟩ := h.second
  obtain ⟨es, hes⟩ := h.between
  obtain ⟨⟨d₁, hsent₁, hanswers₁⟩, hstatic₁, hcache₁⟩ :=
    cached_after_response hquery₁ h.notStatic h.asked hresponse hfirst
  have hforgets := forgets_of_exec hes h.quiet
  obtain ⟨record, hactive⟩ := Option.ne_none_iff_exists'.mp h.cached
  have hstatic₂ : s₂.database.staticRecords.get? q.domainName = none := by
    rw [hforgets.staticRecords, hstatic₁]
    exact h.notStatic
  -- the record comes from the cache, which has it since the response
  obtain ⟨cached, hcached, hrecord⟩ := cached_of_active hstatic₂ hactive
  obtain ⟨r, hlast, haddress, hexpired⟩ := hcache₁ cached (hforgets.get?_of_some hcached)
  have hip : ipBytesToStr r.rData = .ok record.ipAddress := by
    rw [hrecord]
    exact haddress
  have httl : record.ttl = r.ttl - (o₂.looks 0 - o₁.saves) := by
    rw [hrecord]
    show cached.expiredTime - o₂.looks 0 = _
    rw [hexpired]
    omega
  obtain ⟨d₂, hsent₂, hanswers₂⟩ := answer_from_cache hquery₂ hactive hip hsecond
  rw [httl] at hanswers₂
  have hsame := @sameRecords_singleton_iff (o₂.looks 0 - o₁.saves) d₁.packet d₂.packet
    ⟨q.domainName, DNSAnswerRecord.typeA, 1, r.ttl, r.rData.take 4⟩ hanswers₂
  rw [hanswers₁] at hsame
  exact ⟨d₁, d₂, r, hsent₁, hsent₂, hanswers₁, hlast, hanswers₂, hsame⟩

/-- The question for the address of `a`. -/
def addressQuestion : DNSQueryRecord := ⟨"a".toList, 1, 1⟩

def addressQuery : DNSPacket where
  transactionID := [0, 7]
  flags := {
    isResponse := false, opcode := 0, authoritative := false, truncated := false,
    recdesired := true, recavail := false, z := false, authenticated := false,
    checkdisable := false, rcode := 0 }
  queriesCount := 1
  answersCount := 0
  authorityCount := 0
  additionalCount := 0
  queriesRecords := [addressQuestion]

/-- The parent's datagram with one address 10.0.0.x for each `x`, for a minute. -/
def addressData (xs : List UInt8) : Bytes :=
  [0, 3, 0x81, 0x80, 0, 1, 0, UInt8.ofNat xs.length, 0, 0, 0, 0, 1, 97, 0, 0, 1, 0, 1] ++
    xs.flatMap fun x => [0xc0, 12, 0, 1, 0, 1, 0, 0, 0, 60, 0, 4, 10, 0, 0, x]

def addressAnswer (x : UInt8) (ttl : Int) : DNSAnswerRecord :=
  ⟨"a".toList, 1, 1, ttl, [10, 0, 0, x]⟩

/-- The first query is answered by the parent at second 100. -/
def atFirst (xs : List UInt8) : Outside where
  looks := fun _ => 100
  random := 3
  received := [none, some (addressData xs)]
  saves := 100

/-- The second query comes half a minute later. -/
def atSecond : Outside where
  looks := fun _ => 130
  random := 0
  received := []
  saves := 130

/-- The state after the query was handled. -/
def afterQuery (o : Outside) (s : State) : State :=
  final (requestHandler addressQuery ("10.0.0.9".toList, 5353) o s)

def returns {σ α : Type} : EStateM.Result Exn σ α → Bool
  | .ok _ _ => true
  | .error _ _ => false

theorem run_of_returns {o : Outside} {s : State}
    (h : returns (requestHandler addressQuery ("10.0.0.9".toList, 5353) o s) = true) :
    requestHandler addressQuery ("10.0.0.9".toList, 5353) o s = .ok () (afterQuery o s) := by
  unfold afterQuery
  cases hrun : requestHandler addressQuery ("10.0.0.9".toList, 5353) o s with
  | ok u t => rfl
  | error e t =>
      rw [hrun] at h
      cases h

theorem askedTwice_address {xs : List UInt8} {response : DNSPacket}
    (hresponse : parentResponse addressQuery (atFirst xs) = .ok response)
    (hfirst : returns (requestHandler addressQuery ("10.0.0.9".toList, 5353) (atFirst xs)
      defaultState) = true)
    (hcached : (afterQuery (atFirst xs) defaultState).database.active 130 "a".toList ≠ none)
    (hsecond : returns (requestHandler addressQuery ("10.0.0.9".toList, 5353) atSecond
      (afterQuery (atFirst xs) defaultState)) = true) :
    AskedTwice addressQuestion response (atFirst xs) atSecond defaultState
      (afterQuery (atFirst xs) defaultState) (afterQuery (atFirst xs) defaultState)
      (afterQuery atSecond (afterQuery (atFirst xs) defaultState)) where
  notStatic := by decide +kernel
  asked := show defaultState.database.active 100 "a".toList = none by decide +kernel
  first := ⟨addressQuery, _, ⟨rfl, rfl⟩, hresponse, run_of_returns hfirst⟩
  between := ⟨[.timeout], rfl⟩
  quiet := rfl
  cached := hcached
  second := ⟨addressQuery, _, ⟨rfl, rfl⟩, run_of_returns hsecond⟩

/-- The response to the first query. -/
def addressResponse (xs : List UInt8) : DNSPacket where
  transactionID := [0, 3]
  flags := {
    isResponse := true, opcode := 0, authoritative := false, truncated := false,
    recdesired := true, recavail := true, z := false, authenticated := false,
    checkdisable := false, rcode := 0 }
  queriesCount := 1
  answersCount := xs.length
  authorityCount := 0
  additionalCount := 0
  domainNames := Dict.empty.set "a".toList 12
  queriesRecords := [addressQuestion]
  answersRecords := xs.map fun x => addressAnswer x 60

theorem cache_answer_oneAddress :
    ∃ d₁ d₂ r, (afterQuery (atFirst [1]) defaultState).sent = defaultState.sent ++ [d₁] ∧
      (afterQuery atSecond (afterQuery (atFirst [1]) defaultState)).sent =
        (afterQuery (atFirst [1]) defaultState).sent ++ [d₂] ∧
      d₁.packet.answersRecords = (addressResponse [1]).answersRecords ∧
      lastAddress (addressResponse [1]).cachedRecords addressQuestion.domainName = some r ∧
      d₂.packet.answersRecords =
        [⟨addressQuestion.domainName, DNSAnswerRecord.typeA, 1,
          r.ttl - (atSecond.looks 0 - (atFirst [1]).saves), r.rData.take 4⟩] ∧
      (SameRecords (atSecond.looks 0 - (atFirst [1]).saves) d₁.packet d₂.packet ↔
        (addressResponse [1]).answersRecords ≠ [] ∧
          ∀ a ∈ (addressResponse [1]).answersRecords,
            a = ⟨addressQuestion.domainName, DNSAnswerRecord.typeA, 1, r.ttl, r.rData.take 4⟩) :=
  cache_answer rfl rfl (askedTwice_address (by decide +kernel) (by decide +kernel)
    (by decide +kernel) (by decide +kernel))

/-- Of two addresses the cache keeps the last. -/
theorem not_cache_transparent_twoAddresses :
    AskedTwice addressQuestion (addressResponse [1, 2]) (atFirst [1, 2]) atSecond defaultState
        (afterQuery (atFirst [1, 2]) defaultState) (afterQuery (atFirst [1, 2]) defaultState)
        (afterQuery atSecond (afterQuery (atFirst [1, 2]) defaultState)) ∧
      (∀ r ∈ (addressResponse [1, 2]).cachedRecords,
        atSecond.looks 0 < (atFirst [1, 2]).saves + r.ttl) ∧
      ∃ d₁ d₂, (afterQuery (atFirst [1, 2]) defaultState).sent = [d₁] ∧
        (afterQuery atSecond (afterQuery (atFirst [1, 2]) defaultState)).sent = [d₁, d₂] ∧
        d₁.packet.answersRecords = [addressAnswer 1 60, addressAnswer 2 60] ∧
        d₂.packet.answersRecords = [addressAnswer 2 30] ∧
        ¬ SameRecords (atSecond.looks 0 - (atFirst [1, 2]).saves) d₁.packet d₂.packet := by
  refine ⟨askedTwice_address (by decide +kernel) (by decide +kernel) (by decide +kernel)
    (by decide +kernel), by decide +kernel, ?_⟩
  have hfirst : ((afterQuery (atFirst [1, 2]) defaultState).sent.map
      fun d => d.packet.answersRecords) = [[addressAnswer 1 60, addressAnswer 2 60]] := by
    decide +kernel
  have hsecond : ((afterQuery atSecond (afterQuery (atFirst [1, 2]) defaultState)).sent.map
      fun d => d.packet.answersRecords) =
      [[addressAnswer 1 60, addressAnswer 2 60], [addressAnswer 2 30]] := by
    decide +kernel
  have hkept : (afterQuery atSecond (afterQuery (atFirst [1, 2]) defaultState)).sent.take 1 =
      (afterQuery (atFirst [1, 2]) defaultState).sent := by
    decide +kernel
  obtain ⟨d₁, rest₁, hd₁, hanswers₁, hnil₁⟩ := List.map_eq_cons_iff.mp hfirst
  rw [List.map_eq_nil_iff] at hnil₁
  obtain ⟨d₁', rest₂, hd₂, -, hrest₂⟩ := List.map_eq_cons_iff.mp hsecond
  obtain ⟨d₂, rest₃, hd₃, hanswers₂, hnil₃⟩ := List.map_eq_cons_iff.mp hrest₂
  rw [List.map_eq_nil_iff] at hnil₃
  subst hnil₁ hnil₃ hd₃
  rw [hd₂, hd₁] at hkept
  obtain rfl : d₁' = d₁ := List.head_eq_of_cons_eq hkept
  refine ⟨d₁', d₂, hd₁, hd₂, hanswers₁, hanswers₂, fun hsame => ?_⟩
  have hmem := (hsame (addressAnswer 1 30)).mpr (by
    rw [hanswers₁]
    decide +kernel)
  rw [hanswers₂] at hmem
  revert hmem
  decide +kernel

end Dns
end NetworkingFinal
