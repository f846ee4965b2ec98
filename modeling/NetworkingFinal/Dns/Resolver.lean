/-
  NetworkingFinal.Dns.Resolver

  What the DNS server is for: a resolver that remembers.  It answers a question from its
  configuration, or from the last address it heard for the name while that lasts, and asks
  the parent server the rest.

  The resolver keeps all it heard.  The server caches one record for each name, drops it
  when a lookup finds it expired, writes the database to a file and starts again from the
  file; over whole lifetimes, with restarts and crashes, it sends what the resolver sends.

  - `Resolver.answer`: a query, over the log of what was heard.
  - `Follows`: the database and the log.
  - `server_refines_resolver`: lifetimes.
-/
import NetworkingFinal.Dns.Store
import NetworkingFinal.Dns.Consistency
import NetworkingFinal.Dns.Restart
import Mathlib.Data.Finset.Dedup
import Mathlib.Data.Finset.Order

namespace NetworkingFinal
namespace Dns

open Py Py.Prog Lib

-- ============================================================================
-- The resolver
-- ============================================================================

structure Resolver where
  /-- the address records heard, oldest first -/
  log : List Stored := []
  toParent : List Datagram := []
  sent : List Datagram := []

/-- What the log says about questions, looked up from index `i` on. -/
def references (d : Database) (log : List Stored) (looks : Nat → Int) :
    Nat → List DNSQueryRecord → List (Option RecordData)
  | _, [] => []
  | i, q :: queries =>
      reference d log (looks i) q.domainName :: references d log looks (i + 1) queries

namespace Resolver

/-- Send the questions to the parent server, and wait. -/
def ask (d : Database) (query : DNSPacket) (queriesRecords : List DNSQueryRecord) (o : Outside) :
    Prog Resolver DNSPacket := do
  let transactionIDAsNum := (unpackIntFrom query.transactionID 0 2).1
  let draw ← lift (randint o.random (transactionIDAsNum - 1))
  let transactionID ← lift (packInt draw 2)
  let packet := nextQuery query transactionID queriesRecords
  let data ← lift packet.toBytes
  modify fun r => { r with toParent := r.toParent ++ [⟨packet, data, (d.parentDns, 53)⟩] }
  lift (awaitResponse transactionID o.received)

/-- The addresses of a response are heard all together, or none of them. -/
def hear (now : Int) (response : DNSPacket) : Prog Resolver Unit :=
  if ∀ r ∈ response.cachedRecords, r.type = DNSAnswerRecord.typeA → 4 ≤ r.rData.length then
    modify fun r => { r with log := r.log ++ (Call.save now response).stored }
  else throw .indexError

/-- The questions that the log does not answer. -/
def forward (d : Database) (query : DNSPacket) (queriesRecords : List DNSQueryRecord)
    (o : Outside) : Prog Resolver (Option DNSPacket) :=
  if queriesRecords = [] then return none
  else do
    let response ← ask d query queriesRecords o
    hear o.saves response
    return some response

def answer (d : Database) (query : DNSPacket) (clientAddress : Address) (o : Outside) :
    Prog Resolver Unit := do
  let r ← get
  let gave := references d r.log o.looks 0 query.queriesRecords
  let response ← forward d query (missed query.queriesRecords gave) o
  let packet ← lift (createResponse query response gave)
  let data ← lift packet.toBytes
  modify fun r => { r with sent := r.sent ++ [⟨packet, data, clientAddress⟩] }

/-- What arrives: queries are answered, anything else is passed over. -/
def turn (d : Database) : Event → Prog Resolver Unit
  | .timeout => return ()
  | .datagram data clientAddress o => do
      match ← lift (recvfrom data) with
      | none => return ()
      | some packet =>
          if packet.flags.isResponse then return () else answer d packet clientAddress o

def after (d : Database) (r : Resolver) (e : Event) : Resolver := final (turn d e r)

end Resolver

-- ============================================================================
-- The database and the log
-- ============================================================================

/-- A new process on the database file would answer as the log says, and the same was
    sent. -/
structure Follows (d : Database) (now : Int) (s : State) (r : Resolver) : Prop where
  agrees : Agrees d r.log now s.recovered
  toParent : s.toParent = r.toParent
  sent : s.sent = r.sent

/-- Here the running server would, too. -/
structure Running (d : Database) (now : Int) (s : State) (r : Resolver) : Prop where
  saved : s.file = s.database
  agrees : Agrees d r.log now s
  toParent : s.toParent = r.toParent
  sent : s.sent = r.sent

section Follows

variable {d : Database} {now later : Int} {s t : State} {r : Resolver}

theorem Agrees.of_database {log : List Stored} (h : Agrees d log now s)
    (hsame : t.database = s.database) : Agrees d log now t := by
  refine ⟨?_, h.past, ?_⟩
  · rw [hsame]
    exact h.config
  · rw [hsame]
    exact h.cache

theorem Running.follows (h : Running d now s r) : Follows d now s r :=
  ⟨(recovered_of_saved h.saved).symm ▸ h.agrees, h.toParent, h.sent⟩

theorem Follows.running (h : Follows d now s r) (hs : s.file = s.database) : Running d now s r :=
  ⟨hs, recovered_of_saved hs ▸ h.agrees, h.toParent, h.sent⟩

theorem Follows.advance (h : Follows d now s r) (hle : now ≤ later) : Follows d later s r :=
  ⟨h.agrees.advance hle, h.toParent, h.sent⟩

theorem Running.parentDns (h : Running d now s r) : s.database.parentDns = d.parentDns := by
  have hconfig := congrArg Database.parentDns h.agrees.config
  exact hconfig

/-- The lookups of a query, in the order of the clock, give what the log says. -/
theorem Agrees.lookUps {log : List Stored} {looks : Nat → Int} {i : Nat}
    {queries : List DNSQueryRecord} (h : Agrees d log now s)
    (hclock : (now :: ((List.range' i queries.length).map looks ++ [later])).Pairwise (· ≤ ·)) :
    ∃ t, lookUps looks i queries s = .ok (references d log looks i queries) t ∧
      Agrees d log later t := by
  induction queries generalizing i now s with
  | nil => exact ⟨s, rfl, h.advance (List.rel_of_pairwise_cons hclock List.mem_cons_self)⟩
  | cons q queries ih =>
      rw [List.length_cons, List.range'_succ, List.map_cons, List.cons_append] at hclock
      obtain ⟨hfirst, hrest⟩ := List.pairwise_cons.mp hclock
      obtain ⟨u, hu, hagrees⟩ := (h.advance (hfirst _ List.mem_cons_self)).lookup q.domainName
      obtain ⟨t, ht, hlast⟩ := ih hagrees hrest
      refine ⟨t, ?_, hlast⟩
      rw [Dns.lookUps, bind_of_ok hu, bind_of_ok ht]
      rfl

theorem saved_lookUps (looks : Nat → Int) (i : Nat) (queries : List DNSQueryRecord) :
    Keeps saved (lookUps looks i queries) := by
  induction queries generalizing i with
  | nil => exact keeps_pure _
  | cons q queries ih =>
      exact keeps_bind (saved_getActiveRecord _ _) fun _ =>
        keeps_bind (ih _) fun _ => keeps_pure _

end Follows

-- ============================================================================
-- One query
-- ============================================================================

section Query

variable {d : Database} {now : Int} {s t : State} {r : Resolver} {o : Outside}
  {query : DNSPacket} {clientAddress : Address}

theorem coupled_ask (queriesRecords : List DNSQueryRecord) :
    Coupled (Running d now) (askParent query queriesRecords o)
      (Resolver.ask d query queriesRecords o) := by
  unfold askParent Resolver.ask
  refine coupled_bind (coupled_lift _) fun draw => ?_
  generalize packInt draw 2 = drawn
  refine coupled_bind (coupled_lift _) fun transactionID => ?_
  refine coupled_bind (coupled_lift _) fun data => ?_
  refine coupled_bind (coupled_modify fun s r h => ?_) fun _ => coupled_lift _
  exact ⟨h.saved, h.agrees.of_database rfl, by rw [h.toParent, h.parentDns], h.sent⟩

/-- Until they are saved, cached records are in memory only. -/
structure InMemory (s t : State) : Prop where
  file : t.file = s.file
  toParent : t.toParent = s.toParent
  sent : t.sent = s.sent

def inMemory : Frame State where
  rel := InMemory
  refl _ := ⟨rfl, rfl, rfl⟩
  trans h h' := ⟨h'.file.trans h.file, h'.toParent.trans h.toParent, h'.sent.trans h.sent⟩

/-- What is left when a response is not cached: the cache in memory is, in part. -/
theorem of_saveCache_error {response : DNSPacket} {e : Exn}
    (h : saveCacheIntoDatabase now response s = .error e t) :
    e = .indexError ∧ InMemory s t := by
  rw [saveCacheIntoDatabase_eq] at h
  rcases bind_error_iff.mp h with h | ⟨_, u, -, hsave⟩
  · have hraises : Raises (· = .indexError) (each (saveRecord now) response.cachedRecords) := by
      refine raises_each fun record => raises_ite (raises_bind (raises_reads fun _ e he => ?_)
        fun ip => fun _ _ _ hset => by cases hset) (raises_pure _)
      unfold ipBytesToStr at he
      split at he
      · cases he
      · cases he
        rfl
    have hkeeps : Keeps inMemory (each (saveRecord now) response.cachedRecords) :=
      keeps_each fun record _ => keeps_ite (fun _ => keeps_bind (keeps_reads _) fun ip =>
        keeps_modify fun _ => ⟨rfl, rfl, rfl⟩) fun _ => keeps_pure _
    exact ⟨hraises _ _ _ h, hkeeps.of_error h⟩
  · cases hsave

theorem sameEnd_hear (h : Running d now s r) (response : DNSPacket) :
    SameEnd (Follows d now) (saveCacheIntoDatabase now response s)
      (Resolver.hear now response r) := by
  by_cases hall : ∀ x ∈ response.cachedRecords, x.type = DNSAnswerRecord.typeA →
    4 ≤ x.rData.length
  · obtain ⟨t, ht⟩ := saveCache_ok hall now s
    have hcached := (keeps_saveCacheIntoDatabase now response).of_ok ht
    have hrunning : Running d now t
        { r with log := r.log ++ (Call.save now response).stored } :=
      ⟨saved_of_saveCache ht, h.agrees.saved ht, hcached.toParent.trans h.toParent,
        hcached.sent.trans h.sent⟩
    rw [ht, Resolver.hear, if_pos hall]
    exact ⟨rfl, hrunning.follows⟩
  · rw [Resolver.hear, if_neg hall]
    cases hsave : saveCacheIntoDatabase now response s with
    | ok _ t => exact absurd (saveCache_ok_iff.mp ⟨t, hsave⟩) hall
    | error e t =>
        obtain ⟨he, hmemory⟩ := of_saveCache_error hsave
        exact ⟨he, h.agrees.of_database (hmemory.file.trans h.saved),
          hmemory.toParent.trans h.toParent, hmemory.sent.trans h.sent⟩

theorem sameEnd_forward (h : Running d o.saves s r) {found : Found}
    {queriesRecords : List DNSQueryRecord} (hfound : found.queriesRecords = queriesRecords)
    (hmissing : 0 < found.missing ↔ queriesRecords ≠ []) :
    SameEnd (Follows d o.saves) (forward query found o s)
      (Resolver.forward d query queriesRecords o r) := by
  by_cases hsome : queriesRecords = []
  · rw [forward, if_neg fun hpos => hmissing.mp hpos hsome, Resolver.forward, if_pos hsome]
    exact ⟨rfl, h.follows⟩
  · rw [forward, if_pos (hmissing.mpr hsome), Resolver.forward, if_neg hsome, hfound]
    refine sameEnd_bind ((coupled_ask queriesRecords s r h).mono fun _ _ => Running.follows) ?_
    intro response s' r' hask _ hfollows
    have hrunning := hfollows.running (saved_askParent.of_ok hask h.saved)
    exact sameEnd_bind (sameEnd_hear hrunning response) fun _ _ _ _ _ hlast =>
      coupled_pure _ _ _ hlast

/-- A query: the handler sends what the resolver sends, and raises where it does. -/
theorem sameEnd_requestHandler (hcounted : query.Counted) (h : Running d now s r)
    (hclock : (now :: ((List.range query.queriesRecords.length).map o.looks ++ [o.saves])).Pairwise
      (· ≤ ·)) :
    SameEnd (Follows d o.saves) (requestHandler query clientAddress o s)
      (Resolver.answer d query clientAddress o r) := by
  rw [List.range_eq_range'] at hclock
  obtain ⟨t, hlook, hagrees⟩ := h.agrees.lookUps hclock
  obtain ⟨_, _, hlook', hnames, herased⟩ := lookUps_ok o.looks 0 query.queriesRecords s
  cases hlook.symm.trans hlook'
  have hrunning : Running d o.saves t r :=
    ⟨(saved_lookUps _ _ _).of_ok hlook h.saved, hagrees, herased.toParent.trans h.toParent,
      herased.sent.trans h.sent⟩
  have hsplit := length_missed_add_hits hnames
  have hfound := @findLocals_of_lookUps o.looks query.queriesRecords [] _ []
    query.queriesCount s t hlook
  rw [List.nil_append, List.nil_append, List.length_nil, ← hcounted.queries] at hfound
  rw [requestHandler, Found.start, bind_of_ok hfound, Resolver.answer,
    bind_of_ok (get_apply r)]
  refine sameEnd_bind (sameEnd_forward hrunning (List.nil_append _) ?_) ?_
  · rw [← List.length_pos_iff, hcounted.queries]
    dsimp only
    omega
  · intro response s' r' _ _ hfollows
    refine coupled_bind (E := Follows d o.saves) (coupled_lift _) (fun packet =>
      coupled_bind (coupled_lift _) fun data => coupled_modify fun s r hsame => ?_) _ _ hfollows
    exact ⟨hsame.agrees.of_database rfl, hsame.toParent, congrArg (· ++ _) hsame.sent⟩

end Query

-- ============================================================================
-- Lifetimes
-- ============================================================================

/-- The readings of the clock in a turn, in the order it takes them. -/
def readings : Event → List Int
  | .timeout => []
  | .datagram data _ o =>
      match recvfrom data with
      | .ok (some packet) =>
          if packet.flags.isResponse then []
          else (List.range packet.queriesRecords.length).map o.looks ++ [o.saves]
      | _ => []

section Lifetimes

variable {d : Database} {now : Int} {s t : State} {r : Resolver} {e : Event}

theorem counted_of_recvfrom {data : Bytes} {packet : DNSPacket}
    (h : recvfrom data = .ok (some packet)) : packet.Counted := by
  unfold recvfrom at h
  split at h
  · next hdecoded =>
      cases h
      exact DNSPacket.counted_of_fromBytes hdecoded
  · cases h
  · cases h

/-- One turn, from any second that is not after its first reading to any that is not before
    its last. -/
theorem sameEnd_iteration {data : Bytes} {clientAddress : Address} {o : Outside} {later : Int}
    (h : Running d now s r)
    (hclock : (now :: (readings (.datagram data clientAddress o) ++ [later])).Pairwise (· ≤ ·)) :
    SameEnd (Follows d later) (iteration data clientAddress o s)
      (Resolver.turn d (.datagram data clientAddress o) r) := by
  have hle : now ≤ later := List.rel_of_pairwise_cons hclock
    (List.mem_append_right _ List.mem_cons_self)
  rw [iteration, Resolver.turn]
  rw [readings] at hclock
  cases hpacket : recvfrom data with
  | error e => exact ⟨rfl, h.follows.advance hle⟩
  | ok packet =>
      rw [hpacket] at hclock
      cases packet with
      | none => exact ⟨rfl, h.follows.advance hle⟩
      | some packet =>
          rw [lift_ok_bind rfl, lift_ok_bind rfl]
          dsimp only at hclock ⊢
          by_cases hresponse : packet.flags.isResponse
          · rw [if_pos hresponse, if_pos hresponse]
            exact ⟨rfl, h.follows.advance hle⟩
          · rw [if_neg hresponse] at hclock ⊢
            rw [if_neg hresponse]
            rw [← List.cons_append, List.pairwise_append] at hclock
            have hsaves : o.saves ≤ later := hclock.2.2 _ (List.mem_cons_of_mem _
              (List.mem_append_right _ List.mem_cons_self)) _ List.mem_cons_self
            exact (sameEnd_requestHandler (counted_of_recvfrom hpacket) h hclock.1).mono
              fun _ _ hfollows => hfollows.advance hsaves

/-- A step of the loop is a turn of the resolver. -/
theorem follows_of_step {server server' : Server} {later : Int} (hsaved : Saved server)
    (h : Follows d now server.state r) (hstep : step server e = some server')
    (hclock : (now :: (readings e ++ [later])).Pairwise (· ≤ ·)) :
    Follows d later server'.state (r.after d e) := by
  cases e with
  | timeout =>
      rw [step] at hstep
      split at hstep
      · cases hstep
        exact h.advance (List.rel_of_pairwise_cons hclock List.mem_cons_self)
      · cases hstep
  | datagram data clientAddress o =>
      rw [step] at hstep
      split at hstep
      · next hrunning =>
          cases hstep
          have hend := (sameEnd_iteration (h.running (hsaved hrunning)) hclock).final
          rw [Resolver.after]
          cases hturn : iteration data clientAddress o server.state with
          | ok _ t =>
              rw [hturn] at hend
              exact hend
          | error e t =>
              rw [hturn] at hend
              exact hend
      · cases hstep

/-- A second between the readings of the past and those of a turn: the first of the turn, or
    the second after it when there is none. -/
theorem exists_first_reading {past turn : List Int} {later : Int} (hturn : turn.Pairwise (· ≤ ·))
    (hcross : ∀ b ∈ past, ∀ c ∈ turn, b ≤ c) (hlater : ∀ c ∈ past ++ turn, c ≤ later) :
    ∃ now, (∀ c ∈ past, c ≤ now) ∧ (now :: (turn ++ [later])).Pairwise (· ≤ ·) := by
  have hlast : (turn ++ [later]).Pairwise (· ≤ ·) :=
    List.pairwise_append.mpr ⟨hturn, List.pairwise_singleton _ _, fun c hc x hx =>
      List.mem_singleton.mp hx ▸ hlater c (List.mem_append_right _ hc)⟩
  cases turn with
  | nil =>
      refine ⟨later, fun c hc => hlater c (List.mem_append_left _ hc), ?_⟩
      rw [List.nil_append]
      exact List.pairwise_pair.mpr (Int.le_refl _)
  | cons c cs =>
      refine ⟨c, fun x hx => hcross x hx c List.mem_cons_self,
        List.pairwise_cons.mpr ⟨fun x hx => ?_, hlast⟩⟩
      rcases List.mem_cons.mp hx with rfl | hx
      · exact Int.le_refl _
      · exact (List.pairwise_cons.mp hlast).1 x hx

/-- After any lifetime, at any second from its last reading on. -/
theorem follows_of_life {json : Format Database Bytes} {server : Server}
    {ls : List (Life Event Unit)}
    (hempty : d.cacheRecords = Dict.empty)
    (h : exec (lifetime json) (Server.init d) ls = some server)
    (hclock : ((Life.events ls).flatMap readings).Pairwise (· ≤ ·)) :
    Saved server ∧ ∀ later, (∀ c ∈ (Life.events ls).flatMap readings, c ≤ later) →
      Follows d later server.state ((Life.events ls).foldl (Resolver.after d) {}) := by
  revert hclock
  refine exec_history (fun ls server => ((Life.events ls).flatMap readings).Pairwise (· ≤ ·) →
    Saved server ∧ ∀ later, (∀ c ∈ (Life.events ls).flatMap readings, c ≤ later) →
      Follows d later server.state ((Life.events ls).foldl (Resolver.after d) {}))
    (fun _ => ⟨saved_init d, fun later _ => ⟨⟨rfl, fun x hx => (by cases hx), fun name =>
      Or.inr ⟨?_, fun _ _ hlast => by cases hlast⟩⟩, rfl, rfl⟩⟩) ?_ h
  · show d.cacheRecords.get? name = none
    rw [hempty]
    rfl
  · intro ls s l t _ ih hl hclock
    rw [events_append] at hclock ⊢
    cases l with
    | restart _ =>
        cases hl
        rw [Life.events, Life.events, List.append_nil] at hclock ⊢
        obtain ⟨-, hbefore⟩ := ih hclock
        refine ⟨saved_restart s, fun later hlater => ?_⟩
        obtain ⟨hagrees, htoParent, hsent⟩ := hbefore later hlater
        have hstate : (s.restart json).state = s.state.recovered := congrArg _ (restart_eq s)
        show Follows d later (s.restart json).state _
        rw [hstate]
        exact ⟨hagrees, htoParent, hsent⟩
    | event e =>
        rw [Life.events, Life.events, List.flatMap_append, List.flatMap_singleton] at hclock ⊢
        obtain ⟨hpast, hturn, hcross⟩ := List.pairwise_append.mp hclock
        obtain ⟨hsaved, hbefore⟩ := ih hpast
        refine ⟨(saved_of_step hsaved hl).1, fun later hlater => ?_⟩
        rw [List.foldl_append]
        obtain ⟨now, hnow, hpairs⟩ := exists_first_reading hturn hcross hlater
        exact follows_of_step hsaved (hbefore now hnow) hl hpairs

end Lifetimes

/-- **The server is the resolver.**  Over any lifetime with a clock that does not go back,
    restarts and crashes included, the server sends to its clients and to the parent server
    what a resolver sends that keeps everything it heard; while it runs, each of its lookups
    gives what the log of the resolver says. -/
theorem server_refines_resolver {json : Format Database Bytes} {d : Database} {server : Server}
    {ls : List (Life Event Unit)}
    (hempty : d.cacheRecords = Dict.empty)
    (hclock : ((Life.events ls).flatMap readings).Pairwise (· ≤ ·))
    (h : exec (lifetime json) (Server.init d) ls = some server) :
    ∃ r : Resolver, r = (Life.events ls).foldl (Resolver.after d) {} ∧
      server.state.toParent = r.toParent ∧ server.state.sent = r.sent ∧
      (server.stopped = none → ∀ now, (∀ c ∈ (Life.events ls).flatMap readings, c ≤ now) →
        ∀ name, server.state.database.active now name = reference d r.log now name) := by
  obtain ⟨hsaved, hfollows⟩ := follows_of_life hempty h hclock
  obtain ⟨last, hlast⟩ := ((Life.events ls).flatMap readings).toFinset.exists_le
  simp only [List.mem_toFinset] at hlast
  refine ⟨_, rfl, (hfollows last hlast).toParent, (hfollows last hlast).sent,
    fun hrunning now hnow name => ?_⟩
  exact ((hfollows now hnow).running (hsaved hrunning)).agrees.active_eq name

theorem server_refines_resolver_crashing :
    ∃ server r, exec (lifetime defaultJson) (Server.init {}) crashing = some server ∧
      r = (Life.events crashing).foldl (Resolver.after {}) {} ∧
      server.state.toParent = r.toParent ∧ server.state.sent = r.sent ∧
      r.toParent.length = 2 ∧ r.sent.length = 2 ∧ r.log.length = 1 := by
  have hcheck : (exec (lifetime defaultJson) (Server.init {}) crashing).isSome ∧
      ((Life.events crashing).foldl (Resolver.after {}) {}).toParent.length = 2 ∧
      ((Life.events crashing).foldl (Resolver.after {}) {}).sent.length = 2 ∧
      ((Life.events crashing).foldl (Resolver.after {}) {}).log.length = 1 := by
    rw [lifetime_eq]
    decide +kernel
  obtain ⟨hruns, hasked, hanswered, hheard⟩ := hcheck
  obtain ⟨server, hserver⟩ := Option.isSome_iff_exists.mp hruns
  obtain ⟨r, rfl, htoParent, hsent, -⟩ :=
    server_refines_resolver rfl (by decide +kernel) hserver
  exact ⟨server, _, hserver, rfl, htoParent, hsent, hasked, hanswered, hheard⟩

end Dns
end NetworkingFinal
