/-
  NetworkingFinal.Dns.Store

  The record store over any run of `save_cache_into_database` and
  `get_active_record`, against the log of the address records stored: a lookup
  gives the last one for its name, as long as it lasts.

  - `Agrees`: the cache holds the last record for every name, except for expired
    ones that a lookup has removed.
  - `record_store`: every lookup gives what the log says.
-/
import NetworkingFinal.Dns.Cache

namespace NetworkingFinal
namespace Dns

open Py Py.Prog

-- ============================================================================
-- The log
-- ============================================================================

/-- A call of the store at a second of the clock. -/
inductive Call where
  | save (now : Int) (response : DNSPacket)
  | lookup (now : Int) (domainName : Str)

/-- A stored address record, with the second it was stored at. -/
abbrev Stored := Int × DNSAnswerRecord

namespace Call

def now : Call → Int
  | save now _ => now
  | lookup now _ => now

/-- What a lookup returned, and nothing for a save. -/
def run : Call → Prog State (List (Option RecordData))
  | save now response => do
      saveCacheIntoDatabase now response
      return []
  | lookup now domainName => do
      let record ← getActiveRecord now domainName
      return [record]

/-- The address records a call stores, in order. -/
def stored : Call → List Stored
  | save now response =>
      (response.cachedRecords.filter fun r => r.type = DNSAnswerRecord.typeA).map fun r => (now, r)
  | lookup _ _ => []

/-- The address records of a response have four bytes of data. -/
def FourBytes : Call → Prop
  | save _ response => ∀ r ∈ response.cachedRecords, r.type = DNSAnswerRecord.typeA →
      r.rData.length = 4
  | lookup _ _ => True

end Call

/-- What the lookups among the calls returned. -/
def runCalls : List Call → Prog State (List (Option RecordData))
  | [] => return []
  | call :: calls => do
      let records ← call.run
      let rest ← runCalls calls
      return records ++ rest

def storedLog (calls : List Call) : List Stored := calls.flatMap Call.stored

/-- The last record stored for the name. -/
def lastStored (log : List Stored) (domainName : Str) : Option Stored :=
  log.reverse.find? fun entry => decide (entry.2.domainName = domainName)

/-- What the log says about a name: its static address, or the last address stored,
    until its time to live is over. -/
def reference (d : Database) (log : List Stored) (now : Int) (domainName : Str) :
    Option RecordData :=
  match d.staticRecords.get? domainName with
  | some record => some ⟨domainName, record.ipAddress, d.staticTtl⟩
  | none =>
      match lastStored log domainName with
      | some (time, r) =>
          if now ≤ time + r.ttl then
            (ipBytesToStr r.rData).toOption.map fun address =>
              ⟨domainName, address, time + r.ttl - now⟩
          else none
      | none => none

/-- What a call returns after the log. -/
def Call.expected (d : Database) (log : List Stored) : Call → List (Option RecordData)
  | .save _ _ => []
  | .lookup now domainName => [reference d log now domainName]

def expected (d : Database) (log : List Stored) : List Call → List (Option RecordData)
  | [] => []
  | call :: calls => call.expected d log ++ expected d (log ++ call.stored) calls

/-- The last record after a save: that of the response, if it has one for the name. -/
theorem lastStored_save (log : List Stored) (now : Int) (response : DNSPacket)
    (domainName : Str) :
    lastStored (log ++ (Call.save now response).stored) domainName =
      match lastAddress response.cachedRecords domainName with
      | some r => some (now, r)
      | none => lastStored log domainName := by
  have hresponse : (Call.save now response).stored.reverse.find?
      (fun entry => decide (entry.2.domainName = domainName)) =
      (lastAddress response.cachedRecords domainName).map fun r => (now, r) := by
    rw [Call.stored, ← List.map_reverse, ← List.filter_reverse, List.find?_map,
      List.find?_filter, lastAddress]
    simp
  rw [lastStored, List.reverse_append, List.find?_append, hresponse]
  cases lastAddress response.cachedRecords domainName with
  | some r => rfl
  | none => rfl

-- ============================================================================
-- The cache and the log
-- ============================================================================

/-- The store at a second: its configuration is that of `d`, and the cache has the last
    record of the log for every name, unless that is expired. -/
structure Agrees (d : Database) (log : List Stored) (now : Int) (s : State) : Prop where
  config : { s.database with cacheRecords := d.cacheRecords } = d
  past : ∀ entry ∈ log, entry.1 ≤ now
  cache : ∀ name,
    (∃ time r cached, lastStored log name = some (time, r) ∧
      s.database.cacheRecords.get? name = some cached ∧ CacheOf time r cached) ∨
    s.database.cacheRecords.get? name = none ∧
      ∀ time r, lastStored log name = some (time, r) → time + r.ttl < now

namespace Agrees

variable {d : Database} {log : List Stored} {now : Int} {s : State}

theorem staticRecords (h : Agrees d log now s) : s.database.staticRecords = d.staticRecords := by
  have hconfig := congrArg Database.staticRecords h.config
  exact hconfig

theorem staticTtl (h : Agrees d log now s) : s.database.staticTtl = d.staticTtl := by
  have hconfig := congrArg Database.staticTtl h.config
  exact hconfig

theorem advance (h : Agrees d log now s) {later : Int} (hle : now ≤ later) :
    Agrees d log later s where
  config := h.config
  past entry hentry := Int.le_trans (h.past entry hentry) hle
  cache name := by
    rcases h.cache name with hthere | ⟨hgone, hexpired⟩
    · exact Or.inl hthere
    · exact Or.inr ⟨hgone, fun time r hlast => Int.lt_of_lt_of_le (hexpired time r hlast) hle⟩

/-- The store gives what the log says. -/
theorem active_eq (h : Agrees d log now s) (name : Str) :
    s.database.active now name = reference d log now name := by
  unfold Database.active reference
  rw [h.staticRecords, h.staticTtl]
  cases d.staticRecords.get? name with
  | some record => rfl
  | none =>
      dsimp only
      rcases h.cache name with ⟨time, r, cached, hlast, hget, haddress, hexpires⟩ |
        ⟨hgone, hexpired⟩
      · rw [hget, hlast]
        simp only [hexpires, haddress]
        by_cases hlive : now ≤ time + r.ttl
        · rw [if_pos hlive, if_neg (by omega)]
          rfl
        · rw [if_neg hlive, if_pos (by omega)]
      · rw [hgone]
        cases hlast : lastStored log name with
        | none => rfl
        | some entry =>
            have hover := hexpired entry.1 entry.2 hlast
            simp only
            rw [if_neg (by omega)]

theorem lookup (h : Agrees d log now s) (name : Str) :
    ∃ t, getActiveRecord now name s = .ok (reference d log now name) t ∧ Agrees d log now t := by
  refine ⟨_, by rw [getActiveRecord_eq, h.active_eq], ?_⟩
  split
  · next hdropped =>
      obtain ⟨-, cached, hget, hover⟩ := hdropped
      refine ⟨h.config, h.past, fun other => ?_⟩
      have herase : (s.dropped name).database.cacheRecords.get? other =
          if other = name then none else s.database.cacheRecords.get? other :=
        Dict.get?_erase _ _ _
      rw [herase]
      by_cases hother : other = name
      · rw [if_pos hother]
        refine Or.inr ⟨rfl, fun time r hlast => ?_⟩
        -- the removed entry was the last one stored, and it is over
        rcases h.cache name with ⟨time', r', cached', hlast', hget', -, hexpires⟩ | ⟨hgone, -⟩
        · rw [hother, hlast'] at hlast
          cases hlast
          rw [hget, Option.some_inj] at hget'
          rw [← hexpires, ← hget']
          exact hover
        · rw [hgone] at hget
          cases hget
      · rw [if_neg hother]
        exact h.cache other
  · exact h

/-- Caching a response adds it to the log. -/
theorem saved (h : Agrees d log now s) {response : DNSPacket} {t : State}
    (ht : saveCacheIntoDatabase now response s = .ok () t) :
    Agrees d (log ++ (Call.save now response).stored) now t := by
  have hcached := (keeps_saveCacheIntoDatabase now response).of_ok ht
  refine ⟨?_, fun entry hentry => ?_, fun name => ?_⟩
  · rw [← h.config, ← hcached.config]
  · rcases List.mem_append.mp hentry with hold | hnew
    · exact h.past entry hold
    · obtain ⟨r, -, rfl⟩ := List.mem_map.mp hnew
      exact Int.le_refl _
  · have hget := get?_saveCache ht name
    rw [lastStored_save]
    cases hlast : lastAddress response.cachedRecords name with
    | some r =>
        rw [hlast] at hget
        obtain ⟨cached, hcachedGet, hof⟩ := hget
        exact Or.inl ⟨now, r, cached, rfl, hcachedGet, hof⟩
    | none =>
        rw [hlast] at hget
        simp only at hget
        rw [hget]
        exact h.cache name

theorem save (h : Agrees d log now s) {response : DNSPacket}
    (hdata : (Call.save now response).FourBytes) :
    ∃ t, saveCacheIntoDatabase now response s = .ok () t ∧
      Agrees d (log ++ (Call.save now response).stored) now t := by
  obtain ⟨t, ht⟩ := saveCache_ok (fun r hr htype => (hdata r hr htype).ge) now s
  exact ⟨t, ht, h.saved ht⟩

/-- One call gives what the log says, and adds to the log what it stores. -/
theorem call {c : Call} (h : Agrees d log c.now s) (hdata : c.FourBytes) :
    ∃ t, c.run s = .ok (c.expected d log) t ∧ Agrees d (log ++ c.stored) c.now t := by
  cases c with
  | save now response =>
      have h : Agrees d log now s := h
      obtain ⟨t, ht, hagrees⟩ := h.save hdata
      refine ⟨t, ?_, hagrees⟩
      rw [Call.run, bind_of_ok ht]
      rfl
  | lookup now name =>
      have h : Agrees d log now s := h
      obtain ⟨t, ht, hagrees⟩ := h.lookup name
      refine ⟨t, ?_, ?_⟩
      · rw [Call.run, bind_of_ok ht]
        rfl
      · rw [Call.stored, List.append_nil]
        exact hagrees

/-- A run of calls in the order of the clock. -/
theorem calls {cs : List Call} (h : Agrees d log now s) (hafter : ∀ c ∈ cs, now ≤ c.now)
    (hclock : (cs.map Call.now).Pairwise (· ≤ ·)) (hdata : ∀ c ∈ cs, c.FourBytes) :
    ∃ t, runCalls cs s = .ok (expected d log cs) t ∧
      ∀ later, now ≤ later → (∀ c ∈ cs, c.now ≤ later) →
        Agrees d (log ++ storedLog cs) later t := by
  induction cs generalizing log now s with
  | nil =>
      refine ⟨s, rfl, fun later hle _ => ?_⟩
      rw [storedLog, List.flatMap_nil, List.append_nil]
      exact h.advance hle
  | cons c cs ih =>
      rw [List.map_cons, List.pairwise_cons] at hclock
      have hnext : ∀ c' ∈ cs, c.now ≤ c'.now := fun c' hc' =>
        hclock.1 _ (List.mem_map_of_mem hc')
      obtain ⟨u, hu, hagrees⟩ :=
        call (h.advance (hafter c List.mem_cons_self)) (hdata c List.mem_cons_self)
      obtain ⟨t, ht, hrest⟩ := ih hagrees hnext hclock.2
        fun c' hc' => hdata c' (List.mem_cons_of_mem _ hc')
      refine ⟨t, ?_, fun later hle hall => ?_⟩
      · rw [runCalls, bind_of_ok hu, bind_of_ok ht]
        rfl
      · rw [storedLog, List.flatMap_cons, ← List.append_assoc]
        exact hrest later (hall c List.mem_cons_self)
          fun c' hc' => hall c' (List.mem_cons_of_mem _ hc')

end Agrees

-- ============================================================================
-- Runs
-- ============================================================================

/-- A lookup at the end of the calls `before`, in the state `s`: it gives what the log
    says, with a time to live between 0 and that of the record, and whether it removes
    the entry makes no difference to the calls `after` it. -/
structure LookupRight (d : Database) (before after : List Call) (now : Int) (name : Str)
    (s : State) : Prop where
  result : ∃ t, getActiveRecord now name s =
      .ok (reference d (storedLog before) now name) t ∧
    (runCalls after).run' t ≠ none ∧ (runCalls after).run' t = (runCalls after).run' s
  ttl : ∀ time r, lastStored (storedLog before) name = some (time, r) → now ≤ time + r.ttl →
    0 ≤ time + r.ttl - now ∧ time + r.ttl - now ≤ r.ttl

/-- **The record store.**  From an empty cache, whatever is saved and looked up in the
    order of the clock, every lookup gives what the log says. -/
theorem record_store {s₀ : State} {calls : List Call}
    (hempty : s₀.database.cacheRecords = Dict.empty)
    (hclock : (calls.map Call.now).Pairwise (· ≤ ·)) (hdata : ∀ c ∈ calls, c.FourBytes)
    {before after : List Call} {now : Int} {name : Str}
    (hcalls : calls = before ++ .lookup now name :: after) :
    ∃ records s, runCalls before s₀ = .ok records s ∧
      LookupRight s₀.database before after now name s := by
  subst hcalls
  rw [List.map_append, List.map_cons, List.pairwise_append, List.pairwise_cons] at hclock
  obtain ⟨hbefore, ⟨hafter, hlater⟩, hcross⟩ := hclock
  have hpast : ∀ c ∈ before, c.now ≤ now := fun c hc =>
    hcross _ (List.mem_map_of_mem hc) _ List.mem_cons_self
  have hnext : ∀ c ∈ after, now ≤ c.now := fun c hc => hafter _ (List.mem_map_of_mem hc)
  -- the clock before the first call
  obtain ⟨start, hstart⟩ : ∃ start, start ≤ now ∧ ∀ c ∈ before, start ≤ c.now := by
    cases before with
    | nil => exact ⟨now, Int.le_refl _, fun c hc => by cases hc⟩
    | cons c cs =>
        rw [List.map_cons, List.pairwise_cons] at hbefore
        refine ⟨c.now, hpast c List.mem_cons_self, fun c' hc' => ?_⟩
        rcases List.mem_cons.mp hc' with rfl | hc'
        · exact Int.le_refl _
        · exact hbefore.1 _ (List.mem_map_of_mem hc')
  have hinit : Agrees s₀.database [] start s₀ :=
    ⟨rfl, fun entry hentry => (by cases hentry), fun name => Or.inr ⟨by rw [hempty]; rfl,
      fun time r hlast => by cases hlast⟩⟩
  obtain ⟨s, hs, hagrees⟩ := hinit.calls hstart.2 hbefore
    fun c hc => hdata c (List.mem_append_left _ hc)
  have hat : Agrees s₀.database (storedLog before) now s := hagrees now hstart.1 hpast
  obtain ⟨t, ht, hagrees'⟩ := hat.lookup name
  have hdataAfter : ∀ c ∈ after, c.FourBytes := fun c hc =>
    hdata c (List.mem_append_right _ (List.mem_cons_of_mem _ hc))
  obtain ⟨u, hu, -⟩ := hat.calls hnext hlater hdataAfter
  obtain ⟨u', hu', -⟩ := hagrees'.calls hnext hlater hdataAfter
  refine ⟨_, s, hs, ⟨t, ht, ?_, ?_⟩, fun time r hlast hlive => ?_⟩
  · rw [run'_of_ok hu']
    exact Option.some_ne_none _
  · rw [run'_of_ok hu', run'_of_ok hu]
  · have hmem := List.mem_of_find?_eq_some hlast
    have hle : time ≤ now := hat.past _ (List.mem_reverse.mp hmem)
    omega

/-- Two addresses for a minute at second 100, looked up at 130 and, too late, at 161. -/
def minuteCalls : List Call :=
  [.save 100 (addressResponse [1, 2]), .lookup 130 "a".toList, .lookup 161 "a".toList]

theorem record_store_minuteCalls :
    (reference defaultState.database (storedLog (minuteCalls.take 1)) 130 "a".toList =
        some ⟨"a".toList, "10.0.0.2".toList, 30⟩) ∧
      (∃ records s, runCalls (minuteCalls.take 1) defaultState = .ok records s ∧
        LookupRight defaultState.database (minuteCalls.take 1) (minuteCalls.drop 2) 130 "a".toList
          s) ∧
      reference defaultState.database (storedLog (minuteCalls.take 2)) 161 "a".toList = none ∧
      ∃ records s, runCalls (minuteCalls.take 2) defaultState = .ok records s ∧
        LookupRight defaultState.database (minuteCalls.take 2) [] 161 "a".toList s := by
  have hdata : ∀ c ∈ minuteCalls, c.FourBytes := by
    refine List.forall_mem_cons.mpr ⟨?_, List.forall_mem_cons.mpr ⟨trivial,
      List.forall_mem_cons.mpr ⟨trivial, fun c hc => by cases hc⟩⟩⟩
    show ∀ r ∈ (addressResponse [1, 2]).cachedRecords, r.type = DNSAnswerRecord.typeA →
      r.rData.length = 4
    decide
  have hclock : (minuteCalls.map Call.now).Pairwise (· ≤ ·) := by decide
  exact ⟨by decide +kernel, record_store rfl hclock hdata rfl,
    by decide +kernel, record_store rfl hclock hdata rfl⟩

end Dns
end NetworkingFinal
