/-
  NetworkingFinal.Dns.Effect

  What one run of the query handler does to the state, said once.  A lookup can only
  drop cached records; the cache gains what the parent's response holds; and each
  name ends up with the last address record the response has for it.

  - `keeps_findLocals`: the frame of the lookups.
  - `get?_saveCache`: the cache after a response.
  - `run_of_requestHandler`: the two ways a run returns.
-/
import NetworkingFinal.Dns.Controller

namespace NetworkingFinal
namespace Dns

open Py Py.Prog

-- ============================================================================
-- Lookups
-- ============================================================================

/-- Nothing in the database changed, but cached records may be gone. -/
structure Forgets (s t : State) : Prop where
  config : { t.database with cacheRecords := s.database.cacheRecords } = s.database
  cache : ∀ name, t.database.cacheRecords.get? name = none ∨
    t.database.cacheRecords.get? name = s.database.cacheRecords.get? name

namespace Forgets

variable {s t u : State}

theorem refl (s : State) : Forgets s s := ⟨rfl, fun _ => Or.inr rfl⟩

theorem trans (h : Forgets s t) (h' : Forgets t u) : Forgets s u := by
  refine ⟨?_, fun name => ?_⟩
  · rw [← h.config, ← h'.config]
  · rcases h'.cache name with hnone | hsame
    · exact Or.inl hnone
    · rw [hsame]
      exact h.cache name

theorem staticRecords (h : Forgets s t) :
    t.database.staticRecords = s.database.staticRecords := by
  have hconfig := congrArg Database.staticRecords h.config
  exact hconfig

/-- A cached record that is still there is the one that was there. -/
theorem get?_of_some (h : Forgets s t) {name : Str} {record : CacheRecord}
    (hget : t.database.cacheRecords.get? name = some record) :
    s.database.cacheRecords.get? name = some record := by
  rcases h.cache name with hnone | hsame
  · rw [hnone] at hget
    cases hget
  · rw [← hsame, hget]

end Forgets

/-- Cached records may be gone, and nothing was sent. -/
structure Erased (s t : State) : Prop extends Forgets s t where
  toParent : t.toParent = s.toParent
  sent : t.sent = s.sent

namespace Erased

variable {s t u : State}

theorem refl (s : State) : Erased s s := ⟨Forgets.refl s, rfl, rfl⟩

theorem trans (h : Erased s t) (h' : Erased t u) : Erased s u :=
  ⟨h.toForgets.trans h'.toForgets, h'.toParent.trans h.toParent, h'.sent.trans h.sent⟩

theorem dropped (s : State) (name : Str) : Erased s (s.dropped name) := by
  refine ⟨⟨rfl, fun other => ?_⟩, rfl, rfl⟩
  show (s.database.cacheRecords.erase name).get? other = none ∨
    (s.database.cacheRecords.erase name).get? other = s.database.cacheRecords.get? other
  rw [Dict.get?_erase]
  split
  · exact Or.inl rfl
  · exact Or.inr rfl

end Erased

def erasing : Frame State where
  rel := Erased
  refl := Erased.refl
  trans := Erased.trans

theorem keeps_getActiveRecord (now : Int) (domainName : Str) :
    Keeps erasing (getActiveRecord now domainName) := by
  intro s
  rw [getActiveRecord_eq]
  show Erased s (if _ then s.dropped domainName else s)
  split
  · exact Erased.dropped s domainName
  · exact Erased.refl s

theorem keeps_findLocals (looks : Nat → Int) (i : Nat) (queries : List DNSQueryRecord)
    (found : Found) : Keeps erasing (findLocals looks i queries found) := by
  induction queries generalizing i found with
  | nil => exact keeps_pure _
  | cons query queries ih =>
      refine keeps_bind (keeps_getActiveRecord _ _) fun record => ?_
      cases record with
      | none => exact ih _ _
      | some record => exact keeps_ite (fun _ => ih _ _) fun _ => keeps_throw _

/-- After a lookup in the cache that gave nothing, nothing is cached under the name. -/
theorem get?_of_getActiveRecord_none {now : Int} {domainName : Str} {s t : State}
    (hstatic : s.database.staticRecords.get? domainName = none)
    (h : getActiveRecord now domainName s = .ok none t) :
    t.database.cacheRecords.get? domainName = none := by
  rw [getActiveRecord_eq, EStateM.Result.ok.injEq] at h
  obtain ⟨hactive, rfl⟩ := h
  cases hcache : s.database.cacheRecords.get? domainName with
  | none => simp [hcache]
  | some record =>
      have hexpired : record.expiredTime < now := by
        simpa [Database.active, hstatic, hcache] using hactive
      rw [if_pos ⟨hstatic, record, rfl, hexpired⟩]
      exact Dict.get?_erase_self _ _

-- ============================================================================
-- The cache after a response
-- ============================================================================

/-- The records of a response in the order they are cached. -/
def DNSPacket.cachedRecords (response : DNSPacket) : List DNSAnswerRecord :=
  response.additionalRecords ++ response.authorityRecords ++ response.answersRecords

/-- The last address record for the name. -/
def lastAddress (records : List DNSAnswerRecord) (name : Str) : Option DNSAnswerRecord :=
  records.reverse.find? fun r =>
    decide (r.type = DNSAnswerRecord.typeA ∧ r.domainName = name)

theorem lastAddress_concat (records : List DNSAnswerRecord) (r : DNSAnswerRecord) (name : Str) :
    lastAddress (records ++ [r]) name =
      if r.type = DNSAnswerRecord.typeA ∧ r.domainName = name then some r
      else lastAddress records name := by
  rw [lastAddress, List.reverse_append, List.reverse_singleton, List.singleton_append,
    List.find?_cons]
  split
  · next h => rw [if_pos (of_decide_eq_true h)]
  · next h => rw [if_neg (of_decide_eq_false h)]; rfl

theorem of_lastAddress {records : List DNSAnswerRecord} {r : DNSAnswerRecord} {name : Str}
    (h : lastAddress records name = some r) :
    r ∈ records ∧ r.type = DNSAnswerRecord.typeA ∧ r.domainName = name := by
  have hmem := List.mem_of_find?_eq_some h
  have hsome := List.find?_some h
  exact ⟨List.mem_reverse.mp hmem, of_decide_eq_true hsome⟩

theorem lastAddress_eq_none_iff {records : List DNSAnswerRecord} {name : Str} :
    lastAddress records name = none ↔
      ∀ r ∈ records, ¬ (r.type = DNSAnswerRecord.typeA ∧ r.domainName = name) := by
  rw [lastAddress, List.find?_eq_none]
  simp

/-- Cache one record of a response. -/
def saveRecord (now : Int) (record : DNSAnswerRecord) : Prog State Unit :=
  if record.type = DNSAnswerRecord.typeA then do
    let ipAddress ← lift (ipBytesToStr record.rData)
    updateCache fun cache => cache.set record.domainName ⟨⟨ipAddress⟩, now + record.ttl⟩
  else return ()

theorem saveCacheIntoDatabase_eq (now : Int) (response : DNSPacket) :
    saveCacheIntoDatabase now response =
      (each (saveRecord now) response.cachedRecords >>= fun _ => saveDatabase) := rfl

theorem each_append {σ α : Type} (f : α → Prog σ Unit) (xs ys : List α) :
    each f (xs ++ ys) = (each f xs >>= fun _ => each f ys) := by
  induction xs with
  | nil => rfl
  | cons x xs ih => rw [List.cons_append, each, each, ih, bind_assoc]

/-- What caching leaves alone. -/
structure Cached (s t : State) : Prop where
  config : { t.database with cacheRecords := s.database.cacheRecords } = s.database
  toParent : t.toParent = s.toParent
  sent : t.sent = s.sent

def caching : Frame State where
  rel := Cached
  refl _ := ⟨rfl, rfl, rfl⟩
  trans h h' := ⟨by rw [← h.config, ← h'.config], h'.toParent.trans h.toParent,
    h'.sent.trans h.sent⟩

theorem keeps_saveCacheIntoDatabase (now : Int) (response : DNSPacket) :
    Keeps caching (saveCacheIntoDatabase now response) := by
  rw [saveCacheIntoDatabase_eq]
  refine keeps_bind (keeps_each fun record _ => keeps_ite (fun _ => ?_) fun _ => keeps_pure _)
    fun _ => keeps_modify fun s => ⟨rfl, rfl, rfl⟩
  exact keeps_bind (keeps_reads _) fun ip => keeps_modify fun s => ⟨rfl, rfl, rfl⟩

/-- The cached record that an address record becomes. -/
def CacheOf (now : Int) (r : DNSAnswerRecord) (cached : CacheRecord) : Prop :=
  ipBytesToStr r.rData = .ok cached.ipAddress ∧ cached.expiredTime = now + r.ttl

/-- After the records were cached, a name has its last address record, or what it had. -/
theorem get?_saveRecords {now : Int} {records : List DNSAnswerRecord} {s t : State}
    (h : each (saveRecord now) records s = .ok () t) (name : Str) :
    match lastAddress records name with
    | some r => ∃ cached, t.database.cacheRecords.get? name = some cached ∧ CacheOf now r cached
    | none => t.database.cacheRecords.get? name = s.database.cacheRecords.get? name := by
  induction records using List.reverseRecOn generalizing t with
  | nil =>
      cases h
      rfl
  | append_singleton records r ih =>
      rw [each_append] at h
      obtain ⟨_, u, hu, hlast⟩ := bind_ok_iff.mp h
      obtain ⟨_, v, hv, hpure⟩ := bind_ok_iff.mp hlast
      cases hpure
      have hbefore := ih hu
      rw [lastAddress_concat]
      by_cases htype : r.type = DNSAnswerRecord.typeA
      · rw [saveRecord, if_pos htype] at hv
        obtain ⟨ip, w, hip, hset⟩ := bind_ok_iff.mp hv
        cases hset
        have hread : ipBytesToStr r.rData = .ok ip ∧ w = u := by
          unfold lift reads at hip
          split at hip
          · next ip' hip' =>
              cases hip
              exact ⟨hip', rfl⟩
          · cases hip
        obtain ⟨haddress, rfl⟩ := hread
        by_cases hname : r.domainName = name
        · rw [if_pos ⟨htype, hname⟩]
          refine ⟨⟨⟨ip⟩, now + r.ttl⟩, ?_, haddress, rfl⟩
          show (w.database.cacheRecords.set r.domainName _).get? name = _
          rw [hname, Dict.get?_set_self]
        · rw [if_neg fun hboth => hname hboth.2]
          have hsame : (w.database.cacheRecords.set r.domainName ⟨⟨ip⟩, now + r.ttl⟩).get? name =
              w.database.cacheRecords.get? name := Dict.get?_set_of_ne (Ne.symm hname)
          simp only [hsame]
          exact hbefore
      · rw [saveRecord, if_neg htype] at hv
        cases hv
        rw [if_neg fun hboth => htype hboth.1]
        exact hbefore

theorem get?_saveCache {now : Int} {response : DNSPacket} {s t : State}
    (h : saveCacheIntoDatabase now response s = .ok () t) (name : Str) :
    match lastAddress response.cachedRecords name with
    | some r => ∃ cached, t.database.cacheRecords.get? name = some cached ∧ CacheOf now r cached
    | none => t.database.cacheRecords.get? name = s.database.cacheRecords.get? name := by
  rw [saveCacheIntoDatabase_eq] at h
  obtain ⟨_, u, hu, hsave⟩ := bind_ok_iff.mp h
  cases hsave
  exact get?_saveRecords hu name

theorem ipBytesToStr_of_le {data : Bytes} (h : 4 ≤ data.length) :
    ∃ address, ipBytesToStr data = .ok address := by
  match data, h with
  | a :: b :: c :: d :: rest, _ => exact ⟨_, rfl⟩

/-- A response whose addresses have their four bytes is cached. -/
theorem saveCache_ok {response : DNSPacket}
    (h : ∀ r ∈ response.cachedRecords, r.type = DNSAnswerRecord.typeA → 4 ≤ r.rData.length)
    (now : Int) (s : State) : ∃ t, saveCacheIntoDatabase now response s = .ok () t := by
  have hrecords : ∀ (records : List DNSAnswerRecord) (s : State),
      (∀ r ∈ records, r.type = DNSAnswerRecord.typeA → 4 ≤ r.rData.length) →
      ∃ t, each (saveRecord now) records s = .ok () t := by
    intro records
    induction records with
    | nil => exact fun s _ => ⟨s, rfl⟩
    | cons r records ih =>
        intro s hall
        have hfirst : ∃ t, saveRecord now r s = .ok () t := by
          unfold saveRecord
          split
          · next htype =>
              obtain ⟨address, haddress⟩ := ipBytesToStr_of_le (hall r List.mem_cons_self htype)
              rw [lift_ok_bind haddress]
              exact ⟨_, rfl⟩
          · exact ⟨s, rfl⟩
        obtain ⟨t, ht⟩ := hfirst
        obtain ⟨u, hu⟩ := ih t fun x hx => hall x (List.mem_cons_of_mem _ hx)
        exact ⟨u, by rw [each, bind_of_ok ht, hu]⟩
  obtain ⟨t, ht⟩ := hrecords response.cachedRecords s h
  rw [saveCacheIntoDatabase_eq, bind_of_ok ht]
  exact ⟨_, rfl⟩

-- ============================================================================
-- One run of the handler
-- ============================================================================

/-- The response the handler waits for. -/
def parentResponse (query : DNSPacket) (o : Outside) : Except Exn DNSPacket := do
  let draw ← randint o.random ((unpackIntFrom query.transactionID 0 2).1 - 1)
  let transactionID ← packInt draw 2
  awaitResponse transactionID o.received

/-- The state after a query was sent to the parent server. -/
def State.asking (s : State) (d : Datagram) : State := { s with toParent := s.toParent ++ [d] }

theorem lift_ok {σ α : Type} {x : Except Exn α} {a : α} {s t : σ}
    (h : lift x s = .ok a t) : x = .ok a ∧ t = s := by
  unfold lift reads at h
  split at h
  · next b hb =>
      cases h
      exact ⟨hb, rfl⟩
  · cases h

theorem askParent_ok {query response : DNSPacket} {queriesRecords : List DNSQueryRecord}
    {o : Outside} {s t : State} (h : askParent query queriesRecords o s = .ok response t) :
    parentResponse query o = .ok response ∧
      ∃ d, d.packet.queriesRecords = queriesRecords ∧ d.packet.toBytes = .ok d.data ∧
        t = s.asking d := by
  obtain ⟨draw, s₁, hdraw, h⟩ := bind_ok_iff.mp h
  obtain ⟨transactionID, s₂, hid, h⟩ := bind_ok_iff.mp h
  obtain ⟨data, s₃, hdata, h⟩ := bind_ok_iff.mp h
  obtain ⟨_, s₄, hsend, hawait⟩ := bind_ok_iff.mp h
  obtain ⟨hdrawn, rfl⟩ := lift_ok hdraw
  obtain ⟨hpacked, rfl⟩ := lift_ok hid
  obtain ⟨hencoded, rfl⟩ := lift_ok hdata
  obtain ⟨hreceived, rfl⟩ := lift_ok hawait
  cases hsend
  refine ⟨?_, ⟨nextQuery query transactionID queriesRecords, data, _⟩, rfl, hencoded, rfl⟩
  rw [parentResponse, hdrawn, except_ok_bind, hpacked, except_ok_bind, hreceived]

/-- The ways a run of the handler returns. -/
inductive Run (query : DNSPacket) (clientAddress : Address) (o : Outside) (s s' : State) : Prop
  /-- every question was answered from the database -/
  | fromHere (found : Found) (t : State) (packet : DNSPacket) (data : Bytes)
      (hfound : findLocals o.looks 0 query.queriesRecords (.start query) s = .ok found t)
      (hmissing : found.missing ≤ 0)
      (hpacket : createResponse query none found.locals = .ok packet)
      (hdata : packet.toBytes = .ok data)
      (hstate : s' = t.sending ⟨packet, data, clientAddress⟩)
  /-- the parent server was asked, and its response cached and passed on -/
  | fromParent (found : Found) (t u : State) (d : Datagram) (response packet : DNSPacket)
      (data : Bytes)
      (hfound : findLocals o.looks 0 query.queriesRecords (.start query) s = .ok found t)
      (hmissing : 0 < found.missing)
      (hasked : d.packet.queriesRecords = found.queriesRecords)
      (hbytes : d.packet.toBytes = .ok d.data)
      (hresponse : parentResponse query o = .ok response)
      (hsave : saveCacheIntoDatabase o.saves response (t.asking d) = .ok () u)
      (hpacket : createResponse query (some response) found.locals = .ok packet)
      (hdata : packet.toBytes = .ok data)
      (hstate : s' = u.sending ⟨packet, data, clientAddress⟩)

theorem run_of_requestHandler {query : DNSPacket} {clientAddress : Address} {o : Outside}
    {s s' : State} (h : requestHandler query clientAddress o s = .ok () s') :
    Run query clientAddress o s s' := by
  obtain ⟨found, t, hfound, h⟩ := bind_ok_iff.mp h
  obtain ⟨response, u, hresponse, h⟩ := bind_ok_iff.mp h
  obtain ⟨packet, v, hpacket, h⟩ := bind_ok_iff.mp h
  obtain ⟨data, w, hdata, hsend⟩ := bind_ok_iff.mp h
  obtain ⟨hcreated, rfl⟩ := lift_ok hpacket
  obtain ⟨hencoded, rfl⟩ := lift_ok hdata
  cases hsend
  unfold forward at hresponse
  by_cases hmissing : found.missing > 0
  · rw [if_pos hmissing] at hresponse
    obtain ⟨fromParent, t₁, hask, hresponse⟩ := bind_ok_iff.mp hresponse
    obtain ⟨_, t₂, hsave, hpure⟩ := bind_ok_iff.mp hresponse
    cases hpure
    obtain ⟨hparent, d, hasked, hbytes, rfl⟩ := askParent_ok hask
    exact .fromParent found t _ d fromParent packet data hfound hmissing hasked hbytes hparent
      hsave hcreated hencoded rfl
  · rw [if_neg hmissing] at hresponse
    cases hresponse
    exact .fromHere found _ packet data hfound (by omega) hcreated hencoded rfl

end Dns
end NetworkingFinal
