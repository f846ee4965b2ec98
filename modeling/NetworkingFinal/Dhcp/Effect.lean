/-
  NetworkingFinal.Dhcp.Effect

  What one turn of the main loop can do, said once: the lease table changes in one of
  the ways of `Outcome`, and at most one packet is broadcast.

  - `wp_getIp`: an address is offered because it was asked for and is available, or
    because the scan of the pool found it.
  - `outcome_of_dispatch` / `outcome_of_step`: the turn of the loop.
-/
import NetworkingFinal.Dhcp.Controller

namespace NetworkingFinal
namespace Dhcp

open Py Py.Prog

-- ============================================================================
-- Availability
-- ============================================================================

namespace Database

variable {d : Database} {pre ip : Str}

/-- The address has the server's prefix, is neither the router nor the server, and is not
    leased. -/
structure Available (d : Database) (ip : Str) : Prop where
  hasPrefix : ∃ pre, d.getPrefix = .ok pre ∧ pre.isPrefixOf ip = true
  ne_router : ip ≠ d.router
  ne_server : ip ≠ d.serverAddress
  free : ip ∉ d.ipAddressLeases.keys

/-- An available address of the configured range. -/
def FromPool (d : Database) (ip : Str) : Prop :=
  d.Available ip ∧ ∃ pre, ∃ i ∈ d.pool, d.getPrefix = .ok pre ∧ ip = pre ++ str i

theorem getPrefix_ne_nil (h : d.getPrefix = .ok pre) : pre ≠ [] := by
  unfold getPrefix at h
  split at h
  · cases h
  · cases h
    simp

theorem isAvailable_eq (h : d.getPrefix = .ok pre) :
    d.isAvailable ip none = d.isAvailable ip (some pre) := by
  cases pre with
  | nil => exact absurd rfl (getPrefix_ne_nil h)
  | cons c cs => simp [isAvailable, h]

theorem available_of_isAvailable (h : d.getPrefix = .ok pre)
    (hip : d.isAvailable ip (some pre) = .ok true) : d.Available ip := by
  cases pre with
  | nil => exact absurd rfl (getPrefix_ne_nil h)
  | cons c cs =>
      simp only [isAvailable, except_pure, except_ok_bind] at hip
      by_cases hreject : ¬ ((c :: cs).isPrefixOf ip = true) ∨ ip ∈ [d.router, d.serverAddress]
      · rw [if_pos hreject, Except.ok.injEq] at hip
        cases hip
      · rw [if_neg hreject, Except.ok.injEq, decide_eq_true_iff] at hip
        rw [not_or, not_not, List.mem_cons, List.mem_singleton, not_or] at hreject
        exact ⟨⟨c :: cs, h, hreject.1⟩, hreject.2.1, hreject.2.2, hip⟩

theorem available_of_isAvailable_none (hip : d.isAvailable ip none = .ok true) :
    d.Available ip := by
  cases hpre : d.getPrefix with
  | ok pre => exact available_of_isAvailable hpre (isAvailable_eq hpre ▸ hip)
  | error e =>
      simp only [isAvailable, hpre] at hip
      cases hip

theorem isAvailable_of_available (h : d.Available ip) : d.isAvailable ip none = .ok true := by
  obtain ⟨pre, hpre, hbegins⟩ := h.hasPrefix
  have hnot : ¬ (¬ pre.isPrefixOf ip = true ∨ ip ∈ [d.router, d.serverAddress]) := by
    simp [hbegins, h.ne_router, h.ne_server]
  simp only [isAvailable, hpre, except_ok_bind, except_pure, if_neg hnot, h.free, not_false_eq_true,
    decide_true]

theorem of_firstAvailable {is : List Int} (h : d.firstAvailable pre is = .ok (some ip)) :
    ∃ i ∈ is, ip = pre ++ str i ∧ d.isAvailable ip (some pre) = .ok true := by
  induction is with
  | nil => cases h
  | cons i is ih =>
      rw [firstAvailable] at h
      obtain ⟨available, havailable, h⟩ := except_bind_ok_iff.mp h
      cases available with
      | true =>
          simp only [if_true, except_pure, Except.ok.injEq, Option.some_inj] at h
          subst h
          exact ⟨i, List.mem_cons_self, rfl, havailable⟩
      | false =>
          obtain ⟨j, hj, hrest⟩ := ih h
          exact ⟨j, List.mem_cons_of_mem _ hj, hrest⟩

theorem fromPool_of_firstAvailable (hpre : d.getPrefix = .ok pre)
    (h : d.firstAvailable pre d.pool = .ok (some ip)) : d.FromPool ip := by
  obtain ⟨i, hi, heq, havailable⟩ := of_firstAvailable h
  exact ⟨available_of_isAvailable hpre havailable, pre, i, hi, hpre, heq⟩

/-- The database with another lease table. -/
def withLeases (d : Database) (leases : Leases) : Database := { d with ipAddressLeases := leases }

/-- What cleaning may do: nothing, or drop one lease that ran out. -/
def Cleaned (now : Int) (d d' : Database) : Prop :=
  d' = d ∨ ∃ ip lease, d.ipAddressLeases.get? ip = some lease ∧ lease.expiredTime < now ∧
    d' = d.withLeases (d.ipAddressLeases.erase ip)

/-- Cleaning leaves a lease alone that did not run out. -/
theorem get?_of_cleaned {now : Int} {d' : Database} {lease : IPAddressLease}
    (h : Cleaned now d d') (hget : d.ipAddressLeases.get? ip = some lease) :
    d'.ipAddressLeases.get? ip = some lease ∨ lease.expiredTime < now := by
  obtain rfl | ⟨gone, expired, hgone, hlt, rfl⟩ := h
  · exact Or.inl hget
  · by_cases heq : ip = gone
    · subst heq
      rw [hget, Option.some_inj] at hgone
      subst hgone
      exact Or.inr hlt
    · exact Or.inl ((Dict.get?_erase_of_ne heq).trans hget)

/-- Cleaning changes the lease table only. -/
theorem withLeases_of_cleaned {now : Int} {d' : Database} (h : Cleaned now d d') :
    ∃ leases, d' = d.withLeases leases := by
  obtain rfl | ⟨gone, expired, -, -, rfl⟩ := h
  · exact ⟨_, rfl⟩
  · exact ⟨_, rfl⟩

theorem getPrefix_of_cleaned {now : Int} {d' : Database} (h : Cleaned now d d') :
    d'.getPrefix = d.getPrefix := by
  obtain rfl | ⟨ip, lease, -, -, rfl⟩ := h
  · rfl
  · rfl

end Database

-- ============================================================================
-- Programs on the database
-- ============================================================================

open Database

theorem wp_updateLeases {f : Leases → Leases} {Q : Unit → State → Prop} {R : Exn → State → Prop}
    {s : State} : wp (updateLeases f) Q R s ↔
      Q () { s with
        database := s.database.withLeases (f s.database.ipAddressLeases)
        file := s.database.withLeases (f s.database.ipAddressLeases) } := Iff.rfl

/-- The packet, when it encodes. -/
def broadcasted (packet : DHCPPacket) : List DHCPPacket :=
  match packet.toBytes with
  | .ok _ => [packet]
  | .error _ => []

theorem wp_broadcast {packet : DHCPPacket} {P : State → Prop} {s : State}
    (h : ∀ t, t.database = s.database → t.sent = s.sent ++ broadcasted packet → P t) :
    wp (broadcast packet) (fun _ t => P t) (fun _ t => P t) s := by
  rw [broadcast, wp_bind, wp_lift]
  constructor
  · intro bs hbs
    rw [wp_modify]
    exact h _ rfl (by simp [broadcasted, hbs])
  · intro e he
    exact h _ rfl (by simp [broadcasted, he])

/-- The state differs from `s` in its database only, which is a cleaned one. -/
def CleanedTo (now : Int) (s t : State) : Prop :=
  Cleaned now s.database t.database ∧ t.sent = s.sent

theorem CleanedTo.refl (now : Int) (s : State) : CleanedTo now s s := ⟨Or.inl rfl, rfl⟩

theorem wp_cleanIpAddressLeases {now : Int} {s : State} :
    wp (cleanIpAddressLeases now) (fun _ t => CleanedTo now s t) (fun _ t => CleanedTo now s t)
      s := by
  rw [cleanIpAddressLeases, wp_bind, wp_get]
  split
  · next ip lease hfind =>
      have hexpired : now > lease.expiredTime := by simpa using List.find?_some hfind
      have hmem := (Dict.mem_entries_iff _ _ _).mp (List.mem_of_find?_eq_some hfind)
      rw [wp_bind, wp_updateLeases, wp_pure]
      exact ⟨Or.inr ⟨ip, lease, hmem, hexpired, rfl⟩, rfl⟩
  · rw [wp_pure]
    exact CleanedTo.refl now s

/-- The scan returns an address of the pool that is available when it ends. -/
theorem wp_scanPool {now : Int} {pre : Str} {s : State} (hpre : s.database.getPrefix = .ok pre) :
    wp (scanPool now pre)
      (fun r t => CleanedTo now s t ∧ ∀ ip, r = some ip → t.database.FromPool ip)
      (fun _ t => CleanedTo now s t) s := by
  have hself := CleanedTo.refl now s
  rw [scanPool, wp_bind, wp_get, wp_bind, wp_lift]
  refine ⟨fun found hfound => ?_, fun _ _ => hself⟩
  cases found with
  | some yourIP =>
      rw [wp_pure]
      refine ⟨hself, fun ip hip => ?_⟩
      cases hip
      exact fromPool_of_firstAvailable hpre hfound
  | none =>
      show wp _ _ _ s
      rw [wp_bind]
      refine wp_mono wp_cleanIpAddressLeases (fun cleaned t ht => ?_) fun _ _ ht => ht
      rw [wp_ite]
      refine ⟨fun _ => ?_, fun _ => ⟨ht, fun ip hip => by cases hip⟩⟩
      rw [wp_bind, wp_get, wp_lift]
      refine ⟨fun r hr => ⟨ht, fun ip hip => ?_⟩, fun _ _ => ht⟩
      subst hip
      exact fromPool_of_firstAvailable ((getPrefix_of_cleaned ht.1).trans hpre) hr

/-- `get_ip` returns the wanted address when it is available, else one of the pool. -/
theorem wp_getIp {now : Int} {wantIp : Option Str} {s : State} :
    wp (getIp now wantIp)
      (fun r t => CleanedTo now s t ∧ ∀ ip, r = some ip →
        (wantIp = some ip ∧ t.database = s.database ∧ s.database.Available ip) ∨
          t.database.FromPool ip)
      (fun _ t => CleanedTo now s t) s := by
  have hself := CleanedTo.refl now s
  rw [getIp, wp_bind, wp_get, wp_bind, wp_lift]
  refine ⟨fun pre hpre => ?_, fun _ _ => hself⟩
  have hscan : wp (scanPool now pre)
      (fun r t => CleanedTo now s t ∧ ∀ ip, r = some ip →
        (wantIp = some ip ∧ t.database = s.database ∧ s.database.Available ip) ∨
          t.database.FromPool ip)
      (fun _ t => CleanedTo now s t) s :=
    wp_mono (wp_scanPool hpre) (fun r t ht => ⟨ht.1, fun ip hip => Or.inr (ht.2 ip hip)⟩)
      fun _ _ ht => ht
  split
  · exact hscan
  · exact hscan
  · next want _ =>
      rw [wp_bind, wp_lift]
      refine ⟨fun available havailable => ?_, fun _ _ => hself⟩
      rw [wp_ite]
      refine ⟨fun hyes => ?_, fun _ => hscan⟩
      subst hyes
      rw [wp_pure]
      refine ⟨hself, fun ip hip => Or.inl ⟨hip, rfl, ?_⟩⟩
      cases hip
      exact available_of_isAvailable hpre havailable

-- ============================================================================
-- Replies
-- ============================================================================

/-- The packet is of the given type. -/
def DHCPPacket.HasType (q : DHCPPacket) (t : MessageType) : Prop :=
  q.options.get? .messageType = some (.messageType t)

instance (q : DHCPPacket) (t : MessageType) : Decidable (q.HasType t) :=
  inferInstanceAs (Decidable (q.options.get? .messageType = some (.messageType t)))

theorem DHCPPacket.HasType.unique {q : DHCPPacket} {t t' : MessageType} (h : q.HasType t)
    (h' : q.HasType t') : t = t' := by
  rw [DHCPPacket.HasType] at h h'
  rw [h] at h'
  cases h'
  rfl

theorem get?_addAsked_of_ne {asked : Bool} {key key' : DHCPOptionKey} {address : Option Str}
    {options : Options} (h : key' ≠ key) :
    (addAsked asked key address options).get? key' = options.get? key' := by
  unfold addAsked
  split
  · exact Dict.get?_set_of_ne h
  · rfl

/-- The additional options leave the message type alone. -/
theorem messageType_createAdditionalOptions (d : Database) (q : DHCPPacket) :
    (createAdditionalOptions d q).get? .messageType = none := by
  unfold createAdditionalOptions
  split
  · simp [get?_addAsked_of_ne, Dict.get?_set]
  · simp [Dict.get?_set]

theorem hasType_addOptions {d : Database} {q : DHCPPacket} {t : MessageType} :
    (q.addOptions d).HasType t ↔ q.HasType t := by
  simp only [DHCPPacket.HasType, DHCPPacket.addOptions, Dict.get?_update,
    messageType_createAdditionalOptions, Option.none_or]

theorem hasType_offerPacket (d : Database) (q : DHCPPacket) (ip : Str) :
    (offerPacket d q ip).HasType .offer := by
  rw [offerPacket, hasType_addOptions]
  exact Dict.get?_set_self _ _ _

theorem hasType_nakPacket (d : Database) (q : DHCPPacket) : (nakPacket d q).HasType .nak := by
  show Dict.get? _ DHCPOptionKey.messageType = _
  simp only [nakPacket, Dict.get?_set, reduceCtorEq, if_false, if_true]

theorem hasType_ackPacket (d : Database) (q : DHCPPacket) (client your : Str) :
    (ackPacket d q client your).HasType .ack := by
  rw [ackPacket, hasType_addOptions]
  exact Dict.get?_set_self _ _ _

-- ============================================================================
-- The turn of the loop
-- ============================================================================

theorem of_handleRequestValidation {d : Database} {q : DHCPPacket} {ip : Str}
    (h : handleRequestValidation d q = .ok (some ip)) :
    requestedIPAddress q = .ok (some ip) ∧ d.Available ip := by
  rw [handleRequestValidation] at h
  split at h
  · cases h
  · obtain ⟨requested, hrequested, h⟩ := except_bind_ok_iff.mp h
    cases requested with
    | none => cases h
    | some asked =>
        obtain ⟨available, havailable, h⟩ := except_bind_ok_iff.mp h
        cases available with
        | false => cases h
        | true =>
            cases h
            exact ⟨hrequested, available_of_isAvailable_none havailable⟩

/-- What a packet does to the database, and what is broadcast. -/
inductive Outcome (now : Int) (q : DHCPPacket) (d : Database) :
    Database → List DHCPPacket → Prop where
  | silent : Outcome now q d d []
  | cleaned {d' : Database} (htype : q.HasType .discover) (h : Cleaned now d d') :
      Outcome now q d d' []
  | offered {d' : Database} {ip : Str} (htype : q.HasType .discover) (h : Cleaned now d d')
      (hip : (requestedIPAddress q = .ok (some ip) ∧ d' = d ∧ d.Available ip) ∨
        d'.FromPool ip) :
      Outcome now q d d' (broadcasted (offerPacket d' q ip))
  | refused (htype : q.HasType .request) : Outcome now q d d (broadcasted (nakPacket d q))
  | leased {ip : Str} (htype : q.HasType .request)
      (hclient : q.clientIPAddress ∉ d.ipAddressLeases.keys)
      (hvalid : handleRequestValidation d q = .ok (some ip)) :
      Outcome now q d (d.withLeases (d.ipAddressLeases.set ip ⟨now + d.leaseTime⟩))
        (broadcasted (ackPacket d q "0.0.0.0".toList ip))
  | renewed (htype : q.HasType .request) (hclient : q.clientIPAddress ∈ d.ipAddressLeases.keys) :
      Outcome now q d
        (d.withLeases (d.ipAddressLeases.set q.clientIPAddress ⟨now + d.leaseTime⟩))
        (broadcasted (ackPacket d q q.clientIPAddress q.clientIPAddress))
  | released (htype : q.HasType .release) (hclient : q.clientIPAddress ∈ d.ipAddressLeases.keys) :
      Outcome now q d (d.withLeases (d.ipAddressLeases.erase q.clientIPAddress)) []

/-- The turn of the loop on a packet leads from `s` to `t`. -/
def Effect (now : Int) (q : DHCPPacket) (s t : State) : Prop :=
  ∃ sent, Outcome now q s.database t.database sent ∧ t.sent = s.sent ++ sent

theorem Effect.silent (now : Int) (q : DHCPPacket) (s : State) : Effect now q s s :=
  ⟨[], .silent, (List.append_nil _).symm⟩

variable {now : Int} {q : DHCPPacket} {s : State}

theorem wp_handleDiscover (htype : q.HasType .discover) :
    wp (handleDiscover now q) (fun _ t => Effect now q s t) (fun _ t => Effect now q s t) s := by
  have hcleaned : ∀ t, CleanedTo now s t → Effect now q s t := fun t ht =>
    ⟨[], .cleaned htype ht.1, by rw [ht.2, List.append_nil]⟩
  rw [handleDiscover, wp_bind, wp_lift]
  refine ⟨fun requested hrequested => ?_, fun _ _ => Effect.silent now q s⟩
  rw [wp_bind]
  refine wp_mono wp_getIp (fun r t ht => ?_) fun _ t ht => hcleaned t ht
  split
  · exact hcleaned t ht.1
  · exact hcleaned t ht.1
  · next ip _ =>
      rw [wp_bind, wp_get]
      refine wp_broadcast fun u hdatabase hsent => ?_
      refine ⟨_, ?_, by rw [hsent, ht.1.2]⟩
      rw [hdatabase]
      refine .offered htype ht.1.1 ?_
      rcases ht.2 ip rfl with ⟨rfl, hsame, havailable⟩ | hpool
      · exact Or.inl ⟨hrequested, hsame, havailable⟩
      · exact Or.inr hpool

theorem wp_grant {client ip : Str} {P : State → Prop}
    (h : ∀ t, t.database = s.database.withLeases
        (s.database.ipAddressLeases.set ip ⟨now + s.database.leaseTime⟩) →
      t.sent = s.sent ++ broadcasted (ackPacket s.database q client ip) → P t) :
    wp (grant now q client ip) (fun _ t => P t) (fun _ t => P t) s := by
  rw [grant, wp_bind, wp_get, wp_bind, wp_updateLeases]
  exact wp_broadcast fun t hdatabase hsent => h t hdatabase hsent

theorem wp_handleRequest (htype : q.HasType .request)
    (hclient : q.clientIPAddress ∉ s.database.ipAddressLeases.keys) :
    wp (handleRequest now q) (fun _ t => Effect now q s t) (fun _ t => Effect now q s t) s := by
  rw [handleRequest, wp_bind, wp_get, wp_bind, wp_lift]
  refine ⟨fun valid hvalid => ?_, fun _ _ => Effect.silent now q s⟩
  cases valid with
  | none =>
      refine wp_broadcast fun t hdatabase hsent => ⟨_, ?_, hsent⟩
      rw [hdatabase]
      exact .refused htype
  | some ip =>
      refine wp_grant fun t hdatabase hsent => ⟨_, ?_, hsent⟩
      rw [hdatabase]
      exact .leased htype hclient hvalid

theorem wp_handleRenewalRequest (htype : q.HasType .request)
    (hclient : q.clientIPAddress ∈ s.database.ipAddressLeases.keys) :
    wp (handleRenewalRequest now q) (fun _ t => Effect now q s t) (fun _ t => Effect now q s t)
      s := by
  refine wp_grant fun t hdatabase hsent => ⟨_, ?_, hsent⟩
  rw [hdatabase]
  exact .renewed htype hclient

theorem wp_handleRelease (htype : q.HasType .release) :
    wp (handleRelease q) (fun _ t => Effect now q s t) (fun _ t => Effect now q s t) s := by
  rw [handleRelease, wp_bind, wp_get, wp_ite]
  refine ⟨fun _ => Effect.silent now q s, fun hclient => ?_⟩
  rw [wp_updateLeases]
  exact ⟨[], .released htype (not_not.mp hclient), (List.append_nil _).symm⟩

theorem wp_dispatch :
    wp (dispatch now q) (fun _ t => Effect now q s t) (fun _ t => Effect now q s t) s := by
  unfold dispatch
  split
  · exact Effect.silent now q s
  · next reqType htype =>
      cases reqType with
      | discover => exact wp_handleDiscover htype
      | request =>
          simp only
          rw [wp_bind, wp_get, wp_ite]
          exact ⟨wp_handleRequest htype, fun h => wp_handleRenewalRequest htype (not_not.mp h)⟩
      | release => exact wp_handleRelease htype
      | _ => exact Effect.silent now q s
  · exact Effect.silent now q s

/-- One turn of the loop: the datagram is dropped, or its packet has its effect. -/
theorem wp_iteration {data : Bytes} {P : State → Prop} (hself : P s)
    (h : ∀ q t, recvfrom data = .ok (some q) → Effect now q s t → P t) :
    wp (iteration data now) (fun _ t => P t) (fun _ t => P t) s := by
  rw [iteration, wp_bind, wp_lift]
  refine ⟨fun packet hpacket => ?_, fun _ _ => hself⟩
  cases packet with
  | none => exact hself
  | some q => exact wp_mono wp_dispatch (fun _ t => h q t hpacket) fun _ t => h q t hpacket

theorem state_afterDatagram (r : EStateM.Result Exn State Unit) :
    (afterDatagram r).state = final r := by
  cases r <;> rfl

/-- Taking a step on a datagram apart. -/
theorem effect_of_step {s u : Server} {data : Bytes} (h : step s (.datagram data now) = some u) :
    u.state = s.state ∨ ∃ q, recvfrom data = .ok (some q) ∧ Effect now q s.state u.state := by
  rw [step] at h
  split at h
  · rw [Option.some_inj] at h
    rw [← h, state_afterDatagram]
    let P (t : State) : Prop :=
      t = s.state ∨ ∃ q, recvfrom data = .ok (some q) ∧ Effect now q s.state t
    have hself : P s.state := Or.inl rfl
    have hturn : wp (iteration data now) (fun _ t => P t) (fun _ t => P t) s.state :=
      wp_iteration hself fun q t hq ht => Or.inr ⟨q, hq, ht⟩
    exact final_of_wp hturn
  · cases h

/-- Nothing happens while nothing arrives. -/
theorem eq_of_timeout {s u : Server} (h : step s .timeout = some u) : u = s := by
  rw [step] at h
  split at h
  · exact (Option.some.inj h).symm
  · cases h

-- ============================================================================
-- Entries of the table
-- ============================================================================

variable {u : State} {ip : Str} {lease : IPAddressLease}

/-- A packet changes the lease table only, not the configuration. -/
theorem withLeases_of_effect (heffect : Effect now q s u) :
    ∃ leases, u.database = s.database.withLeases leases := by
  obtain ⟨sent, houtcome, -⟩ := heffect
  generalize u.database = d at houtcome ⊢
  cases houtcome with
  | cleaned _ hc => exact withLeases_of_cleaned hc
  | offered _ hc _ => exact withLeases_of_cleaned hc
  | _ => exact ⟨_, rfl⟩

/-- What becomes of an entry of the table: it stays as it is, is renewed, is released, or
    it had run out. -/
theorem entry_of_effect (heffect : Effect now q s u)
    (hget : s.database.ipAddressLeases.get? ip = some lease) :
    u.database.ipAddressLeases.get? ip = some lease ∨
      u.database.ipAddressLeases.get? ip = some ⟨now + s.database.leaseTime⟩ ∨
      (q.HasType .release ∧ q.clientIPAddress = ip) ∨ lease.expiredTime < now := by
  have hcleaned : ∀ d, Cleaned now s.database d → d.ipAddressLeases.get? ip = some lease ∨
      d.ipAddressLeases.get? ip = some ⟨now + s.database.leaseTime⟩ ∨
      (q.HasType .release ∧ q.clientIPAddress = ip) ∨ lease.expiredTime < now := by
    intro d hc
    rcases get?_of_cleaned hc hget with hsame | hlt
    · exact Or.inl hsame
    · exact Or.inr (Or.inr (Or.inr hlt))
  have hset : ∀ ip', (s.database.ipAddressLeases.set ip' ⟨now + s.database.leaseTime⟩).get? ip =
        some lease ∨
      (s.database.ipAddressLeases.set ip' ⟨now + s.database.leaseTime⟩).get? ip =
        some ⟨now + s.database.leaseTime⟩ := by
    intro ip'
    by_cases heq : ip = ip'
    · subst heq
      exact Or.inr (Dict.get?_set_self _ _ _)
    · exact Or.inl ((Dict.get?_set_of_ne heq).trans hget)
  obtain ⟨sent, houtcome, -⟩ := heffect
  generalize u.database = d at houtcome ⊢
  cases houtcome with
  | silent => exact Or.inl hget
  | cleaned _ hc => exact hcleaned _ hc
  | offered _ hc _ => exact hcleaned _ hc
  | refused _ => exact Or.inl hget
  | @leased ip' _ _ _ => exact (hset ip').imp_right Or.inl
  | renewed _ _ => exact (hset q.clientIPAddress).imp_right Or.inl
  | released hrelease _ =>
      by_cases heq : q.clientIPAddress = ip
      · exact Or.inr (Or.inr (Or.inl ⟨hrelease, heq⟩))
      · exact Or.inl ((Dict.get?_erase_of_ne (Ne.symm heq)).trans hget)

/-- Where an entry of the table comes from: it was there, or it is given now, to an address
    that was in the table or available. -/
theorem origin_of_effect (heffect : Effect now q s u)
    (hget : u.database.ipAddressLeases.get? ip = some lease) :
    s.database.ipAddressLeases.get? ip = some lease ∨
      lease = ⟨now + s.database.leaseTime⟩ ∧
        (ip ∈ s.database.ipAddressLeases.keys ∨ s.database.Available ip) := by
  have herase : ∀ gone, (s.database.ipAddressLeases.erase gone).get? ip = some lease →
      s.database.ipAddressLeases.get? ip = some lease := by
    intro gone h
    rw [Dict.get?_erase] at h
    split at h
    · cases h
    · exact h
  have hcleaned : ∀ d, Cleaned now s.database d → d.ipAddressLeases.get? ip = some lease →
      s.database.ipAddressLeases.get? ip = some lease := by
    rintro d (rfl | ⟨gone, expired, -, -, rfl⟩) h
    · exact h
    · exact herase gone h
  have hset : ∀ ip', (ip' ∈ s.database.ipAddressLeases.keys ∨ s.database.Available ip') →
      (s.database.ipAddressLeases.set ip' ⟨now + s.database.leaseTime⟩).get? ip = some lease →
      s.database.ipAddressLeases.get? ip = some lease ∨
        lease = ⟨now + s.database.leaseTime⟩ ∧
          (ip ∈ s.database.ipAddressLeases.keys ∨ s.database.Available ip) := by
    intro ip' hip' h
    rw [Dict.get?_set] at h
    split at h
    · next heq => exact Or.inr ⟨(Option.some.inj h).symm, heq ▸ hip'⟩
    · exact Or.inl h
  obtain ⟨sent, houtcome, -⟩ := heffect
  generalize u.database = d at houtcome hget
  cases houtcome with
  | silent => exact Or.inl hget
  | cleaned _ hc => exact Or.inl (hcleaned _ hc hget)
  | offered _ hc _ => exact Or.inl (hcleaned _ hc hget)
  | refused _ => exact Or.inl hget
  | leased _ _ hvalid => exact hset _ (Or.inr (of_handleRequestValidation hvalid).2) hget
  | renewed _ hclient => exact hset _ (Or.inl hclient) hget
  | released _ _ => exact Or.inl (herase _ hget)

end Dhcp
end NetworkingFinal
