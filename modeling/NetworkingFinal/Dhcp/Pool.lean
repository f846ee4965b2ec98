/-
  NetworkingFinal.Dhcp.Pool

  Which addresses the server hands out.  The scan of the pool stays in the configured
  range, but an address that a client asks for is only tested for the prefix
  (`is_available`), so any address of the network can be offered and leased.

  `addresses_from_pool`: as long as every address that is asked for and available is one
  of the pool, all offered, acknowledged and leased addresses are.
-/
import NetworkingFinal.Dhcp.Effect
import NetworkingFinal.Lib.Runs

namespace NetworkingFinal
namespace Dhcp

open Py Lib Database

/-- An address of the configured range that is neither the router nor the server. -/
def PoolAddress (d : Database) (ip : Str) : Prop :=
  ∃ pre i, d.getPrefix = .ok pre ∧ d.poolRange.1 ≤ i ∧ i ≤ d.poolRange.2 ∧ ip = pre ++ str i ∧
    ip ≠ d.router ∧ ip ≠ d.serverAddress

/-- Going through the pool tells whether an address is in it. -/
instance (d : Database) (ip : Str) : Decidable (PoolAddress d ip) :=
  match hpre : d.getPrefix with
  | .ok pre => decidable_of_iff
      (ip ∈ d.pool.map (pre ++ str ·) ∧ ip ≠ d.router ∧ ip ≠ d.serverAddress) <| by
        rw [List.mem_map]
        constructor
        · rintro ⟨⟨i, hi, rfl⟩, hrouter, hserver⟩
          rw [pool, mem_range_iff] at hi
          have hhi : i ≤ d.poolRange.2 := by omega
          exact ⟨pre, i, hpre, hi.1, hhi, rfl, hrouter, hserver⟩
        · rintro ⟨pre', i, hpre', hlo, hhi, rfl, hrouter, hserver⟩
          rw [hpre, Except.ok.injEq] at hpre'
          subst hpre'
          have hi : i ∈ d.pool := by
            rw [pool, mem_range_iff]
            omega
          exact ⟨⟨i, hi, rfl⟩, hrouter, hserver⟩
  | .error e => isFalse <| by
      rintro ⟨pre, i, hpre', -⟩
      rw [hpre] at hpre'
      cases hpre'

theorem poolAddress_of_fromPool {d : Database} {ip : Str} (h : d.FromPool ip) :
    PoolAddress d ip := by
  obtain ⟨havailable, pre, i, hi, hpre, heq⟩ := h
  rw [pool, mem_range_iff] at hi
  have hhi : i ≤ d.poolRange.2 := by omega
  exact ⟨pre, i, hpre, hi.1, hhi, heq, havailable.ne_router, havailable.ne_server⟩

/-- What a packet asks for, where asking is enough to get it, is in the pool. -/
structure AsksInPool (d : Database) (q : DHCPPacket) : Prop where
  discover : q.HasType .discover → ∀ ip, requestedIPAddress q = .ok (some ip) → d.Available ip →
    PoolAddress d ip
  request : q.HasType .request → q.clientIPAddress ∉ d.ipAddressLeases.keys →
    ∀ ip, handleRequestValidation d q = .ok (some ip) → PoolAddress d ip

/-- The packet of the datagram, if it has one, asks for an address of the pool. -/
def EventInPool (s : Server) : Event → Prop
  | .datagram data _ => ∀ q, recvfrom data = .ok (some q) → AsksInPool s.state.database q
  | .timeout => True

/-- Every leased address is in the pool, and so is every address offered or
    acknowledged. -/
structure AllInPool (s : State) : Prop where
  leases : ∀ ip ∈ s.database.ipAddressLeases.keys, PoolAddress s.database ip
  replies : ∀ p ∈ s.sent, p.HasType .offer ∨ p.HasType .ack → PoolAddress s.database p.yourIPAddress

-- ============================================================================
-- One turn of the loop
-- ============================================================================

theorem mem_broadcasted {p packet : DHCPPacket} (h : p ∈ broadcasted packet) : p = packet := by
  unfold broadcasted at h
  split at h
  · exact List.mem_singleton.mp h
  · cases h

theorem toBytes_of_mem_broadcasted {p packet : DHCPPacket} (h : p ∈ broadcasted packet) :
    ∃ data, packet.toBytes = .ok data := by
  unfold broadcasted at h
  split at h
  · next data hdata => exact ⟨data, hdata⟩
  · cases h

/-- New leases keep the pool as it is. -/
theorem AllInPool.extend {s t : State} {sent : List DHCPPacket} (h : AllInPool s)
    (hdatabase : ∃ leases, t.database = s.database.withLeases leases)
    (hsent : t.sent = s.sent ++ sent)
    (hkeys : ∀ ip ∈ t.database.ipAddressLeases.keys,
      ip ∈ s.database.ipAddressLeases.keys ∨ PoolAddress s.database ip)
    (hnew : ∀ p ∈ sent, p.HasType .offer ∨ p.HasType .ack →
      PoolAddress s.database p.yourIPAddress) : AllInPool t := by
  obtain ⟨leases, hleases⟩ := hdatabase
  have hpool : ∀ ip, PoolAddress s.database ip → PoolAddress t.database ip := by
    intro ip hip
    rw [hleases]
    exact hip
  constructor
  · intro ip hip
    rcases hkeys ip hip with hold | hnew
    · exact hpool ip (h.leases ip hold)
    · exact hpool ip hnew
  · intro p hp htype
    rw [hsent, List.mem_append] at hp
    rcases hp with hold | hp
    · exact hpool _ (h.replies p hold htype)
    · exact hpool _ (hnew p hp htype)

theorem cleaned_eq {now : Int} {d d' : Database} (h : Cleaned now d d') :
    ∃ leases, d' = d.withLeases leases ∧ ∀ ip ∈ leases.keys, ip ∈ d.ipAddressLeases.keys := by
  obtain rfl | ⟨gone, lease, -, -, rfl⟩ := h
  · exact ⟨d'.ipAddressLeases, rfl, fun ip hip => hip⟩
  · exact ⟨_, rfl, fun ip hip => ((Dict.mem_keys_erase _ _ _).mp hip).2⟩

/-- Storing a lease for an address of the pool. -/
theorem keys_set_inPool {d : Database} {ip : Str} {lease : IPAddressLease}
    (hip : PoolAddress d ip) : ∀ ip' ∈ (d.ipAddressLeases.set ip lease).keys,
      ip' ∈ d.ipAddressLeases.keys ∨ PoolAddress d ip' := by
  intro ip' hip'
  rcases (Dict.mem_keys_set _ _ _ _).mp hip' with rfl | hold
  · exact Or.inr hip
  · exact Or.inl hold

theorem AllInPool.effect {now : Int} {q : DHCPPacket} {s t : State} (h : AllInPool s)
    (hasks : AsksInPool s.database q) (heffect : Effect now q s t) : AllInPool t := by
  obtain ⟨sent, houtcome, hsent⟩ := heffect
  generalize hd : t.database = d at houtcome
  cases houtcome with
  | silent =>
      exact h.extend ⟨_, hd⟩ hsent (fun ip hip => Or.inl (hd ▸ hip)) fun p hp => by cases hp
  | cleaned _ hcleaned =>
      obtain ⟨leases, rfl, hkeys⟩ := cleaned_eq hcleaned
      refine h.extend ⟨leases, hd⟩ hsent (fun ip hip => Or.inl (hkeys ip ?_)) fun p hp => by
        cases hp
      rwa [hd] at hip
  | @offered _ ip htype hcleaned hip =>
      obtain ⟨leases, rfl, hkeys⟩ := cleaned_eq hcleaned
      refine h.extend ⟨leases, hd⟩ hsent (fun ip hip => Or.inl (hkeys ip ?_)) fun p hp _ => ?_
      · rwa [hd] at hip
      · rw [mem_broadcasted hp]
        show PoolAddress s.database ip
        rcases hip with ⟨hasked, -, havailable⟩ | hpool
        · exact hasks.discover htype ip hasked havailable
        · have hin := poolAddress_of_fromPool hpool
          exact hin
  | refused _ =>
      refine h.extend ⟨_, hd⟩ hsent (fun ip hip => Or.inl (hd ▸ hip)) fun p hp htype => ?_
      rw [mem_broadcasted hp] at htype
      rcases htype with htype | htype
      · cases htype.unique (hasType_nakPacket _ _)
      · cases htype.unique (hasType_nakPacket _ _)
  | @leased ip htype hclient hvalid =>
      have hpool := hasks.request htype hclient ip hvalid
      refine h.extend ⟨_, hd⟩ hsent (hd ▸ keys_set_inPool hpool) fun p hp _ => ?_
      rw [mem_broadcasted hp]
      exact hpool
  | renewed _ hclient =>
      have hpool := h.leases _ hclient
      refine h.extend ⟨_, hd⟩ hsent (hd ▸ keys_set_inPool hpool) fun p hp _ => ?_
      rw [mem_broadcasted hp]
      exact hpool
  | released _ _ =>
      refine h.extend ⟨_, hd⟩ hsent (fun ip hip => Or.inl ?_) (fun p hp => by cases hp)
      rw [hd] at hip
      exact ((Dict.mem_keys_erase _ _ _).mp hip).2

theorem AllInPool.step {s u : Server} {e : Event} (h : AllInPool s.state) (he : EventInPool s e)
    (hstep : step s e = some u) : AllInPool u.state := by
  cases e with
  | datagram data now =>
      rcases effect_of_step hstep with hsame | ⟨q, hq, heffect⟩
      · rw [hsame]
        exact h
      · exact h.effect (he q hq) heffect
  | timeout =>
      rw [eq_of_timeout hstep]
      exact h

-- ============================================================================
-- Runs
-- ============================================================================

/-- Started with a lease table of pool addresses, the server hands out and leases pool
    addresses only, as long as no client asks for another available one. -/
theorem addresses_from_pool (d : Database)
    (hinit : ∀ ip ∈ d.ipAddressLeases.keys, PoolAddress d ip) (es : List Event) (s : Server)
    (h : exec step (Server.init d) es = some s)
    (hasks : AllSteps step EventInPool (Server.init d) es) : AllInPool s.state := by
  apply exec_invariant_of (fun s => AllInPool s.state) EventInPool _ _ hasks h
  · exact ⟨hinit, fun p hp => by cases hp⟩
  · intro t e u ht he hstep
    exact ht.step he hstep

/-- A packet of the client with the given hardware address. -/
def clientPacket (type : MessageType) (ethernet : UInt8) (client : Str) (asked : Option Str) :
    DHCPPacket where
  op := 1
  htype := 1
  hlen := 6
  hops := 0
  xid := 1
  secs := 0
  flags := 0
  clientIPAddress := client
  yourIPAddress := "0.0.0.0".toList
  serverIPAddress := "0.0.0.0".toList
  gatewayIPAddress := "0.0.0.0".toList
  clientEthernetAddress := List.replicate 16 ethernet
  magicCookie := 0x63538263
  options :=
    match asked with
    | some ip =>
        (Dict.empty.set .messageType (.messageType type)).set .requestedIPAddress (.str ip)
    | none => Dict.empty.set .messageType (.messageType type)

/-- The datagram with a packet, arriving at the given second. -/
def arrival (packet : DHCPPacket) (now : Int) : Event :=
  match packet.toBytes with
  | .ok data => .datagram data now
  | .error _ => .timeout

/-- A Request for an address of the default pool. -/
def requestTwenty : DHCPPacket :=
  clientPacket .request 1 "0.0.0.0".toList (some "192.168.100.20".toList)

theorem addresses_from_pool_requestTwenty :
    ∃ s, exec step (Server.init {}) [arrival requestTwenty 0] = some s ∧
      s.state.database.ipAddressLeases.keys = ["192.168.100.20".toList] ∧ AllInPool s.state := by
  have hrun : (exec step (Server.init {}) [arrival requestTwenty 0]).map
      (fun s => s.state.database.ipAddressLeases.keys) = some ["192.168.100.20".toList] := by
    decide +kernel
  obtain ⟨data, hdata, hpacket⟩ : ∃ data, arrival requestTwenty 0 = .datagram data 0 ∧
      recvfrom data = .ok (some requestTwenty) :=
    ⟨requestTwenty.toBytes.toOption.getD [], by decide +kernel, by decide +kernel⟩
  have hvalid : handleRequestValidation {} requestTwenty = .ok (some "192.168.100.20".toList) := by
    decide +kernel
  have hin : PoolAddress {} "192.168.100.20".toList := by decide +kernel
  have hasks : AsksInPool {} requestTwenty := by
    constructor
    · intro htype
      exact absurd htype (by decide +kernel)
    · intro _ _ ip hip
      rw [hvalid] at hip
      cases hip
      exact hin
  obtain ⟨s, hs, hkeys⟩ := Option.map_eq_some_iff.mp hrun
  refine ⟨s, hs, hkeys, addresses_from_pool {} (fun ip hip => by cases hip) _ s hs ?_⟩
  apply allSteps_cons
  · rw [hdata]
    intro q hq
    rw [hpacket] at hq
    cases hq
    exact hasks
  · intro t _
    exact allSteps_nil

/-- A Discover that asks for an address of the network outside the default pool. -/
def discoverTwoHundred : DHCPPacket :=
  clientPacket .discover 1 "0.0.0.0".toList (some "192.168.100.200".toList)

/-- The address is offered although it is not in the pool. -/
theorem not_addresses_from_pool_strayDiscover :
    ∃ s, exec step (Server.init {}) [arrival discoverTwoHundred 0] = some s ∧
      (s.state.sent.map fun p => (p.options.get? .messageType, p.yourIPAddress)) =
        [(some (.messageType .offer), "192.168.100.200".toList)] ∧
      ¬ AllInPool s.state := by
  have hrun : (exec step (Server.init {}) [arrival discoverTwoHundred 0]).map
      (fun s => (s.state.sent.map fun p => (p.options.get? .messageType, p.yourIPAddress),
        s.state.database)) =
      some ([(some (.messageType .offer), "192.168.100.200".toList)], {}) := by
    decide +kernel
  obtain ⟨s, hs, heq⟩ := Option.map_eq_some_iff.mp hrun
  obtain ⟨hsent, hdatabase⟩ := Prod.mk.inj heq
  refine ⟨s, hs, hsent, fun hall => ?_⟩
  obtain ⟨p, hp, hfields⟩ := List.map_eq_singleton_iff.mp hsent
  obtain ⟨htype, hip⟩ := Prod.mk.inj hfields
  have hpool := hall.replies p (by rw [hp]; exact List.mem_singleton.mpr rfl) (Or.inl htype)
  rw [hip, hdatabase] at hpool
  exact absurd hpool (by decide +kernel)

end Dhcp
end NetworkingFinal
