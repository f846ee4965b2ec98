/-
  NetworkingFinal.Dhcp.Leases

  Who holds an address.  The lease table does not record whose a lease is: a Request
  or a Release that names a leased address in `clientIPAddress` renews or ends the lease
  whoever sends it.

  - `Holds`: the client was sent an ACK for the address, its lease time has not run out,
    and it has not released the address since.
  - `backed_of_exec`: an address that is held is in the table, at least as long as it is
    held.
  - `lease_unique`: no address is held by two clients, as long as no client renews or
    releases an address that another one holds.

  The clock is in whole seconds, as the server reads it.  A lease given at a time
  within the second `now` ends before the second `now + lease_time + 1`, so whoever
  holds an address by an exact clock holds it by this one.
-/
import NetworkingFinal.Dhcp.Pool

namespace NetworkingFinal
namespace Dhcp

open Py Lib Database

-- ============================================================================
-- Holding an address
-- ============================================================================

/-- The clock readings of a run. -/
def clocks (es : List Event) : List Int :=
  es.filterMap fun e => match e with
    | .datagram _ now => some now
    | .timeout => none

/-- The step sends the client an ACK for the address. -/
def Acknowledges (s u : Server) (client : Bytes) (ip : Str) : Prop :=
  ∃ p, u.state.sent = s.state.sent ++ [p] ∧ p.HasType .ack ∧ p.clientEthernetAddress = client ∧
    p.yourIPAddress = ip

/-- The event is the client's Release of the address. -/
def Releases (e : Event) (client : Bytes) (ip : Str) : Prop :=
  ∃ data now q, e = .datagram data now ∧ recvfrom data = .ok (some q) ∧ q.HasType .release ∧
    q.clientEthernetAddress = client ∧ q.clientIPAddress = ip

/-- At second `t`, after the events, the client holds the address. -/
def Holds (s₀ : Server) (es : List Event) (client : Bytes) (ip : Str) (t : Int) : Prop :=
  ∃ es₁ data now es₂ s u, es = es₁ ++ .datagram data now :: es₂ ∧ exec step s₀ es₁ = some s ∧
    step s (.datagram data now) = some u ∧ Acknowledges s u client ip ∧
    t ≤ now + s.state.database.leaseTime ∧ ∀ e ∈ es₂, ¬ Releases e client ip

/-- A renewal or a release of a leased address comes from its holder, if it has one. -/
def OwnersOnly (s₀ : Server) (es : List Event) : Prop :=
  ∀ es₁ data now es₂ s q, es = es₁ ++ .datagram data now :: es₂ → exec step s₀ es₁ = some s →
    recvfrom data = .ok (some q) → q.HasType .request ∨ q.HasType .release →
    q.clientIPAddress ∈ s.state.database.ipAddressLeases.keys →
    ∀ client, Holds s₀ es₁ client q.clientIPAddress now → client = q.clientEthernetAddress

variable {s₀ : Server} {es : List Event} {e : Event} {client : Bytes} {ip : Str} {t : Int}

theorem Holds.mono {t' : Int} (h : Holds s₀ es client ip t) (ht : t' ≤ t) :
    Holds s₀ es client ip t' := by
  obtain ⟨es₁, data, now, es₂, s, u, hes, hs, hu, hack, hle, hkept⟩ := h
  exact ⟨es₁, data, now, es₂, s, u, hes, hs, hu, hack, Int.le_trans ht hle, hkept⟩

theorem OwnersOnly.of_concat (h : OwnersOnly s₀ (es ++ [e])) : OwnersOnly s₀ es := by
  intro es₁ data now es₂ s q hes
  exact h es₁ data now (es₂ ++ [e]) s q (by simp [hes])

/-- Whoever holds an address after a step held it before and has not released it now, or
    got it now. -/
theorem holds_concat {s u : Server} (hs : exec step s₀ es = some s) (hu : step s e = some u)
    (h : Holds s₀ (es ++ [e]) client ip t) :
    (Holds s₀ es client ip t ∧ ¬ Releases e client ip) ∨
    ∃ data now, e = .datagram data now ∧ Acknowledges s u client ip ∧
      t ≤ now + s.state.database.leaseTime := by
  obtain ⟨es₁, data, now, es₂, s', u', hes, hs', hu', hack, hle, hkept⟩ := h
  rcases List.eq_nil_or_concat es₂ with rfl | ⟨es₂, e', rfl⟩
  · obtain ⟨rfl, he⟩ := List.append_inj' hes rfl
    rw [List.singleton_inj] at he
    subst he
    rw [hs, Option.some_inj] at hs'
    subst hs'
    rw [hu, Option.some_inj] at hu'
    subst hu'
    exact Or.inr ⟨data, now, rfl, hack, hle⟩
  · have hsplit : es ++ [e] = (es₁ ++ .datagram data now :: es₂) ++ [e'] := by simpa using hes
    obtain ⟨rfl, he⟩ := List.append_inj' hsplit rfl
    rw [List.singleton_inj] at he
    subst he
    rw [List.concat_eq_append] at hkept
    refine Or.inl ⟨⟨es₁, data, now, es₂, s', u', rfl, hs', hu', hack, hle, fun x hx => ?_⟩, ?_⟩
    · exact hkept x (List.mem_append_left _ hx)
    · exact hkept e (List.mem_append_right _ (List.mem_singleton.mpr rfl))

-- ============================================================================
-- The invariant
-- ============================================================================

/-- The table backs a tenancy until `t`. -/
def Backed (d : Database) (ip : Str) (t : Int) : Prop :=
  ∃ lease, d.ipAddressLeases.get? ip = some lease ∧ t ≤ lease.expiredTime

/-- What the run has established: the lease time is the configured one, a held address is
    backed by the table, and it has one holder. -/
structure LeaseInv (s₀ : Server) (es : List Event) (s : Server) : Prop where
  leaseTime : s.state.database.leaseTime = s₀.state.database.leaseTime
  soon : ∀ client ip t, Holds s₀ es client ip t →
    ∃ now ∈ clocks es, t ≤ now + s₀.state.database.leaseTime
  backed : ∀ client ip t, (∀ now ∈ clocks es, now ≤ t) → Holds s₀ es client ip t →
    Backed s.state.database ip t
  unique : ∀ client client' ip t, (∀ now ∈ clocks es, now ≤ t) → Holds s₀ es client ip t →
    Holds s₀ es client' ip t → client = client'

theorem clocks_concat (es : List Event) (e : Event) :
    clocks (es ++ [e]) = clocks es ++ clocks [e] :=
  List.filterMap_append

theorem mem_clocks_concat {now : Int} (h : now ∈ clocks es) : now ∈ clocks (es ++ [e]) := by
  rw [clocks_concat]
  exact List.mem_append_left _ h

theorem not_holds_nil : ¬ Holds s₀ [] client ip t := by
  rintro ⟨es₁, data, now, es₂, s, u, hes, -⟩
  have hlen := congrArg List.length hes
  simp at hlen

theorem leaseInv_init (s₀ : Server) : LeaseInv s₀ [] s₀ where
  leaseTime := rfl
  soon _ _ _ h := (not_holds_nil h).elim
  backed _ _ _ _ h := (not_holds_nil h).elim
  unique _ _ _ _ _ h := (not_holds_nil h).elim

/-- A step that acknowledges an address leases it, free or named by the client, to the
    sender of a Request. -/
theorem of_acknowledges {now : Int} {q : DHCPPacket} {s u : Server}
    (heffect : Effect now q s.state u.state) (hack : Acknowledges s u client ip) :
    client = q.clientEthernetAddress ∧ q.HasType .request ∧
      u.state.database = s.state.database.withLeases
        (s.state.database.ipAddressLeases.set ip ⟨now + s.state.database.leaseTime⟩) ∧
      (ip ∉ s.state.database.ipAddressLeases.keys ∨
        ip = q.clientIPAddress ∧ q.clientIPAddress ∈ s.state.database.ipAddressLeases.keys) := by
  obtain ⟨sent, houtcome, hsent⟩ := heffect
  obtain ⟨p, hp, htype, rfl, rfl⟩ := hack
  rw [hp, List.append_cancel_left_eq] at hsent
  have hmem : p ∈ sent := by
    rw [← hsent]
    exact List.mem_singleton.mpr rfl
  generalize hd : u.state.database = d at houtcome
  cases houtcome with
  | silent => cases hmem
  | cleaned _ _ => cases hmem
  | offered _ _ _ =>
      rw [mem_broadcasted hmem] at htype
      cases htype.unique (hasType_offerPacket _ _ _)
  | refused _ =>
      rw [mem_broadcasted hmem] at htype
      cases htype.unique (hasType_nakPacket _ _)
  | leased hrequest _ hvalid =>
      rw [mem_broadcasted hmem]
      exact ⟨rfl, hrequest, rfl, Or.inl (of_handleRequestValidation hvalid).2.free⟩
  | renewed hrequest hclient =>
      rw [mem_broadcasted hmem]
      exact ⟨rfl, hrequest, rfl, Or.inr ⟨rfl, hclient⟩⟩
  | released _ _ => cases hmem

/-- A backed tenancy stays backed, unless the address is released. -/
theorem Backed.effect {now : Int} {q : DHCPPacket} {s u : State} (heffect : Effect now q s u)
    (h : Backed s.database ip t) (hnow : now ≤ t) (hsoon : t ≤ now + s.database.leaseTime)
    (hkept : q.HasType .release → q.clientIPAddress ≠ ip) : Backed u.database ip t := by
  obtain ⟨lease, hlease, hle⟩ := h
  rcases entry_of_effect heffect hlease with hsame | hrenewed | ⟨hrelease, heq⟩ | hlt
  · exact ⟨lease, hsame, hle⟩
  · exact ⟨_, hrenewed, hsoon⟩
  · exact absurd heq (hkept hrelease)
  · omega

theorem leaseTime_of_effect {now : Int} {q : DHCPPacket} {s u : State}
    (heffect : Effect now q s u) : u.database.leaseTime = s.database.leaseTime := by
  obtain ⟨leases, hleases⟩ := withLeases_of_effect heffect
  rw [hleases]
  rfl

theorem not_acknowledges_of_same {s u : Server} (h : u.state = s.state) :
    ¬ Acknowledges s u client ip := by
  rintro ⟨p, hp, -⟩
  rw [h] at hp
  have hlen := congrArg List.length hp
  rw [List.length_append, List.length_singleton] at hlen
  omega

/-- A step that changes nothing. -/
theorem LeaseInv.same {s u : Server} (h : LeaseInv s₀ es s) (hs : exec step s₀ es = some s)
    (hu : step s e = some u) (hsame : u.state = s.state) : LeaseInv s₀ (es ++ [e]) u := by
  have hold : ∀ client ip t, Holds s₀ (es ++ [e]) client ip t → Holds s₀ es client ip t := by
    intro client ip t hholds
    rcases holds_concat hs hu hholds with ⟨hbefore, -⟩ | ⟨data, now, -, hack, -⟩
    · exact hbefore
    · exact (not_acknowledges_of_same hsame hack).elim
  constructor
  · rw [hsame]
    exact h.leaseTime
  · intro client ip t hholds
    obtain ⟨now, hnow, hle⟩ := h.soon client ip t (hold _ _ _ hholds)
    exact ⟨now, mem_clocks_concat hnow, hle⟩
  · intro client ip t ht hholds
    rw [hsame]
    exact h.backed client ip t (fun now hnow => ht now (mem_clocks_concat hnow)) (hold _ _ _ hholds)
  · intro client client' ip t ht hholds hholds'
    exact h.unique client client' ip t (fun now hnow => ht now (mem_clocks_concat hnow))
      (hold _ _ _ hholds) (hold _ _ _ hholds')

/-- A step on the datagram with the packet `q`. -/
theorem LeaseInv.turn {s u : Server} {data : Bytes} {now : Int} {q : DHCPPacket}
    (h : LeaseInv s₀ es s) (hs : exec step s₀ es = some s)
    (hu : step s (.datagram data now) = some u) (hq : recvfrom data = .ok (some q))
    (heffect : Effect now q s.state u.state) (hclock : ∀ τ ∈ clocks es, τ ≤ now)
    (howners : OwnersOnly s₀ (es ++ [.datagram data now])) :
    LeaseInv s₀ (es ++ [.datagram data now]) u := by
  have hnow : now ∈ clocks (es ++ [.datagram data now]) := by
    rw [clocks_concat]
    exact List.mem_append_right _ List.mem_cons_self
  have howner : ∀ client, q.HasType .request ∨ q.HasType .release →
      q.clientIPAddress ∈ s.state.database.ipAddressLeases.keys →
      Holds s₀ es client q.clientIPAddress now → client = q.clientEthernetAddress :=
    fun client htype hclient => howners es data now [] s q rfl hs hq htype hclient client
  have hsoon : ∀ client ip t, Holds s₀ es client ip t → t ≤ now + s₀.state.database.leaseTime := by
    intro client ip t hholds
    obtain ⟨τ, hτ, hle⟩ := h.soon client ip t hholds
    have := hclock τ hτ
    omega
  -- an address that was free or belongs to the sender has no other holder
  have hnew : ∀ client client' ip t, now ≤ t → Acknowledges s u client ip →
      Holds s₀ es client' ip t → client = client' := by
    intro client client' ip t ht hack hholds
    obtain ⟨rfl, hrequest, -, hfree | ⟨rfl, hclient⟩⟩ := of_acknowledges heffect hack
    · have hclocks : ∀ τ ∈ clocks es, τ ≤ t := fun τ hτ => Int.le_trans (hclock τ hτ) ht
      obtain ⟨lease, hlease, -⟩ := h.backed client' ip t hclocks hholds
      exact absurd ((Dict.mem_keys_iff _ _).mpr ⟨lease, hlease⟩) hfree
    · exact (howner client' (Or.inl hrequest) hclient (hholds.mono ht)).symm
  constructor
  · exact (leaseTime_of_effect heffect).trans h.leaseTime
  · intro client ip t hholds
    rcases holds_concat hs hu hholds with ⟨hbefore, -⟩ | ⟨data', now', heq, -, hle⟩
    · exact ⟨now, hnow, hsoon client ip t hbefore⟩
    · cases heq
      exact ⟨now, hnow, h.leaseTime ▸ hle⟩
  · intro client ip t ht hholds
    rcases holds_concat hs hu hholds with ⟨hbefore, hkept⟩ | ⟨data', now', heq, hack, hle⟩
    · have hclocks : ∀ τ ∈ clocks es, τ ≤ t := fun τ hτ => ht τ (mem_clocks_concat hτ)
      have hbacked := h.backed client ip t hclocks hbefore
      apply hbacked.effect heffect (ht now hnow)
      · rw [h.leaseTime]
        exact hsoon client ip t hbefore
      · rintro hrelease rfl
        obtain ⟨lease, hlease, -⟩ := hbacked
        have hholder := howner client (Or.inr hrelease)
          ((Dict.mem_keys_iff _ _).mpr ⟨lease, hlease⟩) (hbefore.mono (ht now hnow))
        exact hkept ⟨data, now, q, rfl, hq, hrelease, hholder.symm, rfl⟩
    · cases heq
      obtain ⟨-, -, hdatabase, -⟩ := of_acknowledges heffect hack
      rw [hdatabase]
      exact ⟨_, Dict.get?_set_self _ _ _, hle⟩
  · intro client client' ip t ht hholds hholds'
    rcases holds_concat hs hu hholds with ⟨hbefore, -⟩ | ⟨data₁, now₁, -, hack, -⟩
    · rcases holds_concat hs hu hholds' with ⟨hbefore', -⟩ | ⟨data₂, now₂, -, hack', -⟩
      · exact h.unique client client' ip t (fun τ hτ => ht τ (mem_clocks_concat hτ)) hbefore hbefore'
      · exact (hnew client' client ip t (ht now hnow) hack' hbefore).symm
    · rcases holds_concat hs hu hholds' with ⟨hbefore', -⟩ | ⟨data₂, now₂, -, hack', -⟩
      · exact hnew client client' ip t (ht now hnow) hack hbefore'
      · rw [(of_acknowledges heffect hack).1, (of_acknowledges heffect hack').1]

theorem leaseInv_of_exec {s : Server} (h : exec step s₀ es = some s)
    (hclocks : (clocks es).Pairwise (· ≤ ·)) (howners : OwnersOnly s₀ es) : LeaseInv s₀ es s := by
  induction es using List.reverseRecOn generalizing s with
  | nil =>
      rw [exec_nil, Option.some_inj] at h
      exact h ▸ leaseInv_init s₀
  | append_singleton es e ih =>
      obtain ⟨t, ht, hts⟩ := exec_concat_iff.mp h
      rw [clocks_concat, List.pairwise_append] at hclocks
      have hinv := ih ht hclocks.1 howners.of_concat
      cases e with
      | datagram data now =>
          have hclock : ∀ τ ∈ clocks es, τ ≤ now := fun τ hτ =>
            hclocks.2.2 τ hτ now List.mem_cons_self
          rcases effect_of_step hts with hsame | ⟨q, hq, heffect⟩
          · exact hinv.same ht hts hsame
          · exact hinv.turn ht hts hq heffect hclock howners
      | timeout =>
          apply hinv.same ht hts
          rw [eq_of_timeout hts]

/-- At no time do two clients hold one address, as long as no client renews or releases an
    address that another one holds. -/
theorem lease_unique (d : Database) (es : List Event) (s : Server)
    (h : exec step (Server.init d) es = some s) (hclocks : (clocks es).Pairwise (· ≤ ·))
    (howners : OwnersOnly (Server.init d) es) (t : Int) (ht : ∀ now ∈ clocks es, now ≤ t)
    (client client' : Bytes) (ip : Str) (hholds : Holds (Server.init d) es client ip t)
    (hholds' : Holds (Server.init d) es client' ip t) : client = client' :=
  (leaseInv_of_exec h hclocks howners).unique client client' ip t ht hholds hholds'

/-- The client with the hardware address of all ones gets an address of the pool. -/
def leaseTwenty : Event := arrival requestTwenty 0

/-- Another client names this address as its own. -/
def renewTwenty : DHCPPacket := clientPacket .request 2 "192.168.100.20".toList none

def strangerRenewal : Event := arrival renewTwenty 10

theorem lease_unique_leaseTwenty :
    ∃ s, exec step (Server.init {}) [leaseTwenty] = some s ∧
      Holds (Server.init {}) [leaseTwenty] (List.replicate 16 1) "192.168.100.20".toList 60 ∧
      ∀ client, Holds (Server.init {}) [leaseTwenty] client "192.168.100.20".toList 60 →
        client = List.replicate 16 1 := by
  let ack := ackPacket {} requestTwenty "0.0.0.0".toList "192.168.100.20".toList
  have hrun : (exec step (Server.init {}) [leaseTwenty]).map (fun s => s.state.sent) =
      some [ack] := by
    decide +kernel
  obtain ⟨data, hdata⟩ : ∃ data, leaseTwenty = .datagram data 0 :=
    ⟨requestTwenty.toBytes.toOption.getD [], by decide +kernel⟩
  obtain ⟨s, hs, hsent⟩ := Option.map_eq_some_iff.mp hrun
  obtain ⟨u, hu, hus⟩ := exec_cons_iff.mp hs
  rw [exec_nil, Option.some_inj] at hus
  subst hus
  have hack : Acknowledges (Server.init {}) u (List.replicate 16 1) "192.168.100.20".toList :=
    ⟨ack, hsent, hasType_ackPacket _ _ _ _, rfl, rfl⟩
  have hholds : Holds (Server.init {}) [leaseTwenty] (List.replicate 16 1)
      "192.168.100.20".toList 60 := by
    rw [hdata] at hu ⊢
    exact ⟨[], data, 0, [], _, u, rfl, rfl, hu, hack, by decide, fun e he => by cases he⟩
  have howners : OwnersOnly (Server.init {}) [leaseTwenty] := by
    intro es₁ data' now es₂ s q hes hs _ _ hclient
    obtain rfl : es₁ = [] := by
      cases es₁ with
      | nil => rfl
      | cons x xs =>
          have hlen := congrArg List.length hes
          simp at hlen
    rw [exec_nil, Option.some_inj] at hs
    subst hs
    cases hclient
  have hclocks : clocks [leaseTwenty] = [0] := by
    rw [hdata]
    rfl
  refine ⟨u, hs, hholds, fun client hclient => ?_⟩
  apply lease_unique {} [leaseTwenty] u hs _ howners 60 _ client _ _ hclient hholds
  · rw [hclocks]
    decide
  · rw [hclocks]
    decide

/-- A Request that names an address leased to somebody else is acknowledged: both clients
    hold the address. -/
theorem not_lease_unique_strangerRenewal :
    ∃ s, exec step (Server.init {}) [leaseTwenty, strangerRenewal] = some s ∧
      clocks [leaseTwenty, strangerRenewal] = [0, 10] ∧
      Holds (Server.init {}) [leaseTwenty, strangerRenewal] (List.replicate 16 1)
        "192.168.100.20".toList 10 ∧
      Holds (Server.init {}) [leaseTwenty, strangerRenewal] (List.replicate 16 2)
        "192.168.100.20".toList 10 ∧
      List.replicate 16 (1 : UInt8) ≠ List.replicate 16 2 := by
  let ack := ackPacket {} requestTwenty "0.0.0.0".toList "192.168.100.20".toList
  let ack' := ackPacket {} renewTwenty "192.168.100.20".toList "192.168.100.20".toList
  have hfirst : (step (Server.init {}) leaseTwenty).map
      (fun s => (s.state.sent, s.state.database.leaseTime)) = some ([ack], 60) := by
    decide +kernel
  have hrun : (exec step (Server.init {}) [leaseTwenty, strangerRenewal]).map
      (fun s => s.state.sent) = some [ack, ack'] := by
    decide +kernel
  obtain ⟨data, hdata⟩ : ∃ data, leaseTwenty = .datagram data 0 :=
    ⟨requestTwenty.toBytes.toOption.getD [], by decide +kernel⟩
  obtain ⟨data', hdata', hpacket⟩ : ∃ data', strangerRenewal = .datagram data' 10 ∧
      recvfrom data' = .ok (some renewTwenty) :=
    ⟨renewTwenty.toBytes.toOption.getD [], by decide +kernel, by decide +kernel⟩
  obtain ⟨s, hs, hsent⟩ := Option.map_eq_some_iff.mp hrun
  obtain ⟨u, hu, hus⟩ := exec_cons_iff.mp hs
  obtain ⟨v, hv, hvs⟩ := exec_cons_iff.mp hus
  rw [exec_nil, Option.some_inj] at hvs
  subst hvs
  rw [hu, Option.map_some, Option.some_inj, Prod.mk.injEq] at hfirst
  obtain ⟨hsentFirst, hleaseTime⟩ := hfirst
  have hack : Acknowledges (Server.init {}) u (List.replicate 16 1) "192.168.100.20".toList :=
    ⟨ack, hsentFirst, hasType_ackPacket _ _ _ _, rfl, rfl⟩
  have hack' : Acknowledges u v (List.replicate 16 2) "192.168.100.20".toList := by
    refine ⟨ack', ?_, hasType_ackPacket _ _ _ _, rfl, rfl⟩
    rw [hsent, hsentFirst]
    rfl
  have hkept : ¬ Releases strangerRenewal (List.replicate 16 1) "192.168.100.20".toList := by
    rintro ⟨data₂, now₂, q, heq, hq, hrelease, -⟩
    rw [hdata', Event.datagram.injEq] at heq
    rw [← heq.1, hpacket] at hq
    cases hq
    exact absurd hrelease (by decide)
  refine ⟨v, hs, by rw [hdata, hdata']; rfl, ?_, ?_, by decide⟩
  · refine ⟨[], data, 0, [strangerRenewal], _, u, by rw [hdata]; rfl, rfl, hdata ▸ hu, hack,
      by decide, fun e he => ?_⟩
    rw [List.mem_singleton.mp he]
    exact hkept
  · refine ⟨[leaseTwenty], data', 10, [], u, v, by rw [hdata']; rfl,
      exec_cons_iff.mpr ⟨u, hu, rfl⟩, hdata' ▸ hv, hack', ?_, fun e he => by cases he⟩
    rw [hleaseTime]
    decide

end Dhcp
end NetworkingFinal
