/-
  NetworkingFinal.Dhcp.Reallocation

  How long an entry stays in the lease table.  Only a Release takes out an entry that has
  not run out, a packet changes the one entry it names, and the cleaning that a Discover
  may need drops one entry that ran out.

  - `KeepsLeases`: what a turn of the loop leaves of the table.
  - `soon_of_exec`: no entry outlives a lease that would be given now.
  - `reallocated_after_release_or_expiry`: `handle_request` leases an address again after
    a Release of it, or after the second of its last entry has passed.
-/
import NetworkingFinal.Dhcp.Leases
import NetworkingFinal.Dhcp.Requests

namespace NetworkingFinal
namespace Dhcp

open Py Lib Database

-- ============================================================================
-- One turn of the loop
-- ============================================================================

/-- The address whose entry the packet names: a Request names the leased address of its
    client, or else the one it requests. -/
def namedEntry (d : Database) (q : DHCPPacket) : Option Str :=
  match q.options.get? .messageType with
  | some (.messageType .request) =>
      if q.clientIPAddress ∈ d.ipAddressLeases.keys then some q.clientIPAddress
      else (requestedIPAddress q).toOption.join
  | some (.messageType .release) => some q.clientIPAddress
  | _ => none

/-- What the turn on a datagram leaves of the lease table. -/
structure KeepsLeases (s u : Server) (data : Bytes) (now : Int) : Prop where
  /-- an entry that has not run out stays, and gets no shorter, unless it is released -/
  kept : ∀ ip lease, s.state.database.ipAddressLeases.get? ip = some lease →
    now ≤ lease.expiredTime → (∀ client, ¬ Releases (.datagram data now) client ip) →
    ∃ lease', u.state.database.ipAddressLeases.get? ip = some lease' ∧
      lease.expiredTime ≤ lease'.expiredTime
  /-- the other entries stay as they are, but a Discover may drop one that ran out -/
  others : ∀ q, recvfrom data = .ok (some q) →
    (∀ ip, namedEntry s.state.database q ≠ some ip →
      u.state.database.ipAddressLeases.get? ip = s.state.database.ipAddressLeases.get? ip) ∨
    q.HasType .discover ∧ Cleaned now s.state.database u.state.database
  /-- a datagram without a packet changes no entry -/
  dropped : (∀ q, recvfrom data ≠ .ok (some q)) → u.state = s.state
  /-- a refused Request is answered with a NAK, and nothing else changes -/
  refused : ∀ q, recvfrom data = .ok (some q) → Judged s.state.database q none →
    u.state = s.state.sending (nakPacket s.state.database q)

/-- Whatever the step leads to, it keeps the leases. -/
def StepKeepsLeases (s : Server) (e : Event) : Prop :=
  ∀ u, step s e = some u → match e with
    | .datagram data now => KeepsLeases s u data now
    | .timeout => u = s

variable {now : Int} {q : DHCPPacket} {s u : State} {ip : Str} {lease : IPAddressLease}

theorem namedEntry_release (htype : q.HasType .release) (d : Database) :
    namedEntry d q = some q.clientIPAddress := by
  have hmatch : q.options.get? .messageType = some (.messageType .release) := htype
  rw [namedEntry, hmatch]

theorem namedEntry_renewal {d : Database} (htype : q.HasType .request)
    (hclient : q.clientIPAddress ∈ d.ipAddressLeases.keys) :
    namedEntry d q = some q.clientIPAddress := by
  have hmatch : q.options.get? .messageType = some (.messageType .request) := htype
  rw [namedEntry, hmatch]
  exact if_pos hclient

theorem namedEntry_request {d : Database} (htype : q.HasType .request)
    (hclient : q.clientIPAddress ∉ d.ipAddressLeases.keys)
    (hrequested : requestedIPAddress q = .ok (some ip)) : namedEntry d q = some ip := by
  have hmatch : q.options.get? .messageType = some (.messageType .request) := htype
  rw [namedEntry, hmatch]
  simp only [if_neg hclient, hrequested]
  rfl

theorem others_of_effect (heffect : Effect now q s u) :
    (∀ ip, namedEntry s.database q ≠ some ip →
      u.database.ipAddressLeases.get? ip = s.database.ipAddressLeases.get? ip) ∨
    q.HasType .discover ∧ Cleaned now s.database u.database := by
  obtain ⟨sent, houtcome, -⟩ := heffect
  generalize u.database = d at houtcome ⊢
  cases houtcome with
  | silent => exact Or.inl fun _ _ => rfl
  | cleaned htype hcleaned => exact Or.inr ⟨htype, hcleaned⟩
  | offered htype hcleaned _ => exact Or.inr ⟨htype, hcleaned⟩
  | refused _ => exact Or.inl fun _ _ => rfl
  | leased htype hclient hvalid =>
      have hnamed := namedEntry_request htype hclient (of_handleRequestValidation hvalid).1
      exact Or.inl fun ip hip => Dict.get?_set_of_ne fun heq => hip (heq ▸ hnamed)
  | renewed htype hclient =>
      have hnamed := namedEntry_renewal htype hclient
      exact Or.inl fun ip hip => Dict.get?_set_of_ne fun heq => hip (heq ▸ hnamed)
  | released htype _ =>
      have hnamed := namedEntry_release htype s.database
      exact Or.inl fun ip hip => Dict.get?_erase_of_ne fun heq => hip (heq ▸ hnamed)

/-- An entry is lost to a Release of its address, or because it ran out. -/
theorem lost_of_effect (heffect : Effect now q s u)
    (hget : s.database.ipAddressLeases.get? ip = some lease)
    (hlost : u.database.ipAddressLeases.get? ip = none) :
    (q.HasType .release ∧ q.clientIPAddress = ip) ∨ lease.expiredTime < now := by
  rcases entry_of_effect heffect hget with hsame | hrenewed | hgone
  · rw [hlost] at hsame
    cases hsame
  · rw [hlost] at hrenewed
    cases hrenewed
  · exact hgone

-- ============================================================================
-- The invariant
-- ============================================================================

/-- Every entry runs out at most a lease time after a second of the clock. -/
structure SoonInv (s₀ : Server) (es : List Event) (s : Server) : Prop where
  leaseTime : s.state.database.leaseTime = s₀.state.database.leaseTime
  soon : ∀ ip lease, s.state.database.ipAddressLeases.get? ip = some lease →
    ∃ now ∈ clocks es, lease.expiredTime ≤ now + s₀.state.database.leaseTime

variable {s₀ : Server} {es : List Event} {e : Event}

theorem SoonInv.same {s u : Server} (h : SoonInv s₀ es s) (hsame : u.state = s.state) :
    SoonInv s₀ (es ++ [e]) u := by
  constructor
  · rw [hsame]
    exact h.leaseTime
  · intro ip lease hget
    rw [hsame] at hget
    obtain ⟨now, hnow, hle⟩ := h.soon ip lease hget
    exact ⟨now, mem_clocks_concat hnow, hle⟩

theorem SoonInv.turn {s u : Server} {data : Bytes} (h : SoonInv s₀ es s)
    (heffect : Effect now q s.state u.state) :
    SoonInv s₀ (es ++ [.datagram data now]) u := by
  have hnow : now ∈ clocks (es ++ [.datagram data now]) := by
    rw [clocks_concat]
    exact List.mem_append_right _ List.mem_cons_self
  refine ⟨(leaseTime_of_effect heffect).trans h.leaseTime, fun ip lease hget => ?_⟩
  rcases origin_of_effect heffect hget with hold | ⟨rfl, -⟩
  · obtain ⟨τ, hτ, hle⟩ := h.soon ip lease hold
    exact ⟨τ, mem_clocks_concat hτ, hle⟩
  · exact ⟨now, hnow, Int.le_of_eq (by rw [h.leaseTime])⟩

theorem SoonInv.step {s u : Server} (h : SoonInv s₀ es s) (hu : step s e = some u) :
    SoonInv s₀ (es ++ [e]) u := by
  cases e with
  | datagram data now =>
      rcases effect_of_step hu with hsame | ⟨q, -, heffect⟩
      · exact h.same hsame
      · exact h.turn heffect
  | timeout => exact h.same (by rw [eq_of_timeout hu])

theorem soon_of_exec {s : Server} (hempty : s₀.state.database.ipAddressLeases = Dict.empty)
    (h : exec step s₀ es = some s) : SoonInv s₀ es s := by
  apply exec_history (SoonInv s₀) _ _ h
  · refine ⟨rfl, fun ip lease hget => ?_⟩
    rw [hempty] at hget
    cases hget
  · intro es t e u _ ht hu
    exact ht.step hu

/-- On an entry that was given by the clock so far, a turn keeps the leases. -/
theorem SoonInv.keepsLeases {s u : Server} {data : Bytes} (h : SoonInv s₀ es s)
    (hclock : ∀ τ ∈ clocks es, τ ≤ now) (hu : Dhcp.step s (.datagram data now) = some u) :
    KeepsLeases s u data now := by
  have heffect := effect_of_step hu
  refine ⟨fun ip lease hget hnow hkept => ?_, fun q hq => ?_, fun hnone => ?_, fun q hq hno => ?_⟩
  · rcases heffect with hsame | ⟨q, hq, heffect⟩
    · rw [hsame]
      exact ⟨lease, hget, Int.le_refl _⟩
    · obtain ⟨τ, hτ, hle⟩ := h.soon ip lease hget
      have hsoon : lease.expiredTime ≤ now + s.state.database.leaseTime := by
        have := hclock τ hτ
        rw [h.leaseTime]
        omega
      have hbacked : Backed s.state.database ip lease.expiredTime := ⟨lease, hget, Int.le_refl _⟩
      refine hbacked.effect heffect hnow hsoon fun hrelease heq => ?_
      exact hkept q.clientEthernetAddress ⟨data, now, q, rfl, hq, hrelease, rfl, heq⟩
  · rcases heffect with hsame | ⟨q', hq', heffect⟩
    · exact Or.inl fun ip _ => by rw [hsame]
    · rw [hq, Except.ok.injEq, Option.some_inj] at hq'
      subst hq'
      exact others_of_effect heffect
  · rcases heffect with hsame | ⟨q, hq, -⟩
    · exact hsame
    · exact absurd hq (hnone q)
  · exact state_of_refused hq hno hu

-- ============================================================================
-- Reallocation
-- ============================================================================

/-- The entry that the table has for the address after the step. -/
def recorded (ip : Str) (s : Server) (e : Event) : List IPAddressLease :=
  match step s e with
  | some u => (u.state.database.ipAddressLeases.get? ip).toList
  | none => []

/-- The last entry that the table had for the address in the run. -/
def lastRecorded (s₀ : Server) (es : List Event) (ip : Str) : Option IPAddressLease :=
  (observed step (recorded ip) s₀ es).getLast?

/-- `handle_request` accepts the Request of the event, so it leases the address and
    acknowledges it. -/
def LeasesTo (s : Server) (e : Event) (ip : Str) : Prop :=
  ∃ data now q, e = .datagram data now ∧ recvfrom data = .ok (some q) ∧
    Judged s.state.database q (some ip)

theorem lastRecorded_concat {s u : Server} (hs : exec step s₀ es = some s)
    (hu : step s e = some u) (ip : Str) :
    lastRecorded s₀ (es ++ [e]) ip =
      (u.state.database.ipAddressLeases.get? ip).or (lastRecorded s₀ es ip) := by
  have hrecorded : recorded ip s e = (u.state.database.ipAddressLeases.get? ip).toList := by
    rw [recorded, hu]
  rw [lastRecorded, observed_concat hs, hrecorded, lastRecorded, List.getLast?_append]
  cases u.state.database.ipAddressLeases.get? ip with
  | none => rfl
  | some lease => rfl

/-- An entry that a step loses was released, or had run out by the second of the step. -/
theorem lost_of_step {s u : Server} (hu : step s e = some u)
    (hget : s.state.database.ipAddressLeases.get? ip = some lease)
    (hlost : u.state.database.ipAddressLeases.get? ip = none) :
    (∃ client, Releases e client ip) ∨ ∃ now ∈ clocks [e], lease.expiredTime < now := by
  cases e with
  | datagram data now =>
      rcases effect_of_step hu with hsame | ⟨q, hq, heffect⟩
      · rw [hsame, hget] at hlost
        cases hlost
      · rcases lost_of_effect heffect hget hlost with ⟨hrelease, heq⟩ | hlt
        · exact Or.inl ⟨q.clientEthernetAddress, data, now, q, rfl, hq, hrelease, rfl, heq⟩
        · exact Or.inr ⟨now, List.mem_cons_self, hlt⟩
  | timeout =>
      rw [eq_of_timeout hu, hget] at hlost
      cases hlost

/-- How it stands with an address after the events `es`, when the table had an entry for it
    before them: it was released, or its entry is in the table, or its last entry ran
    out. -/
inductive Standing (s₀ : Server) (before es : List Event) (s : Server) (ip : Str) : Prop where
  | released {e : Event} {client : Bytes} (he : e ∈ es) (h : Releases e client ip)
  | held {lease : IPAddressLease}
      (hget : s.state.database.ipAddressLeases.get? ip = some lease)
      (hlast : lastRecorded s₀ (before ++ es) ip = some lease)
  | passed {lease : IPAddressLease} {now : Int}
      (hget : s.state.database.ipAddressLeases.get? ip = none)
      (hlast : lastRecorded s₀ (before ++ es) ip = some lease)
      (hnow : now ∈ clocks es) (hlt : lease.expiredTime < now)

variable {before : List Event}

theorem Standing.step {s u : Server} (h : Standing s₀ before es s ip)
    (hs : exec step s₀ (before ++ es) = some s) (hu : Dhcp.step s e = some u) :
    Standing s₀ before (es ++ [e]) u ip := by
  have hlast' := lastRecorded_concat hs hu ip
  rw [List.append_assoc] at hlast'
  -- what the table has for the address after the step is its last entry
  have hheld : ∀ lease, u.state.database.ipAddressLeases.get? ip = some lease →
      Standing s₀ before (es ++ [e]) u ip := by
    intro lease hget
    exact .held hget (by rw [hlast', hget, Option.some_or])
  cases hget' : u.state.database.ipAddressLeases.get? ip with
  | some lease => exact hheld lease hget'
  | none =>
      rw [hget', Option.none_or] at hlast'
      cases h with
      | released he hrelease => exact .released (List.mem_append_left _ he) hrelease
      | held hget hlast =>
          rcases lost_of_step hu hget hget' with ⟨client, hrelease⟩ | ⟨now, hnow, hlt⟩
          · exact .released (List.mem_append_right _ List.mem_cons_self) hrelease
          · refine .passed hget' (hlast'.trans hlast) ?_ hlt
            rw [clocks_concat]
            exact List.mem_append_right _ hnow
      | passed _ hlast hnow hlt =>
          exact .passed hget' (hlast'.trans hlast) (mem_clocks_concat hnow) hlt

theorem standing_of_exec {s t : Server} (hs : exec step s₀ before = some s)
    (hget : s.state.database.ipAddressLeases.get? ip = some lease)
    (hlast : lastRecorded s₀ before ip = some lease) (h : exec step s es = some t) :
    Standing s₀ before es t ip := by
  apply exec_history (fun es t => Standing s₀ before es t ip) _ _ h
  · exact .held hget (by rw [List.append_nil, hlast])
  · intro es t e u ht hstanding hu
    exact hstanding.step (exec_append_iff.mpr ⟨s, hs, ht⟩) hu

/-- A step that leases the address records the lease. -/
theorem recorded_of_leasesTo {s u : Server} (h : LeasesTo s e ip) (hu : step s e = some u) :
    ∃ lease, u.state.database.ipAddressLeases.get? ip = some lease := by
  obtain ⟨data, now, q, rfl, hq, hjudged⟩ := h
  rw [state_of_accepted hq hjudged hu]
  exact ⟨_, Dict.get?_set_self _ _ _⟩

theorem free_of_leasesTo {s : Server} (h : LeasesTo s e ip) :
    s.state.database.ipAddressLeases.get? ip = none := by
  obtain ⟨data, now, q, -, -, hjudged⟩ := h
  exact (Dict.get?_eq_none_iff _ _).mpr (of_handleRequestValidation hjudged.validation).2.free

/-- In every run from an empty table by a clock that does not go back, each step keeps the
    leases, and an address is leased again only after a Release of it or after the second
    of its last entry. -/
theorem reallocated_after_release_or_expiry (d : Database)
    (hempty : d.ipAddressLeases = Dict.empty) (es : List Event)
    (hclocks : (clocks es).Pairwise (· ≤ ·)) :
    AllSteps step StepKeepsLeases (Server.init d) es ∧
    ∀ es₁ e₁ es₂ e₂ es₃ s t ip, es = es₁ ++ e₁ :: (es₂ ++ e₂ :: es₃) →
      exec step (Server.init d) es₁ = some s → LeasesTo s e₁ ip →
      exec step (Server.init d) (es₁ ++ e₁ :: es₂) = some t → LeasesTo t e₂ ip →
      (∃ e ∈ es₂, ∃ client, Releases e client ip) ∨
      ∃ lease, lastRecorded (Server.init d) (es₁ ++ e₁ :: es₂) ip = some lease ∧
        ∃ now ∈ clocks es₂, lease.expiredTime < now := by
  constructor
  · intro es₁ e es₂ s hes hs u hu
    have hinv := soon_of_exec hempty hs
    cases e with
    | datagram data now =>
        refine hinv.keepsLeases (fun τ hτ => ?_) hu
        rw [hes, clocks, List.filterMap_append, List.pairwise_append] at hclocks
        exact hclocks.2.2 τ hτ now List.mem_cons_self
    | timeout => exact eq_of_timeout hu
  · intro es₁ e₁ es₂ e₂ es₃ s t ip _ hs hfirst ht hsecond
    have hsplit : es₁ ++ e₁ :: es₂ = (es₁ ++ [e₁]) ++ es₂ := by simp
    rw [hsplit] at ht ⊢
    obtain ⟨u, hu, hut⟩ := exec_append_iff.mp ht
    obtain ⟨s', hs', hstep⟩ := exec_concat_iff.mp hu
    rw [hs, Option.some_inj] at hs'
    subst hs'
    obtain ⟨lease, hlease⟩ := recorded_of_leasesTo hfirst hstep
    have hlast := lastRecorded_concat hs hstep ip
    rw [hlease, Option.some_or] at hlast
    cases standing_of_exec hu hlease hlast hut with
    | released he hrelease => exact Or.inl ⟨_, he, _, hrelease⟩
    | held hget _ =>
        rw [free_of_leasesTo hsecond] at hget
        cases hget
    | passed _ hlast hnow hlt => exact Or.inr ⟨_, hlast, _, hnow, hlt⟩

/-- A pool of one address. -/
def onlyTwenty : Database := { poolRange := (20, 20) }

/-- A Discover that finds the pool leased out and its lease run out. -/
def discoverAny : DHCPPacket := clientPacket .discover 2 "0.0.0.0".toList none

/-- The address is leased, cleaned after a minute, and leased again. -/
def secondTenant : List Event :=
  [arrival requestTwenty 0, arrival discoverAny 100, arrival requestTwenty 101]

theorem reallocated_after_release_or_expiry_secondTenant :
    AllSteps step StepKeepsLeases (Server.init onlyTwenty) secondTenant ∧
    ∃ lease, lastRecorded (Server.init onlyTwenty)
        [arrival requestTwenty 0, arrival discoverAny 100] "192.168.100.20".toList = some lease ∧
      ∃ now ∈ clocks [arrival discoverAny 100], lease.expiredTime < now := by
  obtain ⟨data, hdata, hpacket⟩ : ∃ data, arrival requestTwenty 0 = .datagram data 0 ∧
      recvfrom data = .ok (some requestTwenty) :=
    ⟨requestTwenty.toBytes.toOption.getD [], by decide +kernel, by decide +kernel⟩
  obtain ⟨data', hdata', hpacket'⟩ : ∃ data', arrival discoverAny 100 = .datagram data' 100 ∧
      recvfrom data' = .ok (some discoverAny) :=
    ⟨discoverAny.toBytes.toOption.getD [], by decide +kernel, by decide +kernel⟩
  obtain ⟨data'', hdata'', hpacket''⟩ : ∃ data'', arrival requestTwenty 101 = .datagram data'' 101 ∧
      recvfrom data'' = .ok (some requestTwenty) :=
    ⟨requestTwenty.toBytes.toOption.getD [], by decide +kernel, by decide +kernel⟩
  have hjudged : Judged onlyTwenty requestTwenty (some "192.168.100.20".toList) :=
    ⟨by decide, by decide, by decide +kernel⟩
  -- after the cleaning the table is empty again
  have hrun : (exec step (Server.init onlyTwenty)
      [arrival requestTwenty 0, arrival discoverAny 100]).map (fun s => s.state.database) =
      some onlyTwenty := by
    decide +kernel
  obtain ⟨t, ht, htable⟩ := Option.map_eq_some_iff.mp hrun
  have hclocks : (clocks secondTenant).Pairwise (· ≤ ·) := by
    decide +kernel
  obtain ⟨hsteps, hagain⟩ := reallocated_after_release_or_expiry onlyTwenty rfl secondTenant hclocks
  refine ⟨hsteps, ?_⟩
  rcases hagain [] _ [arrival discoverAny 100] _ [] _ t "192.168.100.20".toList rfl rfl
      ⟨data, 0, _, hdata, hpacket, hjudged⟩ ht
      ⟨data'', 101, _, hdata'', hpacket'', htable ▸ hjudged⟩ with
    ⟨e, he, client, hrelease⟩ | hpassed
  · rw [List.mem_singleton.mp he, hdata'] at hrelease
    obtain ⟨data₂, now₂, q, heq, hq, htype, -⟩ := hrelease
    rw [Event.datagram.injEq] at heq
    rw [← heq.1, hpacket', Except.ok.injEq, Option.some_inj] at hq
    rw [← hq] at htype
    exact absurd htype (by decide)
  · exact hpassed

end Dhcp
end NetworkingFinal
