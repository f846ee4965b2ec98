/-
  NetworkingFinal.Dhcp.Restart

  The DHCP server over restarts.

  Every change of the lease table is in the lease file before the turn that made it
  ends, also when an exception ends the turn and with it the loop.  So a server that is
  started again, whenever and however often, goes on as if it had never ended, given
  that the JSON of the file loses nothing (`Format`).
-/
import Mathlib.Tactic.DeriveEncodable
import NetworkingFinal.Dhcp.Reallocation
import NetworkingFinal.Lib.Restart

namespace NetworkingFinal
namespace Dhcp

open Py Py.Prog Lib

/-- A new process on the lease file: `get_database` parses the text of the file, which
    `save_database` wrote, and raises when it cannot. -/
def Server.restart (json : Format Database Bytes) (s : Server) : Server :=
  match json.read (json.write s.state.file) with
  | some database => { state := { s.state with database } }
  | none => { s with stopped := some .valueError }

/-- The turns of the server and its restarts. -/
def lifetime (json : Format Database Bytes) : Server → Life Event Unit → Option Server :=
  life step fun _ => Server.restart json

/-- A turn, whether the loop survives it or not. -/
def turn (s : State) : Event → State
  | .datagram data now => final (iteration data now s)
  | .timeout => s

-- ============================================================================
-- The lease file
-- ============================================================================

/-- What is saved stays saved. -/
def saved : Frame State where
  rel s t := s.file = s.database → t.file = t.database
  refl _ h := h
  trans h h' hs := h' (h hs)

theorem saved_updateLeases {f : Leases → Leases} : Keeps saved (updateLeases f) :=
  fun _ _ => rfl

theorem saved_broadcast {packet : DHCPPacket} : Keeps saved (broadcast packet) :=
  keeps_bind (keeps_reads _) fun _ => keeps_modify fun _ h => h

theorem saved_grant {now : Int} {q : DHCPPacket} {client ip : Str} :
    Keeps saved (grant now q client ip) :=
  keeps_bind keeps_get fun _ => keeps_bind saved_updateLeases fun _ => saved_broadcast

theorem saved_cleanIpAddressLeases {now : Int} : Keeps saved (cleanIpAddressLeases now) := by
  refine keeps_bind keeps_get fun s => ?_
  split
  · exact keeps_bind saved_updateLeases fun _ => keeps_pure _
  · exact keeps_pure _

theorem saved_scanPool {now : Int} {pre : Str} : Keeps saved (scanPool now pre) := by
  refine keeps_bind keeps_get fun s => keeps_bind (keeps_reads _) fun found => ?_
  cases found with
  | some ip => exact keeps_pure _
  | none =>
      exact keeps_bind saved_cleanIpAddressLeases fun cleaned => keeps_ite
        (fun _ => keeps_bind keeps_get fun _ => keeps_reads _) fun _ => keeps_pure _

theorem saved_getIp {now : Int} {wantIp : Option Str} : Keeps saved (getIp now wantIp) := by
  refine keeps_bind keeps_get fun s => keeps_bind (keeps_reads _) fun pre => ?_
  split
  · exact saved_scanPool
  · exact saved_scanPool
  · exact keeps_bind (keeps_reads _) fun available => keeps_ite (fun _ => keeps_pure _)
      fun _ => saved_scanPool

theorem saved_handleDiscover {now : Int} {q : DHCPPacket} : Keeps saved (handleDiscover now q) := by
  refine keeps_bind (keeps_reads _) fun requested => keeps_bind saved_getIp fun found => ?_
  split
  · exact keeps_pure _
  · exact keeps_pure _
  · exact keeps_bind keeps_get fun _ => saved_broadcast

theorem saved_handleRequest {now : Int} {q : DHCPPacket} : Keeps saved (handleRequest now q) := by
  refine keeps_bind keeps_get fun s => keeps_bind (keeps_reads _) fun valid => ?_
  cases valid with
  | none => exact saved_broadcast
  | some ip => exact saved_grant

theorem saved_dispatch {now : Int} {q : DHCPPacket} : Keeps saved (dispatch now q) := by
  unfold dispatch
  split
  · exact keeps_pure _
  · next reqType _ =>
      cases reqType with
      | discover => exact saved_handleDiscover
      | request =>
          exact keeps_bind keeps_get fun _ => keeps_ite (fun _ => saved_handleRequest)
            fun _ => saved_grant
      | release =>
          exact keeps_bind keeps_get fun _ => keeps_ite (fun _ => keeps_pure _)
            fun _ => saved_updateLeases
      | _ => exact keeps_pure _
  · exact keeps_throw _

/-- The turn of the loop leaves no lease unsaved, whether it ends with an exception or not. -/
theorem saved_iteration {data : Bytes} {now : Int} : Keeps saved (iteration data now) := by
  refine keeps_bind (keeps_reads _) fun packet => ?_
  cases packet with
  | none => exact keeps_pure _
  | some q => exact saved_dispatch

-- ============================================================================
-- Lifetimes
-- ============================================================================

/-- The lease file holds the leases. -/
def Saved (s : Server) : Prop := s.state.file = s.state.database

theorem saved_of_step {s t : Server} {e : Event} (hs : Saved s) (h : step s e = some t) :
    Saved t ∧ t.state = turn s.state e := by
  cases e with
  | timeout =>
      rw [eq_of_timeout h]
      exact ⟨hs, rfl⟩
  | datagram data now =>
      rw [step] at h
      split at h
      · cases h
        rw [Saved, state_afterDatagram]
        exact ⟨saved_iteration s.state hs, rfl⟩
      · cases h

theorem saved_init (d : Database) : Saved (Server.init d) := rfl

variable {json : Format Database Bytes}

theorem restart_eq (s : Server) :
    s.restart json = { state := { s.state with database := s.state.file } } := by
  rw [Server.restart, json.read_write]

/-- The lifetimes without the text of the file. -/
theorem lifetime_eq (json : Format Database Bytes) :
    lifetime json =
      life step fun _ s => { state := { s.state with database := s.state.file } } := by
  have hrestart : (fun _ : Unit => Server.restart json) =
      fun _ s => { state := { s.state with database := s.state.file } } := by
    funext _ s
    exact restart_eq s
  rw [lifetime, hrestart]

theorem saved_restart (s : Server) : Saved (s.restart json) := by
  rw [restart_eq]
  rfl

theorem state_restart {s : Server} (hs : Saved s) : (s.restart json).state = s.state := by
  rw [restart_eq, hs]

variable {d : Database} {ls ls' : List (Life Event Unit)} {s : Server}

theorem state_of_life (h : exec (lifetime json) (Server.init d) ls = some s) :
    Saved s ∧ s.state = (Life.events ls).foldl turn (Server.init d).state :=
  exec_life_refines Server.state (fun _ _ _ hs ht => saved_of_step hs ht)
    (fun _ s hs => ⟨saved_restart s, state_restart hs⟩) (saved_init d) h

/-- **Restarts are invisible.**  Whatever the server receives, and whenever it is started
    again, after an exception that ended its loop or in between: the lease file holds the
    leases, and the leases and the packets sent are those of a server that handles the same
    packets without ever ending. -/
theorem restarts_invisible (h : exec (lifetime json) (Server.init d) ls = some s) :
    s.state.file = s.state.database ∧
      s.state = (Life.events ls).foldl turn (Server.init d).state :=
  state_of_life h

/-- A datagram that ends the loop, and the new process. -/
def crashed (now : Int) : List (Life Event Unit) := [.event (.datagram [1] now), .restart ()]

deriving instance Encodable for IPAddressLease, Database

/-- The database of `onlyTwenty` with its address leased. -/
def leasedTwenty : Database :=
  { onlyTwenty with ipAddressLeases := Dict.empty.set "192.168.100.20".toList ⟨60⟩ }

/-- The lease file then. -/
def leasedTwentyText : Bytes :=
  encode ("\x7b\n  \"server_address\": \"192.168.100.1\",\n".toList ++
    "  \"network_interface\": \"virbr1\",\n".toList ++
    "  \"lease_time\": 60,\n  \"renewal_time\": 30,\n".toList ++
    "  \"rebinding_time\": 50,\n  \"router\": \"192.168.100.0\",\n".toList ++
    "  \"subnet_mask\": \"255.255.255.0\",\n  \"dns\": \"8.8.8.8\",\n".toList ++
    "  \"broadcast_address\": null,\n  \"pool_range\": [20, 20],\n".toList ++
    "  \"ip_address_leases\": \x7b\n    \"192.168.100.20\": \x7b\n".toList ++
    "      \"expired_time\": 60\n    \x7d\n  \x7d\n\x7d".toList)

def leasedTwentyJson : Format Database Bytes :=
  Format.ofText leasedTwenty leasedTwentyText 0xff (by decide +kernel)

theorem restarts_invisible_crashed :
    ∃ s, exec (lifetime leasedTwentyJson) (Server.init onlyTwenty)
        (.event leaseTwenty :: crashed 30) = some s ∧
      s.state.database.ipAddressLeases.keys = ["192.168.100.20".toList] ∧
      s.state.file = s.state.database ∧
      s.state = [leaseTwenty, .datagram [1] 30].foldl turn (Server.init onlyTwenty).state := by
  have hcheck : (exec (lifetime leasedTwentyJson) (Server.init onlyTwenty)
      (.event leaseTwenty :: crashed 30)).map (fun s => s.state.database.ipAddressLeases.keys) =
      some ["192.168.100.20".toList] := by
    rw [lifetime_eq]
    decide +kernel
  obtain ⟨s, hs, hkeys⟩ := Option.map_eq_some_iff.mp hcheck
  have hevents : Life.events (.event leaseTwenty :: crashed 30) = [leaseTwenty, .datagram [1] 30] :=
    rfl
  obtain ⟨hfile, hstate⟩ := restarts_invisible hs
  rw [hevents] at hstate
  exact ⟨s, hs, hkeys, hfile, hstate⟩

-- ============================================================================
-- Leases over lifetimes
-- ============================================================================

variable {ip : Str} {lease : IPAddressLease}

/-- Also over restarts, an entry runs out at most a lease time after the clock. -/
theorem soon_of_life (hempty : d.ipAddressLeases = Dict.empty)
    (h : exec (lifetime json) (Server.init d) ls = some s) :
    SoonInv (Server.init d) (Life.events ls) s := by
  refine (exec_history (fun ls s => Saved s ∧ SoonInv (Server.init d) (Life.events ls) s)
    ⟨saved_init d, rfl, fun ip lease hget => ?_⟩ (fun ls s l u _ hs hu => ?_) h).2
  · rw [show (Server.init d).state.database.ipAddressLeases = Dict.empty from hempty] at hget
    cases hget
  · rw [events_append]
    cases l with
    | event e => exact ⟨(saved_of_step hs.1 hu).1, hs.2.step hu⟩
    | restart _ =>
        cases hu
        rw [Life.events, Life.events, List.append_nil]
        refine ⟨saved_restart s, ?_, ?_⟩
        · rw [state_restart hs.1]
          exact hs.2.leaseTime
        · rw [state_restart hs.1]
          exact hs.2.soon

/-- **Leases survive restarts.**  Over any lifetime of the server with a clock that does not
    go back, crashes and restarts included, an entry of the lease table stays, and gets no
    shorter, until its last second has passed or the address is released. -/
theorem lease_survives {t : Server} (hempty : d.ipAddressLeases = Dict.empty)
    (hs : exec (lifetime json) (Server.init d) ls = some s)
    (hget : s.state.database.ipAddressLeases.get? ip = some lease)
    (ht : exec (lifetime json) s ls' = some t)
    (hclocks : (clocks (Life.events (ls ++ ls'))).Pairwise (· ≤ ·))
    (hdue : ∀ now ∈ clocks (Life.events ls'), now ≤ lease.expiredTime)
    (hkept : ∀ e ∈ Life.events ls', ∀ client, ¬ Releases e client ip) :
    ∃ lease', t.state.database.ipAddressLeases.get? ip = some lease' ∧
      lease.expiredTime ≤ lease'.expiredTime := by
  induction ls' using List.reverseRecOn generalizing t with
  | nil =>
      rw [exec_nil, Option.some_inj] at ht
      exact ⟨lease, ht ▸ hget, Int.le_refl _⟩
  | append_singleton ls' l ih =>
      obtain ⟨u, hu, hstep⟩ := exec_concat_iff.mp ht
      rw [← List.append_assoc, events_append, clocks, List.filterMap_append,
        List.pairwise_append] at hclocks
      rw [events_append] at hdue hkept
      obtain ⟨lease', hget', hle⟩ := ih hu hclocks.1
        (fun now hnow => hdue now (by
          rw [clocks, List.filterMap_append]
          exact List.mem_append_left _ hnow))
        fun e he => hkept e (List.mem_append_left _ he)
      have hwhole := exec_append_iff.mpr ⟨s, hs, hu⟩
      cases l with
      | restart _ =>
          cases hstep
          rw [state_restart (state_of_life hwhole).1]
          exact ⟨lease', hget', hle⟩
      | event e =>
          cases e with
          | timeout =>
              rw [eq_of_timeout hstep]
              exact ⟨lease', hget', hle⟩
          | datagram data now =>
              have hlast : ∀ τ ∈ clocks (Life.events (ls ++ ls')), τ ≤ now := fun τ hτ =>
                hclocks.2.2 τ hτ now List.mem_cons_self
              have hnow : now ≤ lease.expiredTime := hdue now (by
                rw [clocks, List.filterMap_append]
                exact List.mem_append_right _ List.mem_cons_self)
              have hkeeps := (soon_of_life hempty hwhole).keepsLeases hlast hstep
              obtain ⟨lease'', hget'', hle'⟩ := hkeeps.kept ip lease' hget' (by omega)
                (hkept _ (List.mem_append_right _ List.mem_cons_self))
              exact ⟨lease'', hget'', Int.le_trans hle hle'⟩

theorem lease_survives_crashed :
    ∃ s t lease, exec (lifetime leasedTwentyJson) (Server.init onlyTwenty)
        [.event leaseTwenty] = some s ∧
      exec (lifetime leasedTwentyJson) s (crashed 30) = some t ∧
      t.state.database.ipAddressLeases.get? "192.168.100.20".toList = some lease ∧
      60 ≤ lease.expiredTime := by
  have hcheck : (exec (lifetime leasedTwentyJson) (Server.init onlyTwenty)
      [.event leaseTwenty]).bind (fun s => (exec (lifetime leasedTwentyJson) s (crashed 30)).map
        fun _ => s.state.database.ipAddressLeases.get? "192.168.100.20".toList) =
      some (some ⟨60⟩) := by
    simp only [lifetime_eq]
    decide +kernel
  obtain ⟨s, hs, hcheck⟩ := Option.bind_eq_some_iff.mp hcheck
  obtain ⟨t, ht, hget⟩ := Option.map_eq_some_iff.mp hcheck
  have hreleases : ∀ e ∈ Life.events (crashed 30), ∀ client,
      ¬ Releases e client "192.168.100.20".toList := by
    rintro e he client ⟨data, now, q, rfl, hq, -⟩
    cases List.mem_singleton.mp he
    have hnone : (recvfrom [1]).toOption = none := by decide +kernel
    rw [hq] at hnone
    cases hnone
  obtain ⟨lease, hlease, hle⟩ := lease_survives rfl hs hget ht (by decide +kernel) (by decide)
    hreleases
  exact ⟨s, t, lease, hs, ht, hlease, hle⟩

end Dhcp
end NetworkingFinal
