/-
  NetworkingFinal.Dhcp.Requests

  What the loop does with a Request that names no lease of its client, exactly:
  `handle_request` gets it, and either refuses it or leases an address.

  - `Judged`: the packets that reach `handle_request`, with what its validation says.
  - `state_of_refused` / `state_of_accepted`: the state after the turn of the loop.
-/
import NetworkingFinal.Dhcp.Effect

namespace NetworkingFinal
namespace Dhcp

open Py Py.Prog Database

/-- `handle_request` gets the packet, and validating it gives an address or nothing. -/
structure Judged (d : Database) (q : DHCPPacket) (valid : Option Str) : Prop where
  request : q.HasType .request
  client : q.clientIPAddress ∉ d.ipAddressLeases.keys
  validation : handleRequestValidation d q = .ok valid

/-- The lease for the address is in the table and in the lease file. -/
def State.leased (s : State) (ip : Str) (lease : IPAddressLease) : State :=
  let d := s.database.withLeases (s.database.ipAddressLeases.set ip lease)
  { s with database := d, file := d }

/-- The packet is broadcast, when it encodes. -/
def State.sending (s : State) (packet : DHCPPacket) : State :=
  { s with sent := s.sent ++ broadcasted packet }

variable {now : Int} {q : DHCPPacket} {s : State} {ip : Str}

-- ============================================================================
-- Programs
-- ============================================================================

theorem broadcast_apply (packet : DHCPPacket) (s : State) :
    broadcast packet s = match packet.toBytes with
      | .ok _ => .ok () (s.sending packet)
      | .error e => .error e s := by
  rw [broadcast, bind_apply, lift, reads]
  cases h : packet.toBytes with
  | ok bs =>
      have hsent : broadcasted packet = [packet] := by rw [broadcasted, h]
      rw [State.sending, hsent]
      rfl
  | error e => rfl

theorem final_broadcast (packet : DHCPPacket) (s : State) :
    final (broadcast packet s) = s.sending packet := by
  rw [broadcast_apply]
  cases h : packet.toBytes with
  | ok bs => rfl
  | error e =>
      have hsent : broadcasted packet = [] := by rw [broadcasted, h]
      rw [State.sending, hsent, List.append_nil]
      rfl

theorem grant_apply (now : Int) (q : DHCPPacket) (client ip : Str) (s : State) :
    grant now q client ip s =
      broadcast (ackPacket s.database q client ip) (s.leased ip ⟨now + s.database.leaseTime⟩) :=
  rfl

theorem dispatch_request (htype : q.HasType .request)
    (hclient : q.clientIPAddress ∉ s.database.ipAddressLeases.keys) :
    dispatch now q s = handleRequest now q s := by
  have hmatch : q.options.get? .messageType = some (.messageType .request) := htype
  rw [dispatch, hmatch]
  simp only
  rw [bind_of_ok (x := get) rfl, if_pos hclient]

theorem handleRequest_of_refused (h : handleRequestValidation s.database q = .ok none) :
    handleRequest now q s = broadcast (nakPacket s.database q) s := by
  rw [handleRequest, bind_of_ok (x := get) rfl, lift_ok_bind h]

theorem handleRequest_of_accepted (h : handleRequestValidation s.database q = .ok (some ip)) :
    handleRequest now q s = grant now q "0.0.0.0".toList ip s := by
  rw [handleRequest, bind_of_ok (x := get) rfl, lift_ok_bind h]

-- ============================================================================
-- Turns of the loop
-- ============================================================================

theorem fromBytes_of_recvfrom {data : Bytes} (h : recvfrom data = .ok (some q)) :
    DHCPPacket.fromBytes data = .ok q := by
  unfold recvfrom at h
  split at h
  · next packet hpacket =>
      cases h
      exact hpacket
  · cases h
  · cases h

theorem step_packet {s : Server} {data : Bytes} (hrun : s.stopped = none)
    (hq : recvfrom data = .ok (some q)) :
    step s (.datagram data now) = some (afterDatagram (dispatch now q s.state)) := by
  rw [step, if_pos hrun, iteration, lift_ok_bind hq]

theorem running_of_step {s u : Server} {data : Bytes}
    (h : step s (.datagram data now) = some u) : s.stopped = none := by
  rw [step] at h
  split at h
  · assumption
  · cases h

/-- A refused Request is answered with a NAK and changes nothing else. -/
theorem state_of_refused {s u : Server} {data : Bytes} (hq : recvfrom data = .ok (some q))
    (h : Judged s.state.database q none) (hstep : step s (.datagram data now) = some u) :
    u.state = s.state.sending (nakPacket s.state.database q) := by
  rw [step_packet (running_of_step hstep) hq, Option.some_inj] at hstep
  rw [← hstep, state_afterDatagram, dispatch_request h.request h.client,
    handleRequest_of_refused h.validation, final_broadcast]

/-- An accepted Request leases the address and is acknowledged. -/
theorem state_of_accepted {s u : Server} {data : Bytes} (hq : recvfrom data = .ok (some q))
    (h : Judged s.state.database q (some ip)) (hstep : step s (.datagram data now) = some u) :
    u.state = (s.state.leased ip ⟨now + s.state.database.leaseTime⟩).sending
      (ackPacket s.state.database q "0.0.0.0".toList ip) := by
  rw [step_packet (running_of_step hstep) hq, Option.some_inj] at hstep
  rw [← hstep, state_afterDatagram, dispatch_request h.request h.client,
    handleRequest_of_accepted h.validation, grant_apply, final_broadcast]

end Dhcp
end NetworkingFinal
