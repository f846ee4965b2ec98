/-
  NetworkingFinal.Dhcp.Controller

  The main loop of the DHCP server (src/dhcp/controller.py).  `recvfrom` catches
  `socket.error` only: a datagram whose decoding raises it is dropped, and any other
  exception ends the loop.
-/
import NetworkingFinal.Dhcp.Handlers

namespace NetworkingFinal
namespace Dhcp

open Py Py.Prog

/-- `recvfrom`, on a datagram that arrived. -/
def recvfrom (data : Bytes) : Except Exn (Option DHCPPacket) :=
  match DHCPPacket.fromBytes data with
  | .ok packet => .ok (some packet)
  | .error .osError => .ok none
  | .error e => .error e

/-- What the loop does with a packet. -/
def dispatch (now : Int) (packet : DHCPPacket) : Prog State Unit :=
  match packet.options.get? .messageType with
  | none => return ()
  | some (.messageType reqType) =>
      match reqType with
      | .discover => handleDiscover now packet
      | .request => do
          let s ← get
          if packet.clientIPAddress ∉ s.database.ipAddressLeases.keys then
            handleRequest now packet
          else
            handleRenewalRequest now packet
      | .release => handleRelease packet
      | .unknown | .offer | .decline | .ack | .nak => return ()
  | some _ => throw .assertionError

/-- One turn of the loop on a datagram. -/
def iteration (data : Bytes) (now : Int) : Prog State Unit := do
  match ← lift (recvfrom data) with
  | none => return ()
  | some packet => dispatch now packet

/-- What can happen next: `recvfrom` gets a datagram, handled at the given second, or
    times out. -/
inductive Event where
  | datagram (data : Bytes) (now : Int)
  | timeout
  deriving DecidableEq

structure Server where
  state : State
  /-- the exception that ended the main loop -/
  stopped : Option Exn := none
  deriving DecidableEq

def afterDatagram : EStateM.Result Exn State Unit → Server
  | .ok _ s => { state := s }
  | .error e s => { state := s, stopped := some e }

def step (s : Server) : Event → Option Server
  | .datagram data now =>
      if s.stopped = none then some (afterDatagram (iteration data now s.state)) else none
  | .timeout => if s.stopped = none then some s else none

/-- The server at the start of `main_loop`. -/
def Server.init (database : Database) : Server := { state := { database, file := database } }

end Dhcp
end NetworkingFinal
