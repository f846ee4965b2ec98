/-
  NetworkingFinal.Dns.Controller

  The main loop of the DNS server (src/dns/controller.py).  `recvfrom` catches
  `socket.error` only: a datagram whose decoding raises it is dropped, and any other
  exception ends the loop.
-/
import NetworkingFinal.Dns.Handlers

namespace NetworkingFinal
namespace Dns

open Py Py.Prog

/-- `recvfrom`, on a datagram that arrived. -/
def recvfrom (data : Bytes) : Except Exn (Option DNSPacket) :=
  match DNSPacket.fromBytes data with
  | .ok packet => .ok (some packet)
  | .error .osError => .ok none
  | .error e => .error e

/-- One turn of the loop on a datagram. -/
def iteration (data : Bytes) (clientAddress : Address) (o : Outside) : Prog State Unit := do
  match ← lift (recvfrom data) with
  | none => return ()
  | some packet =>
      if packet.flags.isResponse then return ()
      else requestHandler packet clientAddress o

/-- What can happen next: `recvfrom` gets a datagram or times out. -/
inductive Event where
  | datagram (data : Bytes) (clientAddress : Address) (o : Outside)
  | timeout

structure Server where
  state : State
  /-- the exception that ended the main loop -/
  stopped : Option Exn := none
  deriving DecidableEq

def afterDatagram : EStateM.Result Exn State Unit → Server
  | .ok _ s => { state := s }
  | .error e s => { state := s, stopped := some e }

def step (s : Server) : Event → Option Server
  | .datagram data clientAddress o =>
      if s.stopped = none then some (afterDatagram (iteration data clientAddress o s.state))
      else none
  | .timeout => if s.stopped = none then some s else none

/-- The server at the start of `main_loop`. -/
def Server.init (database : Database) : Server := { state := { database, file := database } }

end Dns
end NetworkingFinal
