/-
  NetworkingFinal.Dhcp.Database

  The configuration and the lease table of the DHCP server (src/dhcp/database.py).

  `State` is what the handlers change: the database, the copy of it that
  `save_database` wrote, and the packets broadcast so far.  The clock of a step is an
  input, in whole seconds.  Failures of the file system are not modelled.
-/
import NetworkingFinal.Dhcp.Packets
import NetworkingFinal.Py.Prog

namespace NetworkingFinal
namespace Dhcp

open Py Py.Prog

structure IPAddressLease where
  expiredTime : Int
  deriving DecidableEq, Repr

abbrev Leases := Dict Str IPAddressLease

structure Database where
  serverAddress : Str := "192.168.100.1".toList
  leaseTime : Int := 60
  renewalTime : Int := 30
  rebindingTime : Int := 50
  router : Str := "192.168.100.0".toList
  subnetMask : Str := "255.255.255.0".toList
  dns : Option Str := some "8.8.8.8".toList
  broadcastAddress : Option Str := none
  poolRange : Int × Int := (10, 50)
  ipAddressLeases : Leases := Dict.empty
  deriving DecidableEq

structure State where
  database : Database
  /-- what the lease file holds -/
  file : Database
  /-- the packets broadcast, oldest first -/
  sent : List DHCPPacket := []
  deriving DecidableEq

namespace Database

/-- `self.server_address[: self.server_address.rindex(".")] + "."` -/
def getPrefix (d : Database) : Except Exn Str :=
  match d.serverAddress.reverse.dropWhile (· ≠ '.') with
  | [] => .error .valueError
  | _ :: before => .ok (before.reverse ++ ['.'])

/-- `is_available`; an empty prefix is computed as a missing one is. -/
def isAvailable (d : Database) (ip : Str) (pre : Option Str) : Except Exn Bool := do
  let pre ← match pre with
    | none | some [] => d.getPrefix
    | some pre => pure pre
  if ¬ pre.isPrefixOf ip ∨ ip ∈ [d.router, d.serverAddress] then
    return false
  else
    return decide (ip ∉ d.ipAddressLeases.keys)

/-- The scan over the pool. -/
def firstAvailable (d : Database) (pre : Str) : List Int → Except Exn (Option Str)
  | [] => .ok none
  | i :: is => do
      let yourIP := pre ++ str i
      if ← d.isAvailable yourIP (some pre) then return some yourIP
      else firstAvailable d pre is

/-- `range(self.pool_range[0], self.pool_range[1] + 1)` -/
def pool (d : Database) : List Int := range d.poolRange.1 (d.poolRange.2 + 1)

end Database

def saveDatabase : Prog State Unit := modify fun s => { s with file := s.database }

/-- Change the lease table and save the database. -/
def updateLeases (f : Leases → Leases) : Prog State Unit := do
  modify fun s =>
    { s with database := { s.database with ipAddressLeases := f s.database.ipAddressLeases } }
  saveDatabase

/-- `clean_ip_address_leases`: drop the first lease that ran out. -/
def cleanIpAddressLeases (now : Int) : Prog State Bool := do
  let s ← get
  match s.database.ipAddressLeases.entries.find? fun entry => decide (now > entry.2.expiredTime) with
  | some (ip, _) =>
      updateLeases fun leases => leases.erase ip
      return true
  | none => return false

/-- The scan before and after cleaning. -/
def scanPool (now : Int) (pre : Str) : Prog State (Option Str) := do
  let s ← get
  match ← lift (s.database.firstAvailable pre s.database.pool) with
  | some yourIP => return some yourIP
  | none =>
      if ← cleanIpAddressLeases now then
        let s ← get
        lift (s.database.firstAvailable pre s.database.pool)
      else return none

/-- `get_ip` -/
def getIp (now : Int) (wantIp : Option Str) : Prog State (Option Str) := do
  let s ← get
  let pre ← lift s.database.getPrefix
  match wantIp with
  | none | some [] => scanPool now pre
  | some wantIp =>
      if ← lift (s.database.isAvailable wantIp (some pre)) then return some wantIp
      else scanPool now pre

end Dhcp
end NetworkingFinal
