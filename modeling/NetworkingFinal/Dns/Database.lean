/-
  NetworkingFinal.Dns.Database

  The records of the DNS server (src/dns/database.py): static ones from its
  configuration, and one address for each name its parent answered.

  `State` is what the server changes: the database, the copy of it that
  `save_database` wrote, and the datagrams sent.  The clock is an input, in whole
  seconds.  Failures of the file system are not modelled.
-/
import NetworkingFinal.Dns.Packets
import NetworkingFinal.Py.Prog

namespace NetworkingFinal
namespace Dns

open Py Py.Prog

/-- A host and a port. -/
abbrev Address := Str × Nat

structure Record where
  ipAddress : Str
  deriving DecidableEq, Repr

structure CacheRecord extends Record where
  expiredTime : Int
  deriving DecidableEq, Repr

structure RecordData where
  domainName : Str
  ipAddress : Str
  ttl : Int
  deriving DecidableEq, Repr

structure Database where
  parentDns : Str := "8.8.8.8".toList
  staticTtl : Int := 360
  staticRecords : Dict Str Record :=
    Dict.empty.set "app.final.project.local".toList ⟨"127.0.0.1".toList⟩
  cacheRecords : Dict Str CacheRecord := Dict.empty
  deriving DecidableEq

/-- A packet on the network. -/
structure Datagram where
  packet : DNSPacket
  data : Bytes
  address : Address
  deriving DecidableEq

structure State where
  database : Database
  /-- what the database file holds -/
  file : Database
  /-- the datagrams sent to the parent server, oldest first -/
  toParent : List Datagram := []
  /-- the datagrams sent to clients, oldest first -/
  sent : List Datagram := []
  deriving DecidableEq

/-- A server with the default database. -/
def defaultState : State := { database := {}, file := {} }

def saveDatabase : Prog State Unit := modify fun s => { s with file := s.database }

/-- Change the cache in memory. -/
def updateCache (f : Dict Str CacheRecord → Dict Str CacheRecord) : Prog State Unit :=
  modify fun s =>
    { s with database := { s.database with cacheRecords := f s.database.cacheRecords } }

def getActiveRecord (now : Int) (domainName : Str) : Prog State (Option RecordData) := do
  let s ← get
  match s.database.staticRecords.get? domainName with
  | some record => return some ⟨domainName, record.ipAddress, s.database.staticTtl⟩
  | none =>
      match s.database.cacheRecords.get? domainName with
      | some record =>
          if record.expiredTime < now then do
            updateCache fun cache => cache.erase domainName
            saveDatabase
            return none
          else return some ⟨domainName, record.ipAddress, record.expiredTime - now⟩
      | none => return none

-- ============================================================================
-- What a lookup gives
-- ============================================================================

/-- The record a lookup gives at the given second. -/
def Database.active (d : Database) (now : Int) (domainName : Str) : Option RecordData :=
  match d.staticRecords.get? domainName with
  | some record => some ⟨domainName, record.ipAddress, d.staticTtl⟩
  | none =>
      match d.cacheRecords.get? domainName with
      | some record =>
          if record.expiredTime < now then none
          else some ⟨domainName, record.ipAddress, record.expiredTime - now⟩
      | none => none

/-- The state after a datagram was sent to a client. -/
def State.sending (s : State) (d : Datagram) : State := { s with sent := s.sent ++ [d] }

/-- The state after the cached record of the name was dropped, and saved. -/
def State.dropped (s : State) (domainName : Str) : State :=
  let database :=
    { s.database with cacheRecords := s.database.cacheRecords.erase domainName }
  { s with database, file := database }

theorem domainName_of_active {d : Database} {now : Int} {domainName : Str} {record : RecordData}
    (h : d.active now domainName = some record) : record.domainName = domainName := by
  unfold Database.active at h
  split at h
  · cases h
    rfl
  · split at h
    · split at h
      · cases h
      · cases h
        rfl
    · cases h

/-- A lookup gives the active record; only an expired cached one changes the state. -/
theorem getActiveRecord_eq (now : Int) (domainName : Str) (s : State) :
    getActiveRecord now domainName s =
      .ok (s.database.active now domainName)
        (if s.database.staticRecords.get? domainName = none ∧
            ∃ record, s.database.cacheRecords.get? domainName = some record ∧
              record.expiredTime < now
          then s.dropped domainName else s) := by
  rw [getActiveRecord, bind_of_ok (get_apply s), Database.active]
  cases hstatic : s.database.staticRecords.get? domainName with
  | some record => simp
  | none =>
      cases hcache : s.database.cacheRecords.get? domainName with
      | none => simp
      | some record =>
          by_cases hexpired : record.expiredTime < now
          · simp [hexpired]
            rfl
          · simp [hexpired]

theorem getActiveRecord_of_active {now : Int} {domainName : Str} {s : State}
    {record : RecordData} (h : s.database.active now domainName = some record) :
    getActiveRecord now domainName s = .ok (some record) s := by
  rw [getActiveRecord_eq, h, if_neg]
  rintro ⟨hstatic, cached, hcache, hexpired⟩
  simp [Database.active, hstatic, hcache, hexpired] at h

/-- A record that is not static comes from the cache. -/
theorem cached_of_active {d : Database} {now : Int} {domainName : Str} {record : RecordData}
    (hstatic : d.staticRecords.get? domainName = none)
    (h : d.active now domainName = some record) :
    ∃ cached, d.cacheRecords.get? domainName = some cached ∧
      record = ⟨domainName, cached.ipAddress, cached.expiredTime - now⟩ := by
  unfold Database.active at h
  rw [hstatic] at h
  dsimp only at h
  split at h
  · next cached hcached =>
      split at h
      · cases h
      · exact ⟨cached, hcached, (Option.some.inj h).symm⟩
  · cases h

end Dns
end NetworkingFinal
