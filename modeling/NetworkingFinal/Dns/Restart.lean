/-
  NetworkingFinal.Dns.Restart

  The DNS server over restarts.

  A turn that ends without an exception leaves the database saved.  One that fails while
  a response is being cached leaves records in memory that are not in the file, and the
  loop ends with it, so a server that is started again goes on from the file: over a
  lifetime the server is one that takes its database from the file after every turn, given
  that the JSON of the file loses nothing (`Format`).
-/
import Mathlib.Tactic.DeriveEncodable
import NetworkingFinal.Dns.Cache
import NetworkingFinal.Lib.Restart

namespace NetworkingFinal
namespace Dns

open Py Py.Prog Lib

/-- What a new process knows. -/
def State.recovered (s : State) : State := { s with database := s.file }

/-- A new process on the database file: `get_database` parses the text of the file, which
    `save_database` wrote, and raises when it cannot. -/
def Server.restart (json : Format Database Bytes) (s : Server) : Server :=
  match json.read (json.write s.state.file) with
  | some database => { state := { s.state with database } }
  | none => { s with stopped := some .valueError }

/-- The turns of the server and its restarts. -/
def lifetime (json : Format Database Bytes) : Server → Life Event Unit → Option Server :=
  life step fun _ => Server.restart json

/-- A turn, and what is left of it when the loop does not survive it. -/
def turn (s : State) : Event → State
  | .datagram data clientAddress o => (final (iteration data clientAddress o s)).recovered
  | .timeout => s

-- ============================================================================
-- The database file
-- ============================================================================

/-- What is saved stays saved. -/
def saved : Frame State where
  rel s t := s.file = s.database → t.file = t.database
  refl _ h := h
  trans h h' hs := h' (h hs)

section Saved

variable {o : Outside} {query : DNSPacket} {clientAddress : Address} {s : State}

theorem saved_getActiveRecord (now : Int) (domainName : Str) :
    Keeps saved (getActiveRecord now domainName) := by
  intro s hs
  rw [getActiveRecord_eq]
  split
  · rfl
  · exact hs

theorem saved_findLocals (looks : Nat → Int) (i : Nat) (queries : List DNSQueryRecord)
    (found : Found) : Keeps saved (findLocals looks i queries found) := by
  induction queries generalizing i found with
  | nil => exact keeps_pure _
  | cons query queries ih =>
      refine keeps_bind (saved_getActiveRecord _ _) fun record => ?_
      cases record with
      | none => exact ih _ _
      | some record => exact keeps_ite (fun _ => ih _ _) fun _ => keeps_throw _

theorem saved_askParent {queriesRecords : List DNSQueryRecord} :
    Keeps saved (askParent query queriesRecords o) := by
  refine keeps_bind (keeps_reads _) fun _ => keeps_bind (keeps_reads _) fun _ =>
    keeps_bind (keeps_reads _) fun _ => keeps_bind (keeps_modify fun _ h => h) fun _ =>
      keeps_reads _

/-- Caching a response saves the database in the end. -/
theorem saved_of_saveCache {now : Int} {response : DNSPacket} {t : State}
    (h : saveCacheIntoDatabase now response s = .ok () t) : t.file = t.database := by
  rw [saveCacheIntoDatabase_eq] at h
  obtain ⟨_, u, -, hsave⟩ := bind_ok_iff.mp h
  cases hsave
  rfl

theorem saved_of_requestHandler {t : State} (hs : s.file = s.database)
    (h : requestHandler query clientAddress o s = .ok () t) : t.file = t.database := by
  cases run_of_requestHandler h with
  | fromHere found u packet data hfound _ _ _ hstate =>
      have hkept : u.file = u.database := (saved_findLocals _ _ _ _).of_ok hfound hs
      rw [hstate]
      exact hkept
  | fromParent found u v d response packet data _ _ _ _ _ hsave _ _ hstate =>
      have hkept : v.file = v.database := saved_of_saveCache hsave
      rw [hstate]
      exact hkept

theorem saved_of_iteration {data : Bytes} {t : State} (hs : s.file = s.database)
    (h : iteration data clientAddress o s = .ok () t) : t.file = t.database := by
  obtain ⟨packet, u, hpacket, h⟩ := bind_ok_iff.mp h
  obtain ⟨-, rfl⟩ := lift_ok hpacket
  cases packet with
  | none =>
      cases h
      exact hs
  | some packet =>
      simp only at h
      split at h
      · cases h
        exact hs
      · exact saved_of_requestHandler hs h

end Saved

-- ============================================================================
-- Lifetimes
-- ============================================================================

/-- As long as the loop goes on, the file holds the database. -/
def Saved (s : Server) : Prop := s.stopped = none → s.state.file = s.state.database

theorem recovered_of_saved {s : State} (h : s.file = s.database) : s.recovered = s := by
  cases s
  cases h
  rfl

theorem saved_init (d : Database) : Saved (Server.init d) := fun _ => rfl

variable {json : Format Database Bytes}

theorem restart_eq (s : Server) : s.restart json = { state := s.state.recovered } := by
  rw [Server.restart, json.read_write]
  rfl

/-- The lifetimes without the text of the file. -/
theorem lifetime_eq (json : Format Database Bytes) :
    lifetime json = life step fun _ s => { state := s.state.recovered } := by
  have hrestart : (fun _ : Unit => Server.restart json) =
      fun _ s => { state := s.state.recovered } := by
    funext _ s
    exact restart_eq s
  rw [lifetime, hrestart]

theorem saved_restart (s : Server) : Saved (s.restart json) := by
  rw [restart_eq]
  exact fun _ => rfl

theorem recovered_restart (s : Server) :
    (s.restart json).state.recovered = s.state.recovered := by
  rw [restart_eq]
  rfl

theorem saved_of_step {s t : Server} {e : Event} (hs : Saved s) (h : step s e = some t) :
    Saved t ∧ t.state.recovered = turn s.state.recovered e := by
  cases e with
  | timeout =>
      rw [step] at h
      split at h
      · cases h
        exact ⟨hs, rfl⟩
      · cases h
  | datagram data clientAddress o =>
      rw [step] at h
      split at h
      · next hrun =>
          cases h
          rw [recovered_of_saved (hs hrun), turn]
          cases hturn : iteration data clientAddress o s.state with
          | ok _ u => exact ⟨fun _ => saved_of_iteration (hs hrun) hturn, rfl⟩
          | error e u =>
              refine ⟨fun hstop => ?_, rfl⟩
              cases hstop
      · cases h

/-- **Restarts go on from the file.**  Whatever the server receives, and whenever it is
    started again, after an exception that ended its loop or in between: while the loop
    goes on the file holds the database, and the database in the file and the datagrams sent
    are those of a server that takes its database from the file after every turn and never
    ends. -/
theorem restarts_go_on {d : Database} {ls : List (Life Event Unit)} {s : Server}
    (h : exec (lifetime json) (Server.init d) ls = some s) :
    (s.stopped = none → s.state.file = s.state.database) ∧
      s.state.recovered = (Life.events ls).foldl turn (Server.init d).state :=
  exec_life_refines (I := Saved) (fun s => s.state.recovered)
    (fun _ _ _ hs ht => saved_of_step hs ht) (fun _ s _ => ⟨saved_restart s, recovered_restart s⟩)
    (saved_init d) h

/-- The bytes of the question for the address of `a`. -/
def addressQueryData : Bytes := [0, 7, 1, 0, 0, 1, 0, 0, 0, 0, 0, 0, 1, 97, 0, 0, 1, 0, 1]

/-- The parent's datagram with the address 10.0.0.5, and one that has lost three bytes. -/
def shortData : Bytes :=
  [0, 3, 0x81, 0x80, 0, 1, 0, 2, 0, 0, 0, 0, 1, 97, 0, 0, 1, 0, 1,
    0xc0, 12, 0, 1, 0, 1, 0, 0, 0, 60, 0, 4, 10, 0, 0, 5,
    0xc0, 12, 0, 1, 0, 1, 0, 0, 0, 60, 0, 1, 10]

/-- The loop ends with one address in the cache that is not in the file; the server is
    started again, asks again, and answers the third query from the cache. -/
def crashing : List (Life Event Unit) :=
  let client := ("10.0.0.9".toList, 5353)
  [.event (.datagram addressQueryData client { atFirst [] with received := [some shortData] }),
    .restart (), .event (.datagram addressQueryData client (atFirst [5])),
    .event (.datagram addressQueryData client atSecond)]

deriving instance Encodable for Record

deriving instance Encodable for CacheRecord

deriving instance Encodable for Database

/-- The database file of a new installation. -/
def defaultText : Bytes :=
  encode ("\x7b\n  \"parent_dns\": \"8.8.8.8\",\n  \"static_ttl\": 360,\n".toList ++
    "  \"static_records\": \x7b\n    \"app.final.project.local\": \x7b\n".toList ++
    "      \"ip_address\": \"127.0.0.1\"\n    \x7d\n  \x7d,\n".toList ++
    "  \"cache_records\": \x7b\x7d\n\x7d".toList)

def defaultJson : Format Database Bytes :=
  Format.ofText {} defaultText 0xff (by decide +kernel)

theorem restarts_go_on_crashing :
    ∃ s t, exec (lifetime defaultJson) (Server.init {}) (crashing.take 1) = some s ∧
      s.stopped = some .indexError ∧ s.state.file ≠ s.state.database ∧
      exec (lifetime defaultJson) (Server.init {}) crashing = some t ∧
      (t.stopped = none → t.state.file = t.state.database) ∧
      t.state.recovered = (Life.events crashing).foldl turn (Server.init {}).state := by
  have hfirst : (exec (lifetime defaultJson) (Server.init {}) (crashing.take 1)).all (fun s =>
      s.stopped = some .indexError ∧ s.state.file ≠ s.state.database) = true := by
    rw [lifetime_eq]
    decide +kernel
  have hruns : (exec (lifetime defaultJson) (Server.init {}) crashing).isSome := by
    rw [lifetime_eq]
    decide +kernel
  obtain ⟨t, ht⟩ := Option.isSome_iff_exists.mp hruns
  obtain ⟨s, hs, -⟩ := exec_append_iff.mp (crashing.take_append_drop 1 ▸ ht)
  rw [hs] at hfirst
  obtain ⟨hends, hdiffer⟩ := of_decide_eq_true hfirst
  exact ⟨s, t, hs, hends, hdiffer, ht, restarts_go_on ht⟩

end Dns
end NetworkingFinal
