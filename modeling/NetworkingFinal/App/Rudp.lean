/-
  NetworkingFinal.App.Rudp

  The configuration and the surroundings of the storage application
  (src/app/config.py, src/lib/config.py), its process-wide state, and the sending
  side of its socket (src/app/rudp.py).

  What the model takes as given of code outside the repository: the archive
  format of zipfile and the JSON of the account file, as the fields of `Env`.
-/
import NetworkingFinal.Ftp.Transfer
import NetworkingFinal.Py.ZipFile

namespace NetworkingFinal
namespace App

open Py Py.Prog Ftp

/-- A socket address. -/
abbrev Addr := Str × Nat

-- ============================================================================
-- Configuration
-- ============================================================================

def STORAGE_PUBLIC : Str := "/public".toList

def STORAGE_PRIVATE : Str := "/private".toList

def STORAGE_DATA : Str := "/data.json".toList

/-- `AppConfig`: the values a deployment sets, and the segment sizes, which are
    not more than 60000 bytes. -/
structure AppConfig where
  APP_STORAGE_PATH : Str := "storage".toList
  SINGLE_SEGMENT_SIZE_MIN : Nat := 1500
  SINGLE_SEGMENT_SIZE_MAX : Nat := 1500
  path_ne : APP_STORAGE_PATH ≠ [] := by decide
  min_pos : 0 < SINGLE_SEGMENT_SIZE_MIN := by decide
  max_pos : 0 < SINGLE_SEGMENT_SIZE_MAX := by decide
  max_le : SINGLE_SEGMENT_SIZE_MAX ≤ 60000 := by decide

/-- `UserData` -/
structure UserData where
  id : Str
  password : Str
  deriving DecidableEq

/-- `StorageData` -/
structure StorageData where
  users : Dict Str UserData
  deriving DecidableEq

/-- What the process runs in.  The working directory is an absolute path without `.`
    and `..`, as `os.getcwd` returns it.  The functions stand for libraries:

    - `zipMembers`: `ZipFile(BytesIO(data), "r")`, which may raise BadZipFile;
    - `zipBytes`: the archive written for these names and contents;
    - `loadStorage`: `StorageData(**json.load(f))`, which may raise ValueError;
    - `dumpStorage`: `beautify(storageData.json())`;
    - `growth`: the cubic growth of the congestion window, for a round trip time
      and the last maximum, before it is raised to 1. -/
structure Env where
  config : AppConfig
  cwd : Str
  cwd_abs : PosixPath.isabs cwd = true
  cwd_plain : ∀ c ∈ PosixPath.comps cwd, PosixPath.Plain c
  zipMembers : Bytes → Option (List ZipFile.Member)
  zipBytes : List (Str × Bytes) → Bytes
  loadStorage : Bytes → Option StorageData
  dumpStorage : StorageData → Bytes
  growth : Int → Nat → Nat

/-- Surroundings without accounts and archives. -/
instance : Inhabited Env where
  default :=
    { config := {}
      cwd := ['/']
      cwd_abs := rfl
      cwd_plain := fun _ hc => by cases hc
      zipMembers _ := none
      zipBytes _ := []
      loadStorage _ := none
      dumpStorage _ := encode "\x7b\n  \"users\": \x7b\x7d\n\x7d".toList
      growth _ cwndMax := cwndMax }

/-- What one iteration of the main loop draws from outside: the time stamped on
    new files, and the identifiers `uuid4` returns. -/
structure Ambient where
  now : UInt64
  uuids : List Str
  deriving Inhabited

-- ============================================================================
-- State
-- ============================================================================

/-- What the process does that the outside or an upload can tell. -/
inductive Action where
  | sent (pocket : Pocket) (dest : Addr)
  | postUpload (requestID : Nat) (data : Bytes)
  deriving DecidableEq

/-- The filesystem, the last request id, and the actions so far. -/
structure State where
  fs : FileTree
  lastRequestID : Nat
  log : List Action
  deriving DecidableEq

/-- Programs on the filesystem run inside the process. -/
def fsLens : Lens State FileTree where
  get s := s.fs
  put t s := { s with fs := t }
  get_put _ _ := rfl

abbrev onFiles {α : Type} (x : Prog FileTree α) : Prog State α := zoom fsLens x

def record (a : Action) : Prog State Unit := modify fun s => { s with log := s.log ++ [a] }

-- ============================================================================
-- rudp.py
-- ============================================================================

/-- `create_new_requestID` -/
def createNewRequestID : Prog State Nat := fun s =>
  .ok (s.lastRequestID + 1) { s with lastRequestID := s.lastRequestID + 1 }

/-- `sendto`; a pocket with a field out of range does not encode. -/
def sendto (pocket : Pocket) (clientAddress : Addr) : Prog State Unit := do
  let _ ← lift pocket.toBytes
  record (.sent pocket clientAddress)

/-- `send_close` -/
def sendClose (clientAddress : Addr) : Prog State Unit := sendto closePocket clientAddress

/-- The Response of `send_error`. -/
def errorResponse (errorMessage : Str) : Pocket :=
  { basicLayer := ⟨0, .response, .unknown⟩
    responseLayer := some ⟨false, errorMessage, 0, 0, 0⟩ }

/-- `send_error` -/
def sendError (errorMessage : Str) (clientAddress : Addr) : Prog State Unit :=
  sendto (errorResponse errorMessage) clientAddress

end App
end NetworkingFinal
