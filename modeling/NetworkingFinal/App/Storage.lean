/-
  NetworkingFinal.App.Storage

  Where a request may read and write (src/app/storage.py): `getPath`,
  `inStorage`, and the directories `initStorage` makes.

  `inStorage` compares strings; `prefix_of_inStorage` says what it means for the
  directories the strings lead to.
-/
import NetworkingFinal.App.Rudp

namespace NetworkingFinal
namespace App

open Py Py.Prog Py.Os Py.PosixPath

variable (env : Env)

/-- `init_strorage` -/
def initStorage (now : UInt64) : Prog FileTree Unit := do
  let root := env.config.APP_STORAGE_PATH
  let there ← isdir env.cwd root
  when (!there) (mkdir env.cwd now root)
  let there ← isdir env.cwd (root ++ STORAGE_PUBLIC)
  when (!there) (mkdir env.cwd now (root ++ STORAGE_PUBLIC))
  let there ← isdir env.cwd (root ++ STORAGE_PRIVATE)
  when (!there) (mkdir env.cwd now (root ++ STORAGE_PRIVATE))
  let there ← isfile env.cwd (root ++ STORAGE_DATA)
  when (!there)
    (writeFile env.cwd now (root ++ STORAGE_DATA) (env.dumpStorage ⟨Dict.empty⟩))

/-- The tree of a fresh installation. -/
def installed : FileTree := final (initStorage env 0 FileTree.empty)

/-- A fresh installation with one public file. -/
def installedWith (name : Str) (content : Bytes) : FileTree :=
  final (writeFile env.cwd 0 (env.config.APP_STORAGE_PATH ++ STORAGE_PUBLIC ++ ['/'] ++ name)
    content (installed env))

/-- `get_path` -/
def getPath (path storagePath : Str) : Str := abspath env.cwd (join storagePath path)

/-- `in_storage` -/
def inStorage (path storagePath : Str) : Except Exn Bool := do
  let common ← commonpath (abspath env.cwd (getPath env path storagePath))
    (abspath env.cwd storagePath)
  return common == abspath env.cwd storagePath

/-- The directory a storage path leads to. -/
def rootOf (storagePath : Str) : Path := comps (abspath env.cwd storagePath)

/-- The path a request path leads to. -/
def targetOf (path storagePath : Str) : Path := comps (getPath env path storagePath)

theorem normal_getPath (path storagePath : Str) :
    Normal (getPath env path storagePath) (targetOf env path storagePath) :=
  normal_abspath env.cwd_abs _

/-- `get_path(".")` is the storage root. -/
theorem targetOf_dot (storagePath : Str) :
    targetOf env ".".toList storagePath = rootOf env storagePath := by
  rw [rootOf, ← comps_abspath_join_dot env.cwd_abs env.cwd_plain]
  rfl

/-- `in_storage` answers for every path. -/
theorem inStorage_total (path storagePath : Str) :
    ∃ b, inStorage env path storagePath = .ok b := by
  obtain ⟨j, hj, hp⟩ := (normal_abspath env.cwd_abs (getPath env path storagePath)).eq
  obtain ⟨k, hk, hr⟩ := (normal_abspath env.cwd_abs storagePath).eq
  obtain ⟨c, hc⟩ := commonpath_absolute (comps (abspath env.cwd (getPath env path storagePath)))
    (comps (abspath env.cwd storagePath)) hj hk
  rw [← hp, ← hr] at hc
  exact ⟨_, by rw [inStorage, hc]; rfl⟩

/-- A path accepted by `in_storage` leads to the storage root or below it. -/
theorem prefix_of_inStorage {path storagePath : Str}
    (h : inStorage env path storagePath = .ok true) :
    rootOf env storagePath <+: targetOf env path storagePath := by
  have hn := normal_getPath env path storagePath
  have hr := normal_abspath env.cwd_abs storagePath
  rw [inStorage, hn.abspath_eq] at h
  obtain ⟨j, hj, hp⟩ := hn.eq
  obtain ⟨k, hk, hroot⟩ := hr.eq
  rw [hp, hroot] at h
  obtain ⟨c, hc⟩ := commonpath_absolute (targetOf env path storagePath)
    (comps (abspath env.cwd storagePath)) hj hk
  rw [hc] at h
  have heq : c = absolute k (comps (abspath env.cwd storagePath)) := by
    simpa [bind, Except.bind, pure, Except.pure] using h
  rw [heq] at hc
  exact ((commonpath_eq_iff hj hk hn.plain hr.plain).mp hc).2

-- ============================================================================
-- The directories of the storage
-- ============================================================================

/-- The directories that hold the storage roots: `storage` the public one, and
    `storage/private` those of the users. -/
structure StorageReady (fs : FileTree) : Prop where
  storage : fs.isDir (rootOf env env.config.APP_STORAGE_PATH) = true
  users : fs.isDir (rootOf env (env.config.APP_STORAGE_PATH ++ STORAGE_PRIVATE)) = true

end App
end NetworkingFinal
