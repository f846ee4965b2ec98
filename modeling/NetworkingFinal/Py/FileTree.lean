/-
  NetworkingFinal.Py.FileTree

  A filesystem without links: which paths exist, and what they are.

  A path is the list of its components from the root, which always exists and is
  a directory.  A tree keeps its entries in the order in which they were made;
  `listdir` returns them in that order.  By construction every entry lies in a
  directory and has a name the filesystem accepts.

  Not modelled: permissions, links, the limits of the device, the limit of the
  system on the length of a whole path (PATH_MAX) and that of the interpreter on
  the depth of recursion, which a deep tree can reach, and that a directory's
  modification time follows its content (an entry keeps the time it was made with).
-/
import NetworkingFinal.Py.Dict
import NetworkingFinal.Py.PosixPath

namespace NetworkingFinal
namespace Py

open PosixPath

/-- A path as the components from the root. -/
abbrev Path := List Str

/-- What a path names.  The modification time is the float `getmtime` returns,
    by its 64 bits. -/
inductive Entry where
  | file (data : Bytes) (updatedAt : UInt64)
  | dir (updatedAt : UInt64)
  deriving DecidableEq

/-- A name an entry can have: one plain component of at most 255 bytes. -/
def LegalName (c : Str) : Prop := Plain c ∧ '\x00' ∉ c ∧ (encode c).length ≤ 255

instance (c : Str) : Decidable (Plain c) := inferInstanceAs (Decidable (_ ∧ _ ∧ _ ∧ _))

instance (c : Str) : Decidable (LegalName c) := inferInstanceAs (Decidable (_ ∧ _ ∧ _))

structure FileTree where
  entries : Dict Path Entry
  nonroot : [] ∉ entries.keys
  parents : ∀ p ∈ entries.keys,
    p.dropLast = [] ∨ ∃ t, entries.get? p.dropLast = some (.dir t)
  names : ∀ p ∈ entries.keys, ∀ c ∈ p, LegalName c
  deriving DecidableEq

namespace FileTree

/-- The tree with nothing but the root. -/
def empty : FileTree := ⟨Dict.empty, by simp [Dict.keys, Dict.empty],
  by simp [Dict.keys, Dict.empty], by simp [Dict.keys, Dict.empty]⟩

def get? (t : FileTree) (p : Path) : Option Entry :=
  if p = [] then some (.dir 0) else t.entries.get? p

def isFile (t : FileTree) (p : Path) : Bool :=
  match t.get? p with
  | some (.file _ _) => true
  | _ => false

def isDir (t : FileTree) (p : Path) : Bool :=
  match t.get? p with
  | some (.dir _) => true
  | _ => false

/-- The names in a directory. -/
def listdir (t : FileTree) (p : Path) : List Str :=
  t.entries.keys.filterMap fun q => if q.dropLast = p then q.getLast? else none

theorem get?_nil (t : FileTree) : t.get? [] = some (.dir 0) := rfl

theorem get?_of_ne {p : Path} (t : FileTree) (h : p ≠ []) : t.get? p = t.entries.get? p :=
  if_neg h

theorem isDir_iff {t : FileTree} {p : Path} :
    t.isDir p = true ↔ ∃ u, t.get? p = some (.dir u) := by
  unfold isDir
  split
  · next u h => simp [h]
  · next h =>
      constructor
      · intro hf
        cases hf
      · rintro ⟨u, hu⟩
        exact absurd hu (h u)

theorem isFile_iff {t : FileTree} {p : Path} :
    t.isFile p = true ↔ ∃ d u, t.get? p = some (.file d u) := by
  unfold isFile
  split
  · next d u h => simp [h]
  · next h =>
      constructor
      · intro hf
        cases hf
      · rintro ⟨d, u, hu⟩
        exact absurd hu (h d u)

theorem isFile_eq_false {t : FileTree} {p : Path} (h : t.isDir p = true) : t.isFile p = false := by
  obtain ⟨u, hu⟩ := isDir_iff.mp h
  rw [isFile, hu]

theorem isDir_eq_false {t : FileTree} {p : Path} (h : t.isFile p = true) : t.isDir p = false := by
  obtain ⟨d, u, hu⟩ := isFile_iff.mp h
  rw [isDir, hu]

theorem get?_ne_none_of_isDir {t : FileTree} {p : Path} (h : t.isDir p = true) :
    t.get? p ≠ none := by
  obtain ⟨u, hu⟩ := isDir_iff.mp h
  rw [hu]
  exact Option.some_ne_none _

theorem get?_ne_none_of_isFile {t : FileTree} {p : Path} (h : t.isFile p = true) :
    t.get? p ≠ none := by
  obtain ⟨d, u, hu⟩ := isFile_iff.mp h
  rw [hu]
  exact Option.some_ne_none _

/-- What exists and is no file is a directory. -/
theorem isDir_of_get? {t : FileTree} {p : Path} (h : t.get? p ≠ none)
    (hfile : t.isFile p = false) : t.isDir p = true := by
  revert h hfile
  rw [isDir, isFile]
  cases t.get? p with
  | none => simp
  | some e => cases e <;> simp

theorem plain_of_mem_listdir {t : FileTree} {p : Path} :
    ∀ name ∈ t.listdir p, Plain name := by
  intro name hname
  obtain ⟨q, hq, hlast⟩ := List.mem_filterMap.mp hname
  split at hlast
  · exact (t.names q hq name (List.mem_of_getLast? hlast)).1
  · cases hlast

@[simp] theorem isDir_nil (t : FileTree) : t.isDir [] = true := rfl

/-- Every entry lies in a directory. -/
theorem isDir_dropLast_of_mem {t : FileTree} {p : Path} (h : p ∈ t.entries.keys) :
    t.isDir p.dropLast = true := by
  rw [isDir_iff]
  rcases t.parents p h with hnil | ⟨u, hu⟩
  · exact ⟨0, by rw [hnil, get?_nil]⟩
  · by_cases hnil : p.dropLast = []
    · exact ⟨0, by rw [hnil, get?_nil]⟩
    · exact ⟨u, by rw [get?_of_ne t hnil, hu]⟩

theorem isDir_dropLast_of_get? {t : FileTree} {p : Path} (h : t.get? p ≠ none) :
    t.isDir p.dropLast = true := by
  by_cases hp : p = []
  · subst hp
    rfl
  · rw [get?_of_ne t hp] at h
    exact isDir_dropLast_of_mem ((Dict.mem_keys_iff _ _).mpr (Option.ne_none_iff_exists'.mp h))

theorem isDir_dropLast {t : FileTree} {p : Path} (h : t.isDir p = true) :
    t.isDir p.dropLast = true :=
  isDir_dropLast_of_get? (get?_ne_none_of_isDir h)

/-- Everything above an entry is a directory. -/
theorem isDir_of_prefix {t : FileTree} {p q : Path} (hqp : q <+: p) (hne : q ≠ p)
    (h : t.get? p ≠ none) : t.isDir q = true := by
  induction p using List.reverseRecOn with
  | nil => exact absurd (List.prefix_nil.mp hqp) hne
  | append_singleton p c ih =>
      have hdir : t.isDir p = true := by
        have hdrop := isDir_dropLast_of_get? h
        rwa [List.dropLast_concat] at hdrop
      have hq : q <+: p := (List.prefix_concat_iff.mp hqp).resolve_left hne
      by_cases heq : q = p
      · rw [heq]
        exact hdir
      · obtain ⟨u, hu⟩ := isDir_iff.mp hdir
        exact ih hq heq (by rw [hu]; exact Option.some_ne_none _)

-- ============================================================================
-- Changes
-- ============================================================================

/-- An entry can be put at `p`: its parent is a directory, and what is there is
    not one. -/
def Creatable (t : FileTree) (p : Path) : Prop :=
  p ≠ [] ∧ t.isDir p.dropLast = true ∧ t.isDir p = false ∧ ∀ c ∈ p, LegalName c

instance (t : FileTree) (p : Path) : Decidable (t.Creatable p) :=
  inferInstanceAs (Decidable (_ ∧ _ ∧ _ ∧ _))

/-- Put an entry at a path. -/
def insert (t : FileTree) (p : Path) (e : Entry) (h : t.Creatable p) : FileTree where
  entries := t.entries.set p e
  nonroot := by
    rw [Dict.mem_keys_set, not_or]
    exact ⟨Ne.symm h.1, t.nonroot⟩
  parents := by
    -- nothing lies below `p`, so no entry loses its directory
    intro q hq
    have hdir : t.isDir q.dropLast = true := by
      rcases (Dict.mem_keys_set _ _ _ _).mp hq with rfl | hq
      · exact h.2.1
      · exact isDir_dropLast_of_mem hq
    have hne : q.dropLast ≠ p := by
      intro he
      rw [he, h.2.2.1] at hdir
      cases hdir
    by_cases hnil : q.dropLast = []
    · exact Or.inl hnil
    · obtain ⟨u, hu⟩ := isDir_iff.mp hdir
      rw [get?_of_ne t hnil] at hu
      exact Or.inr ⟨u, by rw [Dict.get?_set_of_ne hne, hu]⟩
  names := by
    intro q hq
    rcases (Dict.mem_keys_set _ _ _ _).mp hq with rfl | hq
    · exact h.2.2.2
    · exact t.names q hq

/-- Remove a path and everything below it. -/
def removeTree (t : FileTree) (p : Path) : FileTree where
  entries := t.entries.filterKeys fun q => !decide (p <+: q)
  nonroot := by
    rw [Dict.mem_keys_filterKeys]
    exact fun h => t.nonroot h.2
  parents := by
    intro q hq
    obtain ⟨hpq, hq⟩ := (Dict.mem_keys_filterKeys _ _ _).mp hq
    by_cases hnil : q.dropLast = []
    · exact Or.inl hnil
    · obtain ⟨u, hu⟩ := isDir_iff.mp (isDir_dropLast_of_mem hq)
      rw [get?_of_ne t hnil] at hu
      have hkeep : ¬ p <+: q.dropLast := fun hp =>
        (by simpa using hpq : ¬ p <+: q) (hp.trans (List.dropLast_prefix q))
      exact Or.inr ⟨u, by rw [Dict.get?_filterKeys]; simpa [hkeep] using hu⟩
  names := by
    intro q hq
    exact t.names q ((Dict.mem_keys_filterKeys _ _ _).mp hq).2

/-- Remove everything below a path. -/
def removeBelow (t : FileTree) (p : Path) : FileTree where
  entries := t.entries.filterKeys fun q => !decide (p <+: q) || decide (q = p)
  nonroot := by
    rw [Dict.mem_keys_filterKeys]
    exact fun h => t.nonroot h.2
  parents := by
    intro q hq
    obtain ⟨hpq, hq⟩ := (Dict.mem_keys_filterKeys _ _ _).mp hq
    by_cases hnil : q.dropLast = []
    · exact Or.inl hnil
    · obtain ⟨u, hu⟩ := isDir_iff.mp (isDir_dropLast_of_mem hq)
      rw [get?_of_ne t hnil] at hu
      have hkeep : ¬ p <+: q.dropLast := by
        intro hp
        have hbelow : p <+: q := hp.trans (List.dropLast_prefix q)
        have hqp : q = p := by simpa [hbelow] using hpq
        have hlen := hp.length_le
        rw [List.length_dropLast, hqp] at hlen
        have hpos : 0 < p.length :=
          List.length_pos_of_ne_nil fun hnil' => hnil (by rw [hqp, hnil']; rfl)
        omega
      exact Or.inr ⟨u, by rw [Dict.get?_filterKeys]; simpa [hkeep] using hu⟩
  names := by
    intro q hq
    exact t.names q ((Dict.mem_keys_filterKeys _ _ _).mp hq).2

theorem get?_insert {t : FileTree} {p : Path} {e : Entry} (h : t.Creatable p) (q : Path) :
    (t.insert p e h).get? q = if q = p then some e else t.get? q := by
  by_cases hq : q = []
  · rw [hq, if_neg (Ne.symm h.1)]
    rfl
  · rw [get?_of_ne _ hq, get?_of_ne _ hq]
    exact Dict.get?_set _ _ _ _

theorem get?_removeTree {t : FileTree} {p : Path} (hp : p ≠ []) (q : Path) :
    (t.removeTree p).get? q = if p <+: q then none else t.get? q := by
  by_cases hq : q = []
  · subst hq
    rw [if_neg (by simpa using hp)]
    rfl
  · rw [get?_of_ne _ hq, get?_of_ne _ hq, removeTree, Dict.get?_filterKeys]
    by_cases hpq : p <+: q <;> simp [hpq]

theorem get?_removeBelow {t : FileTree} (p q : Path) :
    (t.removeBelow p).get? q = if p <+: q ∧ q ≠ p then none else t.get? q := by
  by_cases hq : q = []
  · subst hq
    rw [if_neg fun h => h.2 (List.prefix_nil.mp h.1).symm]
    rfl
  · rw [get?_of_ne _ hq, get?_of_ne _ hq, removeBelow, Dict.get?_filterKeys]
    by_cases hpq : p <+: q <;> by_cases hqp : q = p <;> simp [hpq, hqp]

-- ============================================================================
-- The tree below a path
-- ============================================================================

/-- The entries at and below `r`, in their order. -/
def below (t : FileTree) (r : Path) : Dict Path Entry :=
  t.entries.filterKeys fun q => decide (r <+: q)

theorem get?_below {r p : Path} (t : FileTree) (h : r <+: p) :
    t.get? p = if p = [] then some (.dir 0) else (t.below r).get? p := by
  by_cases hp : p = []
  · rw [if_pos hp, hp, get?_nil]
  · rw [if_neg hp, get?_of_ne t hp, below, Dict.get?_filterKeys]
    simp [h]

/-- What lies at or below `r` is determined by `below r`. -/
theorem get?_congr {r p : Path} {s t : FileTree} (h : s.below r = t.below r) (hp : r <+: p) :
    s.get? p = t.get? p := by
  rw [get?_below s hp, get?_below t hp, h]

theorem isDir_congr {r p : Path} {s t : FileTree} (h : s.below r = t.below r) (hp : r <+: p) :
    s.isDir p = t.isDir p := by
  rw [isDir, isDir, get?_congr h hp]

theorem isFile_congr {r p : Path} {s t : FileTree} (h : s.below r = t.below r) (hp : r <+: p) :
    s.isFile p = t.isFile p := by
  rw [isFile, isFile, get?_congr h hp]

theorem listdir_eq_below {r p : Path} (t : FileTree) (hp : r <+: p) :
    t.listdir p =
      (t.below r).keys.filterMap fun q => if q.dropLast = p then q.getLast? else none := by
  have hkeys : (t.below r).keys = t.entries.keys.filter (fun q => decide (r <+: q)) := by
    simp [below, Dict.keys, Dict.filterKeys, List.filter_map, Function.comp_def]
  rw [listdir, hkeys, List.filterMap_filter]
  congr 1
  funext q
  by_cases hq : r <+: q
  · simp [hq]
  · have hne : q.dropLast ≠ p := by
      rintro rfl
      exact hq (hp.trans (List.dropLast_prefix q))
    simp [hq, hne]

theorem listdir_congr {r p : Path} {s t : FileTree} (h : s.below r = t.below r)
    (hp : r <+: p) : s.listdir p = t.listdir p := by
  rw [listdir_eq_below s hp, listdir_eq_below t hp, h]

theorem below_congr {r p : Path} {s t : FileTree} (h : s.below r = t.below r)
    (hp : r <+: p) : s.below p = t.below p := by
  have hcomp : ∀ u : FileTree, u.below p = (u.below r).filterKeys fun q => decide (p <+: q) := by
    intro u
    simp only [below, Dict.filterKeys, List.filter_filter, Dict.mk.injEq]
    congr 1
    funext e
    by_cases he : p <+: e.1
    · simp [he, hp.trans he]
    · simp [he]
  rw [hcomp s, hcomp t, h]

theorem below_insert {t : FileTree} {p r : Path} {e : Entry} (h : t.Creatable p)
    (hr : r <+: p) : (t.insert p e h).below r = (t.below r).set p e := by
  rw [below, insert, Dict.filterKeys_set, if_pos (by simpa using hr)]
  rfl

theorem below_insert_of_not {t : FileTree} {p r : Path} {e : Entry} (h : t.Creatable p)
    (hr : ¬ r <+: p) : (t.insert p e h).below r = t.below r := by
  rw [below, insert, Dict.filterKeys_set, if_neg (by simpa using hr)]
  rfl

theorem below_removeTree (t : FileTree) (p r : Path) :
    (t.removeTree p).below r = (t.below r).filterKeys fun q => !decide (p <+: q) := by
  rw [below, removeTree, Dict.filterKeys_filterKeys]
  rfl

end FileTree
end Py
end NetworkingFinal
