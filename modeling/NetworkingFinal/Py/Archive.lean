/-
  NetworkingFinal.Py.Archive

  The files of a directory on their way through an archive: `packFiles` collects
  them with `os.walk`, `extractall` puts them below another directory.

  - `mem_packFiles_iff`: the members are the files of the directory, each under its
    path from the directory the names start at.
  - `fileAt_extractall`: what lies below the target afterwards.

  Both are about calls that returned; what the paths lead to is then what
  `abspath` says, for relative paths and for absolute ones.
-/
import NetworkingFinal.Py.ZipFile
import Mathlib.Algebra.Order.BigOperators.Group.List
import Mathlib.Algebra.Order.Group.Nat

namespace NetworkingFinal
namespace Py

open PosixPath Prog Os

-- ============================================================================
-- Files by their paths
-- ============================================================================

namespace FileTree

/-- The content of the file at a path, where there is one. -/
def fileAt (t : FileTree) (p : Path) : Option Bytes :=
  match t.get? p with
  | some (.file data _) => some data
  | _ => none

theorem fileAt_eq_none_of_get? {t : FileTree} {p : Path} (h : t.get? p = none) :
    t.fileAt p = none := by
  rw [fileAt, h]

theorem fileAt_eq_none_of_isDir {t : FileTree} {p : Path} (h : t.isDir p = true) :
    t.fileAt p = none := by
  obtain ⟨u, hu⟩ := isDir_iff.mp h
  rw [fileAt, hu]

theorem fileAt_eq_some_iff {t : FileTree} {p : Path} {data : Bytes} :
    t.fileAt p = some data ↔ ∃ u, t.get? p = some (.file data u) := by
  unfold fileAt
  split
  · next d u h => simp [h]
  · next h =>
      constructor
      · intro hf
        cases hf
      · rintro ⟨u, hu⟩
        exact absurd hu (h data u)

theorem isFile_of_fileAt {t : FileTree} {p : Path} {data : Bytes} (h : t.fileAt p = some data) :
    t.isFile p = true := by
  obtain ⟨u, hu⟩ := fileAt_eq_some_iff.mp h
  exact isFile_iff.mpr ⟨data, u, hu⟩

theorem get?_ne_none_of_fileAt {t : FileTree} {p : Path} {data : Bytes}
    (h : t.fileAt p = some data) : t.get? p ≠ none := by
  obtain ⟨u, hu⟩ := fileAt_eq_some_iff.mp h
  rw [hu]
  exact Option.some_ne_none _

theorem plain_of_get? {t : FileTree} {p : Path} (h : t.get? p ≠ none) : ∀ c ∈ p, Plain c := by
  by_cases hnil : p = []
  · simp [hnil]
  · rw [get?_of_ne t hnil] at h
    exact fun c hc => (t.names p ((Dict.mem_keys_iff _ _).mpr
      (Option.ne_none_iff_exists'.mp h)) c hc).1

/-- A tree has no paths of more than some length. -/
theorem exists_length_le (t : FileTree) : ∃ n, ∀ p, t.get? p ≠ none → p.length ≤ n := by
  refine ⟨(t.entries.keys.map List.length).sum, fun p hp => ?_⟩
  by_cases hnil : p = []
  · subst hnil
    exact Nat.zero_le _
  · rw [get?_of_ne t hnil] at hp
    have hmem : p ∈ t.entries.keys :=
      (Dict.mem_keys_iff _ _).mpr (Option.ne_none_iff_exists'.mp hp)
    exact List.le_sum_of_mem (List.mem_map_of_mem hmem)

end FileTree

namespace Archive

variable {cwd : Str} {now : UInt64}

/-- No file is made, changed or removed. -/
def filesStay : Frame FileTree where
  rel s t := ∀ p, t.fileAt p = s.fileAt p
  refl _ _ := rfl
  trans h h' p := (h' p).trans (h p)

theorem filesStay_mkdirAt {s t : FileTree} {q : Path} (h : mkdirAt now s q = some t) :
    filesStay.rel s t := by
  obtain ⟨hnone, hput⟩ := put_of_mkdirAt h
  intro p
  rw [FileTree.fileAt, FileTree.fileAt, get?_of_put hput]
  by_cases hp : p = q
  · rw [if_pos hp, hp, hnone]
  · rw [if_neg hp]

theorem fileAt_of_put {data : Bytes} {s t : FileTree} {q : Path}
    (h : put (.file data now) s q = some t) (p : Path) :
    t.fileAt p = if p = q then some data else s.fileAt p := by
  rw [FileTree.fileAt, FileTree.fileAt, get?_of_put h]
  by_cases hp : p = q
  · rw [if_pos hp, if_pos hp]
  · rw [if_neg hp, if_neg hp]

theorem filesStay_mkdir {p : Str} : Keeps filesStay (mkdir cwd now p) :=
  keeps_update_any fun _ _ _ h => filesStay_mkdirAt h

theorem filesStay_makedirs {p : Str} : Keeps filesStay (makedirs cwd now p) :=
  keeps_makedirs_of fun _ _ _ h => filesStay_mkdirAt h

-- ============================================================================
-- Walking
-- ============================================================================

theorem resolve_child {t : FileTree} {p c : Str} {q : Path} (h : resolve cwd t p = .ok q)
    (hc : Plain c) : resolve cwd t (join p c) = .ok (q ++ [c]) := by
  rw [resolve] at h ⊢
  split at h
  · cases h
  · next hne =>
      have hrel := isabs_of_notMem hc.2.1
      have hjoin : join p c ≠ [] := by
        intro hnil
        have hcomps := comps_join hne hrel
        rw [hnil, comps_of_notMem hc.2.1 hc.1] at hcomps
        simp at hcomps
      rw [if_neg hjoin, isabs_join_eq hne hrel, comps_join hne hrel,
        comps_of_notMem hc.2.1 hc.1, walkFrom_append, h]
      exact walkFrom_of_plain t q fun d hd => by rwa [List.mem_singleton.mp hd]

theorem isdir_child {t : FileTree} {p c : Str} {q : Path} (h : resolve cwd t p = .ok q)
    (hc : Plain c) : isdir cwd (join p c) t = .ok (t.isDir (q ++ [c])) t := by
  simp only [isdir, query, reads, resolve_child h hc]

theorem mem_listdir_iff {t : FileTree} {q : Path} {c : Str} :
    c ∈ t.listdir q ↔ t.get? (q ++ [c]) ≠ none := by
  have hne : q ++ [c] ≠ [] := by simp
  rw [FileTree.get?_of_ne t hne, FileTree.listdir, List.mem_filterMap]
  constructor
  · rintro ⟨p, hp, hlast⟩
    split at hlast
    · next hdrop =>
        obtain ⟨ds, d, rfl⟩ : ∃ ds d, p = ds ++ [d] :=
          (List.eq_nil_or_concat' p).resolve_left (by rintro rfl; cases hlast)
        rw [List.dropLast_concat] at hdrop
        rw [List.getLast?_concat, Option.some_inj] at hlast
        rw [← hdrop, ← hlast]
        exact Option.ne_none_iff_exists'.mpr ((Dict.mem_keys_iff _ _).mp hp)
    · cases hlast
  · intro h
    refine ⟨q ++ [c], (Dict.mem_keys_iff _ _).mpr (Option.ne_none_iff_exists'.mp h), ?_⟩
    rw [if_pos List.dropLast_concat, List.getLast?_concat]

/-- What `os.walk` lists at one directory: its files, and the walks below it. -/
theorem walkFiles_succ {fuel : Nat} {top : Str} {q : Path} {dirs : List (Str × List Str)}
    {s s' : FileTree} (hq : resolve cwd s top = .ok q)
    (h : walkFiles cwd (fuel + 1) top s = .ok dirs s') :
    ∃ rest : List (List (Str × List Str)), s' = s ∧
      dirs = (top, (s.listdir q).filter fun c => !s.isDir (q ++ [c])) :: rest.flatten ∧
      (∀ c ∈ s.listdir q, s.isDir (q ++ [c]) = true →
        ∃ ds ∈ rest, walkFiles cwd fuel (join top c) s = .ok ds s) ∧
      ∀ ds ∈ rest, ∃ c ∈ s.listdir q, walkFiles cwd fuel (join top c) s = .ok ds s := by
  obtain ⟨names, t₁, hnames, h⟩ := bind_ok_iff.mp h
  obtain ⟨q', hq', hlist, rfl⟩ := fetch_ok_iff.mp hnames
  rw [hq, Except.ok.injEq] at hq'
  subst hq'
  split at hlist
  · rw [Option.some_inj] at hlist
    subst hlist
    have hplain := FileTree.plain_of_mem_listdir (t := t₁) (p := q)
    rw [bind_of_ok (select_of_tests (g := fun c => t₁.isDir (q ++ [c])) fun c hc =>
      isdir_child hq (hplain c hc)), bind_of_ok (select_of_tests
        (g := fun c => !t₁.isDir (q ++ [c])) fun c hc => by
          rw [bind_of_ok (isdir_child hq (hplain c hc))]
          rfl)] at h
    obtain ⟨rest, t₂, hrest, h⟩ := bind_ok_iff.mp h
    cases h
    obtain ⟨rfl, hdown, hup⟩ := of_collect (fun c _ => keeps_walkFiles) hrest
    refine ⟨rest, rfl, rfl, fun c hc hdir => hdown c (List.mem_filter.mpr ⟨hc, hdir⟩), ?_⟩
    intro ds hds
    obtain ⟨c, hc, hwalk⟩ := hup ds hds
    exact ⟨c, (List.mem_filter.mp hc).1, hwalk⟩
  · cases hlist

/-- The paths `os.walk` gives are those of the files below the top. -/
theorem mem_walkFiles_iff {fuel : Nat} {top : Str} {q : Path} {dirs : List (Str × List Str)}
    {s s' : FileTree} (hq : resolve cwd s top = .ok q)
    (h : walkFiles cwd fuel top s = .ok dirs s') :
    (∀ file ∈ dirs.flatMap (fun (root, names) => names.map (join root)), ∃ rel,
      rel ≠ [] ∧ resolve cwd s file = .ok (q ++ rel) ∧ s.isFile (q ++ rel) = true) ∧
    (∀ rel, rel ≠ [] → s.isFile (q ++ rel) = true →
      ∃ file ∈ dirs.flatMap (fun (root, names) => names.map (join root)),
        resolve cwd s file = .ok (q ++ rel)) := by
  induction fuel generalizing top q dirs s' with
  | zero => cases h
  | succ fuel ih =>
      obtain ⟨rest, -, rfl, hdown, hup⟩ := walkFiles_succ hq h
      have hplain := FileTree.plain_of_mem_listdir (t := s) (p := q)
      simp only [List.flatMap_cons, List.mem_append]
      constructor
      · rintro file (hfile | hfile)
        · -- a file of this directory: an entry that is no directory
          obtain ⟨c, hc, rfl⟩ := List.mem_map.mp hfile
          obtain ⟨hlist, hnotdir⟩ := List.mem_filter.mp hc
          refine ⟨[c], List.cons_ne_nil c [], resolve_child hq (hplain c hlist), ?_⟩
          have hthere := mem_listdir_iff.mp hlist
          revert hthere hnotdir
          rw [FileTree.isFile, FileTree.isDir]
          cases s.get? (q ++ [c]) with
          | none => simp
          | some e => cases e <;> simp
        · obtain ⟨d, hd, hfile⟩ := List.mem_flatMap.mp hfile
          obtain ⟨ds, hds, hd⟩ := List.mem_flatten.mp hd
          obtain ⟨c, hc, hwalk⟩ := hup ds hds
          obtain ⟨rel, -, hres, hisFile⟩ := (ih (resolve_child hq (hplain c hc)) hwalk).1 file
            (List.mem_flatMap.mpr ⟨d, hd, hfile⟩)
          rw [List.append_assoc] at hres hisFile
          exact ⟨[c] ++ rel, by simp, hres, hisFile⟩
      · intro rel hrel hfile
        obtain ⟨c, rel, rfl⟩ := List.exists_cons_of_ne_nil hrel
        have hthere : s.get? (q ++ c :: rel) ≠ none := by
          obtain ⟨d, u, hu⟩ := FileTree.isFile_iff.mp hfile
          rw [hu]
          exact Option.some_ne_none _
        by_cases hnil : rel = []
        · subst hnil
          have hc : c ∈ s.listdir q := mem_listdir_iff.mpr hthere
          refine ⟨join top c, Or.inl (List.mem_map.mpr ⟨c, ?_, rfl⟩), resolve_child hq (hplain c hc)⟩
          exact List.mem_filter.mpr ⟨hc, by rw [FileTree.isDir_eq_false hfile]; rfl⟩
        · -- below the directory `c`
          have hsplit : q ++ c :: rel = (q ++ [c]) ++ rel := by simp
          rw [hsplit] at hfile hthere ⊢
          have hdir : s.isDir (q ++ [c]) = true :=
            FileTree.isDir_of_prefix (List.prefix_append _ _) (by simpa using hnil) hthere
          have hc : c ∈ s.listdir q := by
            obtain ⟨u, hu⟩ := FileTree.isDir_iff.mp hdir
            exact mem_listdir_iff.mpr (by rw [hu]; exact Option.some_ne_none _)
          obtain ⟨ds, hds, hwalk⟩ := hdown c hc hdir
          obtain ⟨file, hmem, hres⟩ := (ih (resolve_child hq (hplain c hc)) hwalk).2 rel hnil hfile
          obtain ⟨d, hd, hfile⟩ := List.mem_flatMap.mp hmem
          exact ⟨file, Or.inr (List.mem_flatMap.mpr
            ⟨d, List.mem_flatten.mpr ⟨ds, hds, hd⟩, hfile⟩), hres⟩

-- ============================================================================
-- Packing
-- ============================================================================

/-- The files below `top` with their paths from `start`, as they are written into an
    archive. -/
def packFiles (cwd top start : Str) : Prog FileTree (List (Str × Bytes)) := do
  let fuel ← depthBound cwd top
  let directories ← walkFiles cwd fuel top
  let files := directories.flatMap fun (root, names) => names.map (join root)
  collect (fun file => do
    let data ← readFile cwd file
    return (relpath cwd file start, data)) files

theorem readFile_ok_iff {p : Str} {data : Bytes} {s t : FileTree} :
    readFile cwd p s = .ok data t ↔
      ∃ q, resolve cwd s p = .ok q ∧ s.fileAt q = some data ∧ t = s := by
  rw [readFile, fetch_ok_iff]
  rfl

/-- The members of an archive of these names and contents, as it is read back. -/
def written (members : List (Str × Bytes)) : List ZipFile.Member :=
  members.map fun (name, data) => { filename := name, content := some data }

variable (hcwd : isabs cwd = true) (hplain : ∀ c ∈ comps cwd, Plain c)
include hcwd hplain

/-- The members of an archive: the files of the directory, each under the path from the
    start, which lies at or above it. -/
theorem mem_packFiles_iff {top start : Str} {q base up : Path} {members : List (Str × Bytes)}
    {s s' : FileTree} (hq : resolve cwd s top = .ok q) (hstart : comps (abspath cwd start) = base)
    (hup : q = base ++ up) (h : packFiles cwd top start s = .ok members s') (name : Str)
    (data : Bytes) : (name, data) ∈ members ↔
      ∃ rel, rel ≠ [] ∧ s.fileAt (q ++ rel) = some data ∧ name = joinSep (up ++ rel) := by
  rw [packFiles] at h
  obtain ⟨fuel, t₁, hfuel, hrest⟩ := bind_ok_iff.mp h
  have hsame : t₁ = s := (keeps_reads (F := unchanged) _).of_ok hfuel
  rw [hsame] at hrest
  obtain ⟨directories, t₂, hwalk, hfiles⟩ := bind_ok_iff.mp hrest
  have hsame' : t₂ = s := (keeps_walkFiles (F := unchanged)).of_ok hwalk
  rw [hsame'] at hwalk hfiles
  obtain ⟨hsound, hcomplete⟩ := mem_walkFiles_iff hq hwalk
  obtain ⟨-, hdown, hback⟩ := of_collect
    (fun file _ => keeps_bind keeps_readFile fun _ => keeps_pure _) hfiles
  -- the name a file is written under
  have hname : ∀ file rel, rel ≠ [] → resolve cwd s file = .ok (q ++ rel) →
      s.fileAt (q ++ rel) ≠ none → relpath cwd file start = joinSep (up ++ rel) := by
    intro file rel hrel hres hthere
    have hpath := eq_comps_abspath_of_resolve hcwd hplain hres
    refine relpath_below (by rw [← hpath, hstart, hup, List.append_assoc]) (by simp [hrel]) ?_
    intro c hc
    have hcs : c ∈ q ++ rel := by
      rw [hup, List.append_assoc]
      exact List.mem_append_right _ hc
    rw [hpath] at hcs
    exact (normal_abspath hcwd file).plain c hcs
  constructor
  · intro hmem
    obtain ⟨file, hfile, hread⟩ := hback _ hmem
    obtain ⟨data', t₃, hdata, hpair⟩ := bind_ok_iff.mp hread
    cases hpair
    obtain ⟨p, hp, hcontent, -⟩ := readFile_ok_iff.mp hdata
    obtain ⟨rel, hrel, hres, -⟩ := hsound file hfile
    rw [hp, Except.ok.injEq] at hres
    subst hres
    exact ⟨rel, hrel, hcontent, hname file rel hrel hp (by rw [hcontent]; simp)⟩
  · rintro ⟨rel, hrel, hcontent, rfl⟩
    obtain ⟨file, hfile, hres⟩ := hcomplete rel hrel (FileTree.isFile_of_fileAt hcontent)
    obtain ⟨member, hmem, hread⟩ := hdown file hfile
    obtain ⟨data', t₃, hdata, hpair⟩ := bind_ok_iff.mp hread
    cases hpair
    obtain ⟨p, hp, hcontent', -⟩ := readFile_ok_iff.mp hdata
    rw [hp, Except.ok.injEq] at hres
    subst hres
    rw [hcontent, Option.some_inj] at hcontent'
    rw [hcontent', ← hname file rel hrel hp (by rw [hcontent]; simp)]
    exact hmem

-- ============================================================================
-- Unpacking
-- ============================================================================

omit hcwd hplain in
/-- The member of a file below the start. -/
theorem parts_joinSep {cs : List Str} (h : ∀ c ∈ cs, Plain c) (hne : cs ≠ [])
    (content : Option Bytes) :
    ZipFile.Member.parts { filename := joinSep cs, content } = cs ∧
      ZipFile.Member.isDir { filename := joinSep cs, content } = false := by
  constructor
  · rw [ZipFile.Member.parts, split_joinSep (fun c hc => (h c hc).2.1) hne, List.filter_eq_self]
    intro c hc
    simpa using ⟨(h c hc).1, (h c hc).2.2.1, (h c hc).2.2.2⟩
  · simpa [ZipFile.Member.isDir] using getLast?_joinSep_ne_slash h

/-- What unpacking one file changes. -/
theorem fileAt_extractMember {target : Str} {m : ZipFile.Member} {s t : FileTree}
    (hne : m.parts ≠ []) (hfile : m.isDir = false)
    (h : ZipFile.extractMember cwd now target m s = .ok () t) (p : Path) :
    t.fileAt p = if p = comps (abspath cwd target) ++ m.parts then m.content else s.fileAt p := by
  obtain ⟨there, s₁, hthere, h⟩ := bind_ok_iff.mp h
  obtain ⟨_, s₂, hdirs, h⟩ := bind_ok_iff.mp h
  have hfiles : filesStay.rel s s₂ :=
    filesStay.trans ((keeps_query _).of_ok hthere)
      ((keeps_when fun _ => filesStay_makedirs).of_ok hdirs)
  rw [if_neg (by simp [hfile])] at h
  cases hcontent : m.content with
  | none =>
      simp only [hcontent] at h
      cases h
  | some data =>
      simp only [hcontent] at h
      obtain ⟨_, s₃, hwrite, h⟩ := bind_ok_iff.mp h
      obtain rfl : t = s₃ := (keeps_when (F := unchanged) fun _ => keeps_throw _).of_ok h
      obtain ⟨q, hres, hput⟩ := update_ok_iff.mp hwrite
      have harc : joinSep m.parts ≠ [] := fun hnil =>
        hne ((joinSep_eq_nil_iff m.plain_of_mem_parts).mp hnil)
      have hjoin : join target (joinSep m.parts) ≠ [] := by
        unfold join
        split
        · exact harc
        · split <;> simp [harc]
      rw [eq_comps_abspath_of_resolve hcwd hplain hres, comps_abspath_normpath hcwd hplain hjoin,
        comps_abspath_join hcwd hplain m.plain_of_mem_parts] at hput
      rw [fileAt_of_put hput, hfiles p]

/-- What unpacking leaves at or below the target: the members, where each has the
    content `files` gives its path, and the files that were there. -/
theorem fileAt_extractall {target : Str} {members : List ZipFile.Member} {s t : FileTree}
    {files : Path → Option Bytes}
    (hm : ∀ m ∈ members, m.parts ≠ [] ∧ m.isDir = false ∧ m.content = files m.parts)
    (h : ZipFile.extractall cwd now target members s = .ok () t) (rel : Path) :
    t.fileAt (comps (abspath cwd target) ++ rel) =
      if rel ∈ members.map ZipFile.Member.parts then files rel
      else s.fileAt (comps (abspath cwd target) ++ rel) := by
  induction members generalizing s with
  | nil =>
      cases h
      rfl
  | cons m members ih =>
      rw [ZipFile.extractall, each] at h
      obtain ⟨_, u, hu, h⟩ := bind_ok_iff.mp h
      obtain ⟨hne, hfile, hcontent⟩ := hm m List.mem_cons_self
      rw [ih (fun m' hm' => hm m' (List.mem_cons_of_mem _ hm')) h,
        fileAt_extractMember hcwd hplain hne hfile hu, List.map_cons]
      by_cases hrest : rel ∈ members.map ZipFile.Member.parts
      · rw [if_pos hrest, if_pos (List.mem_cons_of_mem _ hrest)]
      · rw [if_neg hrest]
        by_cases hhere : rel = m.parts
        · rw [if_pos (by rw [hhere]), if_pos (by rw [hhere]; exact List.mem_cons_self), hcontent,
            hhere]
        · rw [if_neg (by simpa using hhere), if_neg (by simp [hrest, hhere])]

-- ============================================================================
-- From one directory to another
-- ============================================================================

/-- What lies at or below the target after the files of a directory, named by their
    paths from `up` above it, are unpacked where there was no file. -/
theorem fileAt_unpacked {cwd' top start target : Str} {q base up : Path}
    {members : List (Str × Bytes)} {s s' u t : FileTree} (hcwd' : isabs cwd' = true)
    (hplain' : ∀ c ∈ comps cwd', Plain c) (hq : resolve cwd s top = .ok q)
    (hdir : s.isDir q = true) (hstart : comps (abspath cwd start) = base) (hup : q = base ++ up)
    (hpack : packFiles cwd top start s = .ok members s')
    (hempty : ∀ x, u.fileAt (comps (abspath cwd' target) ++ x) = none)
    (hunpack : ZipFile.extractall cwd' now target (written members) u = .ok () t) (x : Path) :
    t.fileAt (comps (abspath cwd' target) ++ x) =
      if up <+: x then s.fileAt (q ++ x.drop up.length) else none := by
  have hmem := mem_packFiles_iff hcwd hplain hq hstart hup hpack
  -- the paths of the members, as they are unpacked
  have hparts : ∀ rel data, rel ≠ [] → s.fileAt (q ++ rel) = some data →
      ZipFile.Member.parts { filename := joinSep (up ++ rel), content := some data } = up ++ rel ∧
      ZipFile.Member.isDir { filename := joinSep (up ++ rel), content := some data } = false := by
    intro rel data hrel hcontent
    refine parts_joinSep (fun c hc => ?_) (by simp [hrel]) (some data)
    refine FileTree.plain_of_get? (FileTree.get?_ne_none_of_fileAt hcontent) c ?_
    rw [hup, List.append_assoc]
    exact List.mem_append_right _ hc
  obtain ⟨files, hfiles⟩ : ∃ files : Path → Option Bytes, ∀ x, files x =
      if up <+: x then s.fileAt (q ++ x.drop up.length) else none := ⟨_, fun _ => rfl⟩
  have hwritten : ∀ m ∈ written members, m.parts ≠ [] ∧ m.isDir = false ∧
      m.content = files m.parts := by
    intro m hm
    obtain ⟨⟨name, data⟩, hmember, rfl⟩ := List.mem_map.mp hm
    obtain ⟨rel, hrel, hcontent, rfl⟩ := (hmem name data).mp hmember
    obtain ⟨hp, hd⟩ := hparts rel data hrel hcontent
    refine ⟨by rw [hp]; simp [hrel], hd, ?_⟩
    rw [hp, hfiles, if_pos (List.prefix_append _ _), List.drop_left, hcontent]
  rw [fileAt_extractall hcwd' hplain' hwritten hunpack, hempty, ← hfiles]
  split
  · rfl
  · next hnot =>
      -- a file at `x` would be a member
      rw [hfiles]
      split
      · next hprefix =>
          obtain ⟨rel, rfl⟩ := hprefix
          rw [List.drop_left]
          cases hcontent : s.fileAt (q ++ rel) with
          | none => rfl
          | some data =>
              have hrel : rel ≠ [] := by
                rintro rfl
                rw [List.append_nil, FileTree.fileAt_eq_none_of_isDir hdir] at hcontent
                cases hcontent
              refine absurd (List.mem_map.mpr ⟨_, ?_, (hparts rel data hrel hcontent).1⟩) hnot
              exact List.mem_map.mpr ⟨(joinSep (up ++ rel), data),
                (hmem _ _).mpr ⟨rel, hrel, hcontent, rfl⟩, rfl⟩
      · rfl

end Archive
end Py
end NetworkingFinal
