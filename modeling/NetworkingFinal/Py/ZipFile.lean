/-
  NetworkingFinal.Py.ZipFile

  Unpacking an archive (`ZipFile.extractall`, with `_extract_member` of
  zipfile.py).  The archive format itself is not modelled: an archive is the list
  of its members, as `namelist` and `open` give them.

  Every member lands at or below the target directory, whatever its name: empty
  components, `.` and `..` are dropped.

  Not modelled: the limits that the tree leaves out (PATH_MAX, the depth of
  recursion), and that `is_dir` of Python 3.10 and of the first releases of 3.11
  raises IndexError for a member with an empty name; as in later releases, such a
  member is a file here.
-/
import NetworkingFinal.Py.Os

namespace NetworkingFinal
namespace Py
namespace ZipFile

open PosixPath Prog Os

/-- A member of an archive.  It may fail to open, and then has no content.  A wrong
    checksum (`intact`) is only found when the content has been read: `content` is what
    was written until then. -/
structure Member where
  filename : Str
  content : Option Bytes
  intact : Bool := true

/-- `ZipInfo.is_dir` -/
def Member.isDir (m : Member) : Bool := m.filename.getLast? == some '/'

/-- The components of the path a member is unpacked to, below the target. -/
def Member.parts (m : Member) : List Str :=
  (split m.filename).filter fun x => x ≠ [] ∧ x ≠ ['.'] ∧ x ≠ ['.', '.']

section Extract

variable (cwd : Str) (now : UInt64)

/-- `ZipFile._extract_member` -/
def extractMember (target : Str) (m : Member) : Prog FileTree Unit := do
  let arcname := joinSep m.parts
  let targetPath := normpath (join target arcname)
  let upperdirs := dirname targetPath
  -- Create all upper directories if necessary.
  let there ← pathExists cwd upperdirs
  when (upperdirs ≠ [] && !there) (makedirs cwd now upperdirs)
  if m.isDir then
    let isDirectory ← isdir cwd targetPath
    when (!isDirectory) (mkdir cwd now targetPath)
  else
    match m.content with
    | none => throw .badZipFile
    | some data => do
        writeFile cwd now targetPath data
        when (!m.intact) (throw .badZipFile)

/-- `ZipFile.extractall` -/
def extractall (target : Str) (members : List Member) : Prog FileTree Unit :=
  each (extractMember cwd now target) members

end Extract

theorem raises_extractall {P : Exn → Prop} {cwd target : Str} {now : UInt64}
    {members : List Member} (hP : ∀ e, FileError e → P e) (hzip : P .badZipFile) :
    Raises P (extractall cwd now target members) := by
  refine raises_each fun m => ?_
  refine raises_bind raises_query fun _ => ?_
  refine raises_bind (raises_when (raises_makedirs hP)) fun _ => raises_ite ?_ ?_
  · exact raises_bind raises_query fun _ => raises_when (raises_update hP)
  · split
    · exact raises_throw hzip
    · exact raises_bind (raises_update hP) fun _ => raises_when (raises_throw hzip)

-- ============================================================================
-- Members stay below the target
-- ============================================================================

theorem Member.plain_of_mem_parts {m : Member} : ∀ c ∈ m.parts, Plain c := by
  intro c hc
  obtain ⟨hmem, hc⟩ := List.mem_filter.mp hc
  have hc : c ≠ [] ∧ c ≠ ['.'] ∧ c ≠ ['.', '.'] := by simpa using hc
  exact ⟨hc.1, notMem_of_mem_split hmem, hc.2.1, hc.2.2⟩

theorem normal_target {target : Str} {q : Path} (m : Member) (h : Spells target q) :
    Normal (normpath (join target (joinSep m.parts))) (q ++ m.parts) := by
  have hplain := m.plain_of_mem_parts
  exact (h.spells_join (isPrefixOf_slash_joinSep hplain) (comps_joinSep hplain)
    hplain).normal_normpath

/-- An absolute target has directories above each member. -/
theorem upperdirs_ne_nil {target : Str} {q : Path} (m : Member) (h : Spells target q) :
    decide (dirname (normpath (join target (joinSep m.parts))) ≠ []) = true := by
  refine decide_eq_true fun hnil => ?_
  have habs := (normal_target m h).normal_dirname.spells.abs
  rw [hnil] at habs
  cases habs

section Confinement

variable {E : FileTree → FileTree → Prop} {cwd target : Str} {now : UInt64} {q r : Path}
  [hE : Couples r E]

theorem keeps_extractMember (hp : Spells target q) (hr : r <+: q) (m : Member) :
    Keeps (confined r) (extractMember cwd now target m) := by
  have hn := normal_target m hp
  have hbelow : r <+: q ++ m.parts := hr.trans (List.prefix_append _ _)
  have hupper : Keeps (confined r) (query cwd (fun t q => (t.get? q).isSome) _ >>= fun b =>
      when (!b) (makedirs cwd now _)) :=
    keeps_makedirs_unless hn.normal_dirname.spells (prefix_dropLast_or hbelow)
      fun _ => isSome_get?_of_isDir
  unfold extractMember
  simp only [upperdirs_ne_nil m hp, Bool.true_and]
  rw [← bind_assoc]
  refine keeps_bind hupper fun _ => keeps_ite (fun _ => ?_) fun _ => ?_
  · exact keeps_bind keeps_isdir fun _ => keeps_when fun _ => keeps_mkdir hn.spells hbelow
  · split
    · exact keeps_throw _
    · exact keeps_bind (keeps_writeFile hn.spells hbelow) fun _ =>
        keeps_when fun _ => keeps_throw _

theorem keeps_extractall (hp : Spells target q) (hr : r <+: q) (members : List Member) :
    Keeps (confined r) (extractall cwd now target members) :=
  keeps_each fun m _ => keeps_extractMember hp hr m

theorem coupled_extractMember (hp : Spells target q) (hr : r <+: q) (m : Member) :
    Coupled E (extractMember cwd now target m) (extractMember cwd now target m) := by
  have hn := normal_target m hp
  have hbelow : r <+: q ++ m.parts := hr.trans (List.prefix_append _ _)
  have hupper : Coupled E (query cwd (fun t q => (t.get? q).isSome) _ >>= fun b =>
      when (!b) (makedirs cwd now _)) _ :=
    coupled_makedirs_unless hn.normal_dirname.spells (prefix_dropLast_or hbelow)
      (fun _ => isSome_get?_of_isDir) fun h s t hst => by
        rw [FileTree.get?_congr (hE.agree hst).below h]
  unfold extractMember
  simp only [upperdirs_ne_nil m hp, Bool.true_and]
  rw [← bind_assoc]
  refine coupled_bind hupper fun _ => coupled_ite (fun _ => ?_) fun _ => ?_
  · exact coupled_bind (coupled_isdir hn.spells hbelow) fun _ =>
      coupled_when fun _ => coupled_mkdir hn.spells hbelow
  · split
    · exact coupled_throw _
    · exact coupled_bind (coupled_writeFile hn.spells hbelow) fun _ =>
        coupled_when fun _ => coupled_throw _

theorem coupled_extractall (hp : Spells target q) (hr : r <+: q) (members : List Member) :
    Coupled E (extractall cwd now target members) (extractall cwd now target members) :=
  coupled_each fun m _ => coupled_extractMember hp hr m

end Confinement

-- ============================================================================
-- What unpacking leaves at the target
-- ============================================================================

section Target

variable {cwd target : Str} {now : UInt64} {q : Path}

theorem kindsStay_extractMember (m : Member) :
    Keeps kindsStay (extractMember cwd now target m) := by
  refine keeps_bind (keeps_query _) fun _ => ?_
  refine keeps_bind (keeps_when fun _ => kindsStay_makedirs) fun _ => keeps_ite (fun _ => ?_) ?_
  · exact keeps_bind keeps_isdir fun _ => keeps_when fun _ => kindsStay_mkdir
  · intro _
    split
    · exact keeps_throw _
    · exact keeps_bind kindsStay_writeFile fun _ => keeps_when fun _ => keeps_throw _

theorem kindsStay_extractall (members : List Member) :
    Keeps kindsStay (extractall cwd now target members) :=
  keeps_each fun m _ => kindsStay_extractMember m

/-- What a member leaves where it is unpacked: a directory or a file. -/
theorem entry_of_extractMember {m : Member} {s t : FileTree} (hp : Spells target q)
    (h : extractMember cwd now target m s = .ok () t) :
    (m.isDir = true ∧ t.isDir (q ++ m.parts) = true) ∨
      (m.isDir = false ∧ t.isFile (q ++ m.parts) = true) := by
  have hn := (normal_target m hp).spells
  obtain ⟨_, s₁, -, h⟩ := bind_ok_iff.mp h
  obtain ⟨_, s₂, -, h⟩ := bind_ok_iff.mp h
  by_cases hdir : m.isDir = true
  · refine Or.inl ⟨hdir, ?_⟩
    rw [if_pos hdir] at h
    obtain ⟨there, s₃, hthere, h⟩ := bind_ok_iff.mp h
    obtain ⟨hisDir, rfl⟩ := of_query_ok hn hthere
    cases there with
    | true =>
        cases h
        exact hisDir
    | false => exact isDir_of_mkdirAt (of_update_ok hn h)
  · refine Or.inr ⟨by simpa using hdir, ?_⟩
    rw [if_neg hdir] at h
    cases hcontent : m.content with
    | none =>
        simp only [hcontent] at h
        cases h
    | some data =>
        simp only [hcontent] at h
        obtain ⟨_, s₃, hwrite, h⟩ := bind_ok_iff.mp h
        obtain rfl : t = s₃ := (keeps_when (F := unchanged) fun _ => keeps_throw _).of_ok h
        exact isFile_of_put (of_update_ok hn hwrite)

/-- A member below the target, or a directory at it, makes the target a directory. -/
theorem isDir_of_extractMember {m : Member} {s t : FileTree} (hp : Spells target q)
    (hm : m.parts ≠ [] ∨ m.isDir = true) (h : extractMember cwd now target m s = .ok () t) :
    t.isDir q = true := by
  have hentry := entry_of_extractMember hp h
  by_cases hparts : m.parts = []
  · have hdir := hm.resolve_left (fun hne => hne hparts)
    rw [hparts, List.append_nil, hdir] at hentry
    rcases hentry with ⟨-, hisDir⟩ | ⟨hfalse, -⟩
    · exact hisDir
    · cases hfalse
  · have hne : t.get? (q ++ m.parts) ≠ none := by
      rcases hentry with ⟨-, hisDir⟩ | ⟨-, hisFile⟩
      · obtain ⟨u, hu⟩ := FileTree.isDir_iff.mp hisDir
        rw [hu]
        exact Option.some_ne_none _
      · obtain ⟨d, u, hu⟩ := FileTree.isFile_iff.mp hisFile
        rw [hu]
        exact Option.some_ne_none _
    exact FileTree.isDir_of_prefix (List.prefix_append _ _) (by simpa using hparts) hne

end Target

end ZipFile
end Py
end NetworkingFinal
