/-
  NetworkingFinal.Py.Unpacking

  When making directories and unpacking an archive succeed, and what is there
  afterwards.

  - `wp_makedirsAt`: the directories that `makedirs` makes, also when it fails.
  - `wp_extractall`: an archive unpacks where nothing is exactly if its members fit
    together (`Unpackable`), and then it is there (`Unpacked`).
-/
import NetworkingFinal.Py.Archive
import Mathlib.Data.List.Infix

namespace NetworkingFinal
namespace Py

open PosixPath Prog Os

-- ============================================================================
-- Making directories
-- ============================================================================

/-- A directory can be made at `p`, with those above it that are missing. -/
def Makes (t : FileTree) (p : Path) : Prop :=
  t.get? p = none ∧ (∀ x ∈ p.inits, t.isFile x = false) ∧ ∀ c ∈ p, LegalName c

instance (t : FileTree) (p : Path) : Decidable (Makes t p) :=
  inferInstanceAs (Decidable (_ ∧ _ ∧ _))

/-- There is a directory at `p`, or one can be made. -/
def Ready (t : FileTree) (p : Path) : Prop := t.isDir p = true ∨ Makes t p

/-- `t` is `s` with the directories made that can be made down to `p`. -/
def Made (now : UInt64) (s : FileTree) (p : Path) (t : FileTree) : Prop :=
  ∀ x, t.get? x = if x <+: p ∧ Makes s x then some (.dir now) else s.get? x

section Makedirs

variable {now : UInt64} {s t : FileTree} {p : Path}

theorem legal_of_get? (h : s.get? p ≠ none) : ∀ c ∈ p, LegalName c := by
  by_cases hnil : p = []
  · simp [hnil]
  · rw [FileTree.get?_of_ne s hnil] at h
    exact s.names p ((Dict.mem_keys_iff _ _).mpr (Option.ne_none_iff_exists'.mp h))

/-- No file lies above an entry. -/
theorem isFile_eq_false_of_prefix {x : Path} (hx : x <+: p) (hne : x ≠ p) (h : s.get? p ≠ none) :
    s.isFile x = false :=
  FileTree.isFile_eq_false (FileTree.isDir_of_prefix hx hne h)

theorem makes_concat_iff {name : Str} : Makes s (p ++ [name]) ↔
    s.get? (p ++ [name]) = none ∧ LegalName name ∧ Ready s p := by
  constructor
  · rintro ⟨hnone, hfile, hlegal⟩
    refine ⟨hnone, hlegal name (by simp), ?_⟩
    have hp : ∀ x ∈ p.inits, s.isFile x = false := fun x hx =>
      hfile x ((List.mem_inits _ _).mpr (((List.mem_inits _ _).mp hx).trans
        (List.prefix_append _ _)))
    by_cases hthere : s.get? p = none
    · exact Or.inr ⟨hthere, hp, fun c hc => hlegal c (List.mem_append_left _ hc)⟩
    · exact Or.inl (FileTree.isDir_of_get? hthere (hp p ((List.mem_inits _ _).mpr List.prefix_rfl)))
  · rintro ⟨hnone, hlegal, hready⟩
    have hp : (∀ x, x <+: p → s.isFile x = false) ∧ ∀ c ∈ p, LegalName c := by
      rcases hready with hdir | ⟨-, hfile, hnames⟩
      · have hthere := FileTree.get?_ne_none_of_isDir hdir
        refine ⟨fun x hx => ?_, legal_of_get? hthere⟩
        by_cases hxp : x = p
        · rw [hxp]
          exact FileTree.isFile_eq_false hdir
        · exact isFile_eq_false_of_prefix hx hxp hthere
      · exact ⟨fun x hx => hfile x ((List.mem_inits _ _).mpr hx), hnames⟩
    refine ⟨hnone, fun x hx => ?_, fun c hc => ?_⟩
    · rcases List.prefix_concat_iff.mp ((List.mem_inits _ _).mp hx) with rfl | hx
      · rw [FileTree.isFile, hnone]
      · exact hp.1 x hx
    · rcases List.mem_append.mp hc with hc | hc
      · exact hp.2 c hc
      · rw [List.mem_singleton.mp hc]
        exact hlegal

/-- Above what is there, nothing can be made. -/
theorem not_makes_of_prefix {x : Path} (hx : x <+: p) (h : s.get? p ≠ none) : ¬ Makes s x := by
  rintro ⟨hnone, -⟩
  by_cases hxp : x = p
  · exact h (hxp ▸ hnone)
  · exact FileTree.get?_ne_none_of_isDir (FileTree.isDir_of_prefix hx hxp h) hnone

theorem made_self (h : s.get? p ≠ none) : Made now s p s := by
  intro x
  rw [if_neg fun hx => not_makes_of_prefix hx.1 h hx.2]

theorem get?_of_mkdirAt {q : Path} (h : mkdirAt now s q = some t) (x : Path) :
    t.get? x = if x = q then some (.dir now) else s.get? x :=
  get?_of_put (put_of_mkdirAt h).2 x

theorem makes_of_mkdirAt {name : Str} (h : mkdirAt now s (p ++ [name]) = some t) :
    Makes s (p ++ [name]) := by
  obtain ⟨hnone, hput⟩ := put_of_mkdirAt h
  obtain ⟨⟨-, hdir, -, hlegal⟩, -⟩ := put_eq_some_iff.mp hput
  rw [List.dropLast_concat] at hdir
  exact makes_concat_iff.mpr ⟨hnone, hlegal name (by simp), Or.inl hdir⟩

theorem mkdirAt_of_makes (now : UInt64) {name : Str} (h : Makes s (p ++ [name]))
    (hthere : s.get? p ≠ none) :
    ∃ t, mkdirAt now s (p ++ [name]) = some t := by
  obtain ⟨-, -, hready⟩ := makes_concat_iff.mp h
  have hdir : s.isDir p = true := hready.resolve_right fun hm => hthere hm.1
  have hcreatable : s.Creatable (p ++ [name]) := by
    refine ⟨by simp, by rwa [List.dropLast_concat], ?_, h.2.2⟩
    rw [FileTree.isDir, h.1]
  exact ⟨_, by rw [mkdirAt, if_neg (by simp [h.1]), put, dif_pos hcreatable]⟩

/-- The directories made above `p`, when `p` itself is not made. -/
theorem Made.concat {name : Str} (h : Made now s p t) (hnot : ¬ Makes s (p ++ [name])) :
    Made now s (p ++ [name]) t := by
  intro x
  rw [h x]
  by_cases hx : x <+: p
  · simp only [hx, hx.trans (List.prefix_append p [name])]
  · rw [if_neg fun hmade => hx hmade.1, if_neg]
    rintro ⟨hpre, hmakes⟩
    rcases List.prefix_concat_iff.mp hpre with rfl | hpre
    · exact hnot hmakes
    · exact hx hpre

/-- The directories made above `p`, and then `p`. -/
theorem Made.concat_mkdirAt {name : Str} {u : FileTree} (h : Made now s p t)
    (hmakes : Makes s (p ++ [name])) (hmk : mkdirAt now t (p ++ [name]) = some u) :
    Made now s (p ++ [name]) u := by
  intro x
  rw [get?_of_mkdirAt hmk]
  by_cases hxp : x = p ++ [name]
  · rw [if_pos hxp, if_pos ⟨by rw [hxp], hxp ▸ hmakes⟩]
  · have hiff : x <+: p ++ [name] ↔ x <+: p := by
      rw [List.prefix_concat_iff]
      exact or_iff_right hxp
    rw [if_neg hxp, h x]
    simp only [hiff]

theorem Made.isDir_iff (h : Made now s p t) : t.isDir p = true ↔ Ready s p := by
  by_cases hmakes : Makes s p
  · have hp : t.get? p = some (.dir now) := (h p).trans (if_pos ⟨List.prefix_rfl, hmakes⟩)
    exact ⟨fun _ => Or.inr hmakes, fun _ => FileTree.isDir_iff.mpr ⟨now, hp⟩⟩
  · have hp : t.get? p = s.get? p := (h p).trans (if_neg fun hx => hmakes hx.2)
    rw [FileTree.isDir, hp, Ready, FileTree.isDir]
    exact ⟨Or.inl, fun hready => hready.resolve_right hmakes⟩

/-- What lies below `p` is as it was. -/
theorem Made.get?_of_outside (h : Made now s p t) {x : Path} (hx : ¬ x <+: p) :
    t.get? x = s.get? x := (h x).trans (if_neg fun hmade => hx hmade.1)

/-- `os.mkdir` after the directories above, unless there is a directory. -/
theorem wp_mkdir_last {name : Str} (h : Made now s p t) (hthere : t.get? p ≠ none) :
    wp (reads (fun t => .ok (t.isDir (p ++ [name]))) >>= fun isDirectory =>
        when (!isDirectory) (updateAt (mkdirAt now) (p ++ [name])))
      (fun _ u => Made now s (p ++ [name]) u ∧ Ready s (p ++ [name]))
      (fun _ u => Made now s (p ++ [name]) u ∧ ¬ Ready s (p ++ [name])) t := by
  have hsame : t.get? (p ++ [name]) = s.get? (p ++ [name]) :=
    h.get?_of_outside fun hpre => absurd hpre.length_le (by simp)
  have hdir : t.isDir (p ++ [name]) = s.isDir (p ++ [name]) := by
    rw [FileTree.isDir, FileTree.isDir, hsame]
  rw [wp_bind, wp_reads]
  refine ⟨fun isDirectory hisDir => ?_, fun _ h => by cases h⟩
  rw [Except.ok.injEq, hdir] at hisDir
  subst hisDir
  refine wp_when.mpr ⟨fun hnot => ?_, fun hnot => ?_⟩
  · rw [Bool.not_eq_true'] at hnot
    rw [updateAt, wp_writes]
    constructor
    · intro u hu
      cases hmk : mkdirAt now t (p ++ [name]) with
      | none => simp [hmk] at hu
      | some u' =>
          simp only [hmk, Except.ok.injEq] at hu
          subst hu
          obtain ⟨hnone, hlegal, hready⟩ := makes_concat_iff.mp (makes_of_mkdirAt hmk)
          have hup : t.isDir p = true := hready.resolve_right fun hm => hthere hm.1
          have hmakes : Makes s (p ++ [name]) :=
            makes_concat_iff.mpr ⟨hsame ▸ hnone, hlegal, h.isDir_iff.mp hup⟩
          exact ⟨h.concat_mkdirAt hmakes hmk, Or.inr hmakes⟩
    · intro e he
      have hnot' : ¬ Makes s (p ++ [name]) := by
        intro hmakes
        obtain ⟨hnone, hlegal, hready⟩ := makes_concat_iff.mp hmakes
        obtain ⟨u, hu⟩ := mkdirAt_of_makes now (makes_concat_iff.mpr
          ⟨hsame ▸ hnone, hlegal, Or.inl (h.isDir_iff.mpr hready)⟩) hthere
        simp [hu] at he
      refine ⟨h.concat hnot', fun hready => hready.elim (fun hd => ?_) hnot'⟩
      rw [hnot] at hd
      cases hd
  · rw [Bool.not_eq_false'] at hnot
    exact ⟨h.concat fun hmakes => FileTree.get?_ne_none_of_isDir hnot hmakes.1, Or.inl hnot⟩

/-- `makedirs` makes the directories that can be made, and ends well exactly if there
    is a directory then. -/
theorem wp_makedirsAt (now : UInt64) (s : FileTree) (p : Path) :
    wp (makedirsAt now p.reverse) (fun _ t => Made now s p t ∧ Ready s p)
      (fun _ t => Made now s p t ∧ ¬ Ready s p) s := by
  induction p using List.reverseRecOn with
  | nil => exact ⟨made_self (by simp [FileTree.get?_nil]), Or.inl rfl⟩
  | append_singleton p name ih =>
      rw [List.reverse_concat, makedirsAt, List.reverse_cons, List.reverse_reverse, wp_bind,
        wp_reads]
      refine ⟨fun above habove => ?_, fun _ h => by cases h⟩
      rw [Except.ok.injEq] at habove
      subst habove
      rw [wp_bind, wp_when]
      constructor
      · intro hnone
        rw [Bool.not_eq_true', Option.isSome_eq_false_iff, Option.isNone_iff_eq_none] at hnone
        refine wp_mono ih (fun _ t ht => ?_) fun _ t ht => ?_
        · exact wp_mkdir_last ht.1 (FileTree.get?_ne_none_of_isDir (ht.1.isDir_iff.mpr ht.2))
        · have hnot : ¬ Makes s (p ++ [name]) := fun hmakes =>
            ht.2 (makes_concat_iff.mp hmakes).2.2
          refine ⟨ht.1.concat hnot, fun hready => hready.elim (fun hdir => ?_) hnot⟩
          have hup := FileTree.isDir_dropLast hdir
          rw [List.dropLast_concat] at hup
          exact FileTree.get?_ne_none_of_isDir hup hnone
      · intro hsome
        rw [Bool.not_eq_false', Option.isSome_iff_ne_none] at hsome
        exact wp_mkdir_last (made_self hsome) hsome

/-- What is above a directory, or above one that can be made. -/
theorem Ready.above {x : Path} (h : Ready s p) (hx : x <+: p) : Ready s x := by
  by_cases hthere : s.get? x = none
  · rcases h with hdir | ⟨-, hfile, hlegal⟩
    · by_cases hxp : x = p
      · exact Or.inl (hxp ▸ hdir)
      · exact Or.inl (FileTree.isDir_of_prefix hx hxp (FileTree.get?_ne_none_of_isDir hdir))
    · exact Or.inr ⟨hthere, fun y hy => hfile y ((List.mem_inits _ _).mpr
        (((List.mem_inits _ _).mp hy).trans hx)), fun c hc => hlegal c (hx.subset hc)⟩
  · refine Or.inl (FileTree.isDir_of_get? hthere ?_)
    rcases h with hdir | ⟨-, hfile, -⟩
    · by_cases hxp : x = p
      · exact FileTree.isFile_eq_false (hxp ▸ hdir)
      · exact isFile_eq_false_of_prefix hx hxp (FileTree.get?_ne_none_of_isDir hdir)
    · exact hfile x ((List.mem_inits _ _).mpr hx)

theorem Made.fileAt_eq (h : Made now s p t) (x : Path) : t.fileAt x = s.fileAt x := by
  rw [FileTree.fileAt, FileTree.fileAt, h]
  by_cases hmakes : x <+: p ∧ Makes s x
  · rw [if_pos hmakes, hmakes.2.1]
  · rw [if_neg hmakes]

/-- The directories after `makedirs` ended well. -/
theorem Made.isDir_iff_of_ready (h : Made now s p t) (hready : Ready s p) (x : Path) :
    t.isDir x = true ↔ s.isDir x = true ∨ x <+: p := by
  by_cases hmakes : x <+: p ∧ Makes s x
  · have hentry : t.get? x = some (.dir now) := (h x).trans (if_pos hmakes)
    exact ⟨fun _ => Or.inr hmakes.1, fun _ => FileTree.isDir_iff.mpr ⟨now, hentry⟩⟩
  · have hentry : t.get? x = s.get? x := (h x).trans (if_neg hmakes)
    rw [FileTree.isDir, hentry]
    refine ⟨Or.inl, fun hx => hx.elim id fun hpre => ?_⟩
    exact (hready.above hpre).resolve_right fun hm => hmakes ⟨hpre, hm⟩

/-- Below a directory, `makedirs` changes nothing outside. -/
theorem Made.get?_elsewhere {q x : Path} (h : Made now s p t) (hq : s.isDir q.dropLast = true)
    {y : Path} (hp : p <+: q ++ y) (hx : ¬ q <+: x) : t.get? x = s.get? x := by
  refine (h x).trans (if_neg fun hmakes => ?_)
  rcases List.prefix_or_prefix_of_prefix (hmakes.1.trans hp) (List.prefix_append q y) with hxq | hqx
  · rcases List.eq_nil_or_concat' q with rfl | ⟨d, c, rfl⟩
    · exact hx List.nil_prefix
    · rw [List.dropLast_concat] at hq
      have hxd : x <+: d := (List.prefix_concat_iff.mp hxq).resolve_left fun he =>
        hx (he ▸ List.prefix_rfl)
      exact not_makes_of_prefix hxd (FileTree.get?_ne_none_of_isDir hq) hmakes.2
  · exact hx hqx

/-- The directories that a call makes first, unless something is there. -/
theorem wp_makedirs_unless (now : UInt64) (s : FileTree) (p : Path) :
    wp (reads (fun t => .ok (t.get? p).isSome) >>= fun there =>
        when (!there) (makedirsAt now p.reverse))
      (fun _ t => Made now s p t ∧ t.get? p ≠ none)
      (fun _ t => Made now s p t ∧ ¬ Ready s p) s := by
  rw [wp_bind, wp_reads]
  refine ⟨fun there hthere => ?_, nofun⟩
  rw [Except.ok.injEq] at hthere
  subst hthere
  refine wp_when.mpr ⟨fun _ => wp_mono (wp_makedirsAt now s p) (fun _ t ht => ?_) fun _ _ ht => ht,
    fun hsome => ?_⟩
  · exact ⟨ht.1, FileTree.get?_ne_none_of_isDir (ht.1.isDir_iff.mpr ht.2)⟩
  · rw [Bool.not_eq_false', Option.isSome_iff_ne_none] at hsome
    exact ⟨made_self hsome, hsome⟩

end Makedirs

-- ============================================================================
-- Archives
-- ============================================================================

namespace ZipFile

/-- The content of the file that the members put at a path: that of the last one. -/
def fileIn (members : List Member) (x : Path) : Option Bytes :=
  members.foldl (fun content m => if m.isDir = false ∧ m.parts = x then m.content else content) none

/-- The members need a directory at a path. -/
def DirIn (members : List Member) (x : Path) : Prop :=
  ∃ m ∈ members, x <+: m.parts ∧ (x ≠ m.parts ∨ m.isDir = true)

/-- The members can be unpacked at `q`: their names are legal, their contents are whole,
    and no file lies where another member needs a directory. -/
structure Unpackable (q : Path) (members : List Member) : Prop where
  legal : ∀ m ∈ members, ∀ c ∈ q ++ m.parts, LegalName c
  whole : ∀ m ∈ members, m.isDir = false → m.content ≠ none ∧ m.intact = true
  apart : ∀ m ∈ members, m.isDir = false → ∀ m' ∈ members, m.parts <+: m'.parts →
    m'.isDir = false ∧ m.parts = m'.parts

/-- Unpacking at `q` begins by putting something there: its name is legal, and there is a
    first member, which is not a file at `q` without a content. -/
def Begins (q : Path) (members : List Member) : Prop :=
  (∀ c ∈ q, LegalName c) ∧ ∃ m ∈ members.head?,
    ¬ (m.parts = [] ∧ m.isDir = false ∧ m.content = none)

/-- At and below `q` lie the members, and nothing else. -/
structure Unpacked (q : Path) (members : List Member) (t : FileTree) : Prop where
  files : ∀ x, t.fileAt (q ++ x) = fileIn members x
  dirs : ∀ x, t.isDir (q ++ x) = true ↔ DirIn members x

theorem fileIn_concat (members : List Member) (m : Member) (x : Path) :
    fileIn (members ++ [m]) x =
      if m.isDir = false ∧ m.parts = x then m.content else fileIn members x := by
  rw [fileIn, List.foldl_append]
  rfl

theorem dirIn_concat {members : List Member} {m : Member} {x : Path} :
    DirIn (members ++ [m]) x ↔
      DirIn members x ∨ x <+: m.parts ∧ (x ≠ m.parts ∨ m.isDir = true) := by
  simp [DirIn, or_and_right, exists_or]

theorem fileIn_eq_none_iff {members : List Member} {x : Path}
    (h : ∀ m ∈ members, m.isDir = false → m.content ≠ none) :
    fileIn members x = none ↔ ∀ m ∈ members, m.isDir = false → m.parts ≠ x := by
  induction members using List.reverseRecOn with
  | nil => exact ⟨fun _ => nofun, fun _ => rfl⟩
  | append_singleton members m ih =>
      have hm := h m (by simp)
      have ih := ih fun m' hm' => h m' (List.mem_append_left _ hm')
      rw [fileIn_concat]
      split
      · next hx => exact ⟨fun hnone => absurd hnone (hm hx.1),
          fun hall => absurd hx.2 (hall m (by simp) hx.1)⟩
      · next hx =>
          rw [ih]
          constructor
          · intro hall m' hm' hfile
            rcases List.mem_append.mp hm' with hm' | hm'
            · exact hall m' hm' hfile
            · rw [List.mem_singleton.mp hm'] at hfile ⊢
              exact fun hparts => hx ⟨hfile, hparts⟩
          · exact fun hall m' hm' => hall m' (List.mem_append_left _ hm')

/-- What one more member asks of those before it. -/
theorem unpackable_concat_iff {q : Path} {members : List Member} {m : Member} :
    Unpackable q (members ++ [m]) ↔ Unpackable q members ∧ (∀ c ∈ q ++ m.parts, LegalName c) ∧
      (m.isDir = false → m.content ≠ none ∧ m.intact = true ∧ ¬ DirIn members m.parts) ∧
      ∀ x, x <+: m.parts → (x ≠ m.parts ∨ m.isDir = true) → fileIn members x = none := by
  constructor
  · intro h
    have hm : m ∈ members ++ [m] := by simp
    have hold : ∀ m' ∈ members, m' ∈ members ++ [m] := fun m' hm' => List.mem_append_left _ hm'
    refine ⟨⟨fun m' hm' => h.legal m' (hold m' hm'), fun m' hm' => h.whole m' (hold m' hm'),
      fun m' hm' hfile m'' hm'' => h.apart m' (hold m' hm') hfile m'' (hold m'' hm'')⟩,
      h.legal m hm, fun hfile => ?_, fun x hx hdir => ?_⟩
    · refine ⟨(h.whole m hm hfile).1, (h.whole m hm hfile).2, ?_⟩
      rintro ⟨m', hm', hpre, hdir⟩
      obtain ⟨hfile', hparts⟩ := h.apart m hm hfile m' (hold m' hm') hpre
      rcases hdir with hne | hdir
      · exact hne hparts
      · rw [hfile'] at hdir
        cases hdir
    · refine (fileIn_eq_none_iff fun m' hm' hfile => (h.whole m' (hold m' hm') hfile).1).mpr ?_
      rintro m' hm' hfile rfl
      obtain ⟨hfile', hparts⟩ := h.apart m' (hold m' hm') hfile m hm hx
      rcases hdir with hne | hdir
      · exact hne hparts
      · rw [hfile'] at hdir
        cases hdir
  · rintro ⟨h, hlegal, hfile, hdirs⟩
    have hnone := fun x => (fileIn_eq_none_iff (x := x) fun m' hm' hf => (h.whole m' hm' hf).1).mp
    refine ⟨fun m' hm' => ?_, fun m' hm' => ?_, fun m' hm' hf m'' hm'' hpre => ?_⟩
    · rcases List.mem_append.mp hm' with hm' | hm'
      · exact h.legal m' hm'
      · rw [List.mem_singleton.mp hm']
        exact hlegal
    · rcases List.mem_append.mp hm' with hm' | hm'
      · exact h.whole m' hm'
      · rw [List.mem_singleton.mp hm']
        exact fun hf => ⟨(hfile hf).1, (hfile hf).2.1⟩
    · rcases List.mem_append.mp hm' with hm' | hm' <;>
        rcases List.mem_append.mp hm'' with hm'' | hm''
      · exact h.apart m' hm' hf m'' hm'' hpre
      · -- a file among the earlier members
        rw [List.mem_singleton.mp hm''] at hpre ⊢
        by_contra hnot
        refine hnone m'.parts (hdirs m'.parts hpre ?_) m' hm' hf rfl
        rw [not_and_or, Bool.not_eq_false] at hnot
        exact hnot.symm
      · -- the new member is the file
        rw [List.mem_singleton.mp hm'] at hpre hf ⊢
        by_contra hnot
        refine (hfile hf).2.2 ⟨m'', hm'', hpre, ?_⟩
        rw [not_and_or, Bool.not_eq_false] at hnot
        exact hnot.symm
      · rw [List.mem_singleton.mp hm'] at hf
        rw [List.mem_singleton.mp hm', List.mem_singleton.mp hm'']
        exact ⟨hf, rfl⟩

section Place

variable {q : Path} {members : List Member} {m : Member} {v t : FileTree} {now : UInt64}

theorem fileAt_ne_none_iff {p : Path} : v.fileAt p ≠ none ↔ v.isFile p = true := by
  rw [FileTree.fileAt, FileTree.isFile]
  cases v.get? p with
  | none => simp
  | some e => cases e <;> simp

/-- Where a directory can be made below `q`. -/
theorem ready_iff (hq : q ≠ []) (hdir : v.isDir q.dropLast = true) (hu : Unpacked q members v)
    (x : Path) : Ready v (q ++ x) ↔
      (∀ c ∈ q ++ x, LegalName c) ∧ ∀ y, y <+: x → fileIn members y = none := by
  have hfile : ∀ y, v.isFile (q ++ y) = false ↔ fileIn members y = none := by
    intro y
    rw [← hu.files, ← Bool.not_eq_true, ← fileAt_ne_none_iff, not_not]
  constructor
  · intro h
    refine ⟨?_, fun y hy => (hfile y).mp ?_⟩
    · rcases h with hisDir | ⟨-, -, hlegal⟩
      · exact legal_of_get? (FileTree.get?_ne_none_of_isDir hisDir)
      · exact hlegal
    · rcases h.above ((List.prefix_append_right_inj q).mpr hy) with hisDir | ⟨hnone, -⟩
      · exact FileTree.isFile_eq_false hisDir
      · rw [FileTree.isFile, hnone]
  · rintro ⟨hlegal, hfiles⟩
    by_cases hthere : v.get? (q ++ x) = none
    · refine Or.inr ⟨hthere, fun z hz => ?_, hlegal⟩
      rw [List.mem_inits] at hz
      rcases List.prefix_or_prefix_of_prefix hz (List.prefix_append q x) with hzq | ⟨y, rfl⟩
      · by_cases hne : z = q
        · rw [hne, ← List.append_nil q]
          exact (hfile []).mpr (hfiles [] List.nil_prefix)
        · -- above `q`
          have hup : z <+: q.dropLast := by
            rw [← List.dropLast_append_getLast hq, List.prefix_concat_iff,
              List.dropLast_append_getLast hq] at hzq
            exact hzq.resolve_left hne
          by_cases hlast : z = q.dropLast
          · rw [hlast]
            exact FileTree.isFile_eq_false hdir
          · exact isFile_eq_false_of_prefix hup hlast (FileTree.get?_ne_none_of_isDir hdir)
      · exact (hfile y).mpr (hfiles y ((List.prefix_append_right_inj q).mp hz))
    · exact Or.inl (FileTree.isDir_of_get? hthere ((hfile x).mpr (hfiles x List.prefix_rfl)))

theorem prefix_iff_of_concat {d x : Path} (name : Str) :
    x <+: d ↔ x <+: d ++ [name] ∧ x ≠ d ++ [name] := by
  constructor
  · intro h
    refine ⟨h.trans (List.prefix_append _ _), ?_⟩
    rintro rfl
    exact absurd h.length_le (by simp)
  · rintro ⟨h, hne⟩
    exact (List.prefix_concat_iff.mp h).resolve_left hne

/-- The directory that holds a member can be made. -/
theorem ready_dropLast_iff (hq : q ≠ []) (hdir : v.isDir q.dropLast = true)
    (hu : Unpacked q members v) {d : Path} {name : Str} (hpath : q ++ m.parts = d ++ [name]) :
    Ready v d ↔ (∀ c ∈ d, LegalName c) ∧
      ∀ x, x <+: m.parts → x ≠ m.parts → fileIn members x = none := by
  rcases List.eq_nil_or_concat' m.parts with hnil | ⟨xs, last, hparts⟩
  · -- the member is put at `q` itself
    rw [hnil, List.append_nil] at hpath
    rw [hpath, List.dropLast_concat] at hdir
    refine ⟨fun _ => ⟨legal_of_get? (FileTree.get?_ne_none_of_isDir hdir), fun x hx hne => ?_⟩,
      fun _ => Or.inl hdir⟩
    rw [hnil] at hx hne
    exact absurd (List.prefix_nil.mp hx) hne
  · rw [hparts, ← List.append_assoc] at hpath
    obtain ⟨rfl, -⟩ := List.append_inj' hpath rfl
    rw [ready_iff hq hdir hu, hparts]
    refine and_congr_right fun _ => forall_congr' fun x => ?_
    rw [prefix_iff_of_concat last, and_imp]

/-- The directories made for a member. -/
theorem unpacked_made {d : Path} (hu : Unpacked q members v) (hmade : Made now v d t)
    (hready : Ready v d)
    (hd : ∀ x, q ++ x <+: d ↔ x <+: m.parts ∧ (x ≠ m.parts ∨ m.isDir = true)) :
    (∀ x, t.fileAt (q ++ x) = fileIn members x) ∧
      ∀ x, t.isDir (q ++ x) = true ↔ DirIn (members ++ [m]) x := by
  constructor
  · intro x
    rw [hmade.fileAt_eq, hu.files]
  · intro x
    rw [hmade.isDir_iff_of_ready hready, dirIn_concat, hu.dirs, hd]

end Place

section Unpack

variable {cwd target : Str} {now : UInt64} {q : Path} {members : List Member} {m : Member}
  {v : FileTree}

theorem query_of_spells {f : FileTree → Path → Bool} {p : Str} {q : Path} (hp : Spells p q) :
    query cwd f p = reads fun t => .ok (f t q) := by
  funext t
  simp only [query, reads, resolve_of_spells cwd t hp]

theorem update_of_spells {f : FileTree → Path → Option FileTree} {p : Str} {q : Path}
    (hp : Spells p q) : update cwd f p = updateAt f q := by
  funext t
  have hres : reads (fun t => resolve cwd t p) t = .ok q t := by
    simp [reads, resolve_of_spells cwd t hp]
  rw [update, bind_of_ok hres]

theorem makedirs_of_spells {p : Str} {q : Path} (hp : Spells p q) :
    makedirs cwd now p = makedirsAt now q.reverse := by
  funext t
  have hres : reads (fun t => resolve cwd t p) t = .ok q t := by
    simp [reads, resolve_of_spells cwd t hp]
  rw [makedirs, bind_of_ok hres]

/-- The calls for a member whose target leads to `place`. -/
def extractMemberAt (now : UInt64) (m : Member) (place : Path) : Prog FileTree Unit := do
  (do
    let there ← reads fun t => .ok (t.get? place.dropLast).isSome
    when (!there) (makedirsAt now place.dropLast.reverse))
  if m.isDir then do
    let isDirectory ← reads fun t => .ok (t.isDir place)
    when (!isDirectory) (updateAt (mkdirAt now) place)
  else
    match m.content with
    | none => throw .badZipFile
    | some data => do
        updateAt (put (.file data now)) place
        when (!m.intact) (throw .badZipFile)

theorem extractMember_eq (hp : Spells target q) (m : Member) :
    extractMember cwd now target m = extractMemberAt now m (q ++ m.parts) := by
  have hn := normal_target m hp
  unfold extractMember
  simp only [upperdirs_ne_nil m hp, Bool.true_and, pathExists, isdir, mkdir, writeFile,
    query_of_spells hn.spells, query_of_spells hn.normal_dirname.spells, update_of_spells hn.spells,
    makedirs_of_spells hn.normal_dirname.spells]
  rfl

/-- A file at its place, below directories that are there or were made. -/
theorem unpacked_put {m : Member} {d : Path} {name : Str} {data : Bytes} {t u : FileTree}
    (hu : Unpacked q members v) (hmade : Made now v d t) (hready : Ready v d)
    (hpath : q ++ m.parts = d ++ [name]) (hisDir : m.isDir = false)
    (hcontent : m.content = some data)
    (hnot : ¬ DirIn members m.parts) (hput : put (.file data now) t (d ++ [name]) = some u) :
    Unpacked q (members ++ [m]) u := by
  have hunpacked := unpacked_made hu hmade hready (m := m) fun x => by
    rw [prefix_iff_of_concat name, ← hpath, List.prefix_append_right_inj]
    simp [hisDir]
  have hhere : ∀ x, q ++ x = d ++ [name] ↔ m.parts = x := fun x => by
    rw [← hpath, List.append_cancel_left_eq, eq_comm]
  refine ⟨fun x => ?_, fun x => ?_⟩
  · rw [Archive.fileAt_of_put hput, fileIn_concat, hunpacked.1, hcontent]
    simp only [hhere, hisDir, true_and]
  · rw [FileTree.isDir, get?_of_put hput]
    by_cases hx : m.parts = x
    · rw [if_pos ((hhere x).mpr hx), dirIn_concat, ← hx]
      simp [hnot, hisDir]
    · rw [if_neg fun heq => hx ((hhere x).mp heq)]
      exact hunpacked.2 x

/-- A directory is made with those above it. -/
theorem wp_extractMember_directory (cwd : Str) (now : UInt64) {m : Member} (hp : Spells target q)
    (hq : q ≠ []) (hdir : v.isDir q.dropLast = true) (hu : Unpacked q members v)
    (hm : Unpackable q members) (hisDir : m.isDir = true) :
    wp (extractMember cwd now target m)
      (fun _ t => Unpackable q (members ++ [m]) ∧ Unpacked q (members ++ [m]) t)
      (fun _ _ => ¬ Unpackable q (members ++ [m])) v := by
  obtain ⟨d, name, hpath⟩ := (List.eq_nil_or_concat' (q ++ m.parts)).resolve_left (by simp [hq])
  have hiff : Ready v (d ++ [name]) ↔ Unpackable q (members ++ [m]) := by
    rw [← hpath, ready_iff hq hdir hu, unpackable_concat_iff]
    simp [hm, hisDir]
  rw [extractMember_eq hp, extractMemberAt, hpath, List.dropLast_concat, if_pos hisDir, wp_bind]
  refine wp_mono (wp_makedirs_unless now v d) (fun _ t ht => ?_) fun _ t ht => ?_
  · refine wp_mono (wp_mkdir_last ht.1 ht.2) (fun _ u hmade => ?_) fun _ u hmade => ?_
    · refine ⟨hiff.mp hmade.2, ?_⟩
      have hunpacked := unpacked_made hu hmade.1 hmade.2 (m := m) fun x => by
        rw [← hpath, List.prefix_append_right_inj]
        simp [hisDir]
      refine ⟨fun x => ?_, hunpacked.2⟩
      rw [hunpacked.1, fileIn_concat, if_neg (by simp [hisDir])]
    · exact fun h => hmade.2 (hiff.mpr h)
  · exact fun h => ht.2 ((hiff.mpr h).above (List.prefix_append _ _))

/-- A file is put below the directories that are made for it. -/
theorem wp_extractMember_file (cwd : Str) (now : UInt64) {m : Member} (hp : Spells target q)
    (hq : q ≠ []) (hdir : v.isDir q.dropLast = true) (hu : Unpacked q members v)
    (hm : Unpackable q members) (hisDir : m.isDir = false) :
    wp (extractMember cwd now target m)
      (fun _ t => Unpackable q (members ++ [m]) ∧ Unpacked q (members ++ [m]) t)
      (fun _ _ => ¬ Unpackable q (members ++ [m])) v := by
  obtain ⟨d, name, hpath⟩ := (List.eq_nil_or_concat' (q ++ m.parts)).resolve_left (by simp [hq])
  have hup := ready_dropLast_iff hq hdir hu hpath
  have hready : Unpackable q (members ++ [m]) → Ready v d := by
    intro h
    obtain ⟨-, hlegal, -, hfiles⟩ := unpackable_concat_iff.mp h
    rw [hpath] at hlegal
    exact hup.mpr ⟨fun c hc => hlegal c (List.mem_append_left _ hc),
      fun x hx hne => hfiles x hx (Or.inl hne)⟩
  rw [extractMember_eq hp, extractMemberAt, hpath, List.dropLast_concat,
    if_neg (by simp [hisDir]), wp_bind]
  refine wp_mono (wp_makedirs_unless now v d) (fun _ t ht => ?_) fun _ t ht => ?_
  · have hsame : t.isDir (d ++ [name]) = v.isDir (d ++ [name]) := by
      have hentry : t.get? (d ++ [name]) = v.get? (d ++ [name]) :=
        ht.1.get?_of_outside fun hpre => absurd hpre.length_le (by simp)
      rw [FileTree.isDir, FileTree.isDir, hentry]
    have hnotdir : v.isDir (d ++ [name]) = false ↔ ¬ DirIn members m.parts := by
      rw [← hu.dirs, hpath, Bool.not_eq_true]
    cases hcontent : m.content with
    | none => exact fun h => ((unpackable_concat_iff.mp h).2.2.1 hisDir).1 hcontent
    | some data =>
        simp only [wp_bind, updateAt, wp_writes]
        constructor
        · intro u hput
          cases hput' : put (.file data now) t (d ++ [name]) with
          | none => simp [hput'] at hput
          | some u' =>
              simp only [hput', Except.ok.injEq] at hput
              subst hput
              obtain ⟨⟨-, htdir, htnot, hlegal⟩, -⟩ := put_eq_some_iff.mp hput'
              rw [List.dropLast_concat, ht.1.isDir_iff] at htdir
              rw [hsame, hnotdir] at htnot
              refine wp_when.mpr ⟨fun hbad h => ?_, fun hgood => ⟨?_, ?_⟩⟩
              · have hintact := ((unpackable_concat_iff.mp h).2.2.1 hisDir).2.1
                rw [hintact] at hbad
                cases hbad
              · rw [Bool.not_eq_false'] at hgood
                refine unpackable_concat_iff.mpr ⟨hm, hpath ▸ hlegal, fun _ => ⟨?_, hgood, htnot⟩,
                  fun x hx hne => (hup.mp htdir).2 x hx (hne.resolve_right (by simp [hisDir]))⟩
                rw [hcontent]
                exact Option.some_ne_none _
              · exact unpacked_put hu ht.1 htdir hpath hisDir hcontent htnot hput'
        · intro e he h
          obtain ⟨-, hlegal, hfile, -⟩ := unpackable_concat_iff.mp h
          have hcreatable : t.Creatable (d ++ [name]) := by
            refine ⟨by simp, ?_, ?_, hpath ▸ hlegal⟩
            · rw [List.dropLast_concat]
              exact ht.1.isDir_iff.mpr (hready h)
            · rw [hsame, hnotdir]
              exact (hfile hisDir).2.2
          simp [put, hcreatable] at he
  · exact fun h => ht.2 (hready h)

/-- Unpacking one more member ends well exactly if it fits, and then it is there. -/
theorem wp_extractMember (cwd : Str) (now : UInt64) (m : Member) (hp : Spells target q)
    (hq : q ≠ []) (hdir : v.isDir q.dropLast = true)
    (hu : Unpacked q members v) (hm : Unpackable q members) :
    wp (extractMember cwd now target m)
      (fun _ t => Unpackable q (members ++ [m]) ∧ Unpacked q (members ++ [m]) t)
      (fun _ _ => ¬ Unpackable q (members ++ [m])) v := by
  cases hisDir : m.isDir with
  | true => exact wp_extractMember_directory cwd now hp hq hdir hu hm hisDir
  | false => exact wp_extractMember_file cwd now hp hq hdir hu hm hisDir

theorem there_of_kindsStay {s t : FileTree} {p : Path} (h : kindsStay.rel s t)
    (hthere : s.get? p ≠ none) : t.get? p ≠ none := by
  cases hfile : s.isFile p with
  | true => exact FileTree.get?_ne_none_of_isFile ((h p).2 hfile)
  | false => exact FileTree.get?_ne_none_of_isDir ((h p).1 (FileTree.isDir_of_get? hthere hfile))

/-- What the first member of an archive puts at the target, whether or not the member can
    be unpacked. -/
theorem get?_of_extractMember (cwd : Str) (now : UInt64) (hp : Spells target q) (hq : q ≠ [])
    (hdir : v.isDir q.dropLast = true) (hnone : v.get? q = none) (hlegal : ∀ c ∈ q, LegalName c)
    (hm : ¬ (m.parts = [] ∧ m.isDir = false ∧ m.content = none)) :
    wp (extractMember cwd now target m) (fun _ t => t.get? q ≠ none) (fun _ t => t.get? q ≠ none)
      v := by
  obtain ⟨head, last, hhead⟩ := (List.eq_nil_or_concat' q).resolve_left hq
  have hmakes : Makes v q := by
    rw [hhead] at hnone hlegal hdir ⊢
    rw [List.dropLast_concat] at hdir
    exact makes_concat_iff.mpr ⟨hnone, hlegal last (by simp), Or.inl hdir⟩
  have hmade : ∀ {d t}, Made now v d t → q <+: d → t.get? q ≠ none := by
    intro d t ht hqd
    rw [ht q, if_pos ⟨hqd, hmakes⟩]
    exact Option.some_ne_none _
  obtain ⟨d, name, hpath⟩ := (List.eq_nil_or_concat' (q ++ m.parts)).resolve_left (by simp [hq])
  have hqd : q <+: d ++ [name] := hpath ▸ List.prefix_append _ _
  rw [extractMember_eq hp, extractMemberAt, hpath, List.dropLast_concat]
  by_cases hisDir : m.isDir = true
  · rw [if_pos hisDir, wp_bind]
    refine wp_mono (wp_makedirs_unless now v d) (fun _ t ht => ?_) fun _ t ht => ?_
    · exact wp_mono (wp_mkdir_last ht.1 ht.2) (fun _ u hu => hmade hu.1 hqd)
        fun _ u hu => hmade hu.1 hqd
    · exact hmade (ht.1.concat fun hmakes => ht.2 (makes_concat_iff.mp hmakes).2.2) hqd
  · rw [if_neg hisDir, wp_bind]
    rw [Bool.not_eq_true] at hisDir
    rcases List.prefix_concat_iff.mp hqd with hqd | hqd
    · -- the member is a file at the target
      have hparts : m.parts = [] := by simpa [hqd] using hpath
      have hd : v.get? d ≠ none := by
        rw [hqd, List.dropLast_concat] at hdir
        exact FileTree.get?_ne_none_of_isDir hdir
      obtain ⟨data, hdata⟩ := Option.ne_none_iff_exists'.mp fun hnone => hm ⟨hparts, hisDir, hnone⟩
      have hcreatable : ∀ t, Made now v d t → t.Creatable (d ++ [name]) := by
        intro t ht
        have hsame : t.get? (d ++ [name]) = none := by
          rw [ht.get?_of_outside fun hpre => absurd hpre.length_le (by simp), ← hqd, hnone]
        rw [hqd] at hdir hlegal
        refine ⟨by simp, ?_, by rw [FileTree.isDir, hsame], hlegal⟩
        rw [List.dropLast_concat] at hdir ⊢
        exact ht.isDir_iff.mpr (Or.inl hdir)
      refine wp_mono (wp_makedirs_unless now v d) (fun _ t ht => ?_) fun _ t ht => ?_
      · obtain ⟨u, hu⟩ : ∃ u, put (.file data now) t (d ++ [name]) = some u :=
          ⟨_, dif_pos (hcreatable t ht.1)⟩
        have hthere : u.get? q ≠ none := by
          rw [get?_of_put hu, if_pos hqd]
          exact Option.some_ne_none _
        simp only [hdata, wp_bind, updateAt, wp_writes, hu, Except.ok.injEq, reduceCtorEq,
          forall_eq', false_implies, implies_true, and_true]
        exact wp_when.mpr ⟨fun _ => hthere, fun _ => hthere⟩
      · rw [hqd, List.dropLast_concat] at hdir
        exact absurd (Or.inl hdir) ht.2
    · -- the target is above the member: made before the member is written
      refine wp_mono (wp_makedirs_unless now v d) (fun _ t ht => ?_) fun _ t ht => hmade ht.1 hqd
      have hthere := hmade ht.1 hqd
      cases hcontent : m.content with
      | none => exact hthere
      | some data =>
          have hkeeps : Keeps kindsStay (updateAt (put (.file data now)) (d ++ [name]) >>= fun _ =>
              when (!m.intact) (throw .badZipFile)) :=
            keeps_bind
              (keeps_updateAt fun _ _ hput => kindsStay_put hput fun _ => isFile_of_put hput)
              fun _ => keeps_when fun _ => keeps_throw _
          exact wp_of_keeps hkeeps fun u hu => there_of_kindsStay hu hthere

/-- A first member that puts nothing at the target fails and leaves the tree as it was. -/
theorem extractMember_fails (cwd : Str) (now : UInt64) (m : Member) (hp : Spells target q)
    (hq : q ≠ [])
    (hdir : v.isDir q.dropLast = true) (hnone : v.get? q = none)
    (hm : (∀ c ∈ q, LegalName c) → m.parts = [] ∧ m.isDir = false ∧ m.content = none) :
    wp (extractMember cwd now target m) (fun _ _ => False) (fun _ t => ∀ p, t.get? p = v.get? p)
      v := by
  obtain ⟨d, name, hpath⟩ := (List.eq_nil_or_concat' (q ++ m.parts)).resolve_left (by simp [hq])
  have hqd : q <+: d ++ [name] := hpath ▸ List.prefix_append _ _
  rw [extractMember_eq hp, extractMemberAt, hpath, List.dropLast_concat]
  by_cases hlegal : ∀ c ∈ q, LegalName c
  · obtain ⟨hparts, hisDir, hcontent⟩ := hm hlegal
    rw [hparts, List.append_nil] at hpath
    rw [hpath, List.dropLast_concat] at hdir
    have hd := FileTree.get?_ne_none_of_isDir hdir
    rw [if_neg (by simp [hisDir]), wp_bind]
    refine wp_mono (wp_makedirs_unless now v d) (fun _ t ht => ?_) fun _ t ht => ?_
    · simp only [hcontent, wp_throw]
      exact fun p => (ht.1 p).trans (if_neg fun hmakes => not_makes_of_prefix hmakes.1 hd hmakes.2)
    · exact absurd (Or.inl hdir) ht.2
  · have hready : ¬ Ready v (d ++ [name]) := by
      intro h
      rcases h.above hqd with hisDir | hmakes
      · exact FileTree.get?_ne_none_of_isDir hisDir hnone
      · exact hlegal hmakes.2.2
    -- a directory that can be made has the names of `q` in its path, or exists
    have hsame : ∀ {y t}, y <+: d ++ [name] → Made now v y t → ∀ p, t.get? p = v.get? p := by
      intro y t hy ht p
      refine (ht p).trans (if_neg fun hmakes => ?_)
      rcases List.prefix_or_prefix_of_prefix (hmakes.1.trans hy) hqd with hpq | hqp
      · by_cases hpq' : p = q
        · exact hlegal (hpq' ▸ hmakes.2.2.2)
        · have hup : p <+: q.dropLast := by
            rw [← List.dropLast_append_getLast hq, List.prefix_concat_iff,
              List.dropLast_append_getLast hq] at hpq
            exact hpq.resolve_left hpq'
          exact not_makes_of_prefix hup (FileTree.get?_ne_none_of_isDir hdir) hmakes.2
      · exact hlegal fun c hc => hmakes.2.2.2 c (hqp.subset hc)
    rw [wp_bind]
    refine wp_mono (wp_makedirs_unless now v d) (fun _ t ht => ?_) fun _ t ht =>
      hsame (List.prefix_append _ _) ht.1
    have hkept := hsame (List.prefix_append _ _) ht.1
    refine wp_ite.mpr ⟨fun _ => ?_, fun _ => ?_⟩
    · exact wp_mono (wp_mkdir_last ht.1 ht.2) (fun _ u hu => hready hu.2)
        fun _ u hu => hsame List.prefix_rfl hu.1
    · cases m.content with
      | none => exact hkept
      | some data =>
          have hput : put (.file data now) t (d ++ [name]) = none := by
            refine dif_neg fun hcreatable => hlegal fun c hc => ?_
            exact hcreatable.2.2.2 c (hqd.subset hc)
          simp only [wp_bind, updateAt, wp_writes, hput, reduceCtorEq, false_implies,
            implies_true, true_and]
          exact fun _ _ => hkept

/-- Unpacking where nothing is ends well exactly if the members fit together. -/
theorem wp_extractall (cwd : Str) (now : UInt64) (hp : Spells target q) (hq : q ≠ [])
    (rest : List Member) :
    ∀ (members : List Member) (v : FileTree), v.isDir q.dropLast = true →
      Unpacked q members v → Unpackable q members →
      wp (extractall cwd now target rest)
        (fun _ t => Unpackable q (members ++ rest) ∧ Unpacked q (members ++ rest) t)
        (fun _ _ => ¬ Unpackable q (members ++ rest)) v := by
  induction rest with
  | nil =>
      intro members v _ hu hm
      rw [List.append_nil]
      exact ⟨hm, hu⟩
  | cons m rest ih =>
      intro members v hdir hu hm
      have hsplit : members ++ m :: rest = members ++ [m] ++ rest := by simp
      have hall : Unpackable q (members ++ m :: rest) → Unpackable q (members ++ [m]) := by
        rw [hsplit]
        intro h
        exact ⟨fun m' hm' => h.legal m' (List.mem_append_left _ hm'),
          fun m' hm' => h.whole m' (List.mem_append_left _ hm'),
          fun m' hm' hf m'' hm'' => h.apart m' (List.mem_append_left _ hm') hf m''
            (List.mem_append_left _ hm'')⟩
      have hstays : kindsStay.rel v (final (extractMember cwd now target m v)) :=
        kindsStay_extractMember m v
      have hstep := wp_extractMember cwd now m hp hq hdir hu hm
      rw [extractall, each, wp_bind]
      rw [wp] at hstep ⊢
      cases hrun : extractMember cwd now target m v with
      | ok a t =>
          rw [hrun] at hstep hstays
          rw [hsplit]
          exact ih (members ++ [m]) t ((hstays _).1 hdir) hstep.2 hstep.1
      | error e t =>
          rw [hrun] at hstep
          exact fun h => hstep (hall h)

/-- Unpacking where nothing is, with what is at the target when it fails. -/
theorem wp_extractall_absent (hp : Spells target q) (hq : q ≠ [])
    (hdir : v.isDir q.dropLast = true) (hnone : v.get? q = none) (members : List Member) :
    wp (extractall cwd now target members)
      (fun _ t => Unpackable q members ∧ Unpacked q members t)
      (fun _ t => ¬ Unpackable q members ∧ (Begins q members → t.get? q ≠ none) ∧
        (¬ Begins q members → ∀ p, t.get? p = v.get? p)) v := by
  have hnothing : ∀ x, v.get? (q ++ x) = none := by
    intro x
    by_contra hthere
    by_cases hx : x = []
    · rw [hx, List.append_nil] at hthere
      exact hthere hnone
    · exact FileTree.get?_ne_none_of_isDir
        (FileTree.isDir_of_prefix (List.prefix_append q x) (by simpa using hx) hthere) hnone
  have hunpacked : Unpacked q [] v := by
    refine ⟨fun x => FileTree.fileAt_eq_none_of_get? (hnothing x), fun x => ?_⟩
    rw [FileTree.isDir, hnothing]
    simp [DirIn]
  have hall := wp_extractall cwd now hp hq members [] v hdir hunpacked
    ⟨List.forall_mem_nil _, List.forall_mem_nil _, List.forall_mem_nil _⟩
  rw [List.nil_append] at hall
  cases members with
  | nil => exact hall
  | cons m rest =>
      rw [wp] at hall ⊢
      cases hrun : extractall cwd now target (m :: rest) v with
      | ok a t =>
          rw [hrun] at hall
          exact hall
      | error e t =>
          rw [hrun] at hall
          refine ⟨hall, fun hbegins => ?_, fun hnot => ?_⟩
          · obtain ⟨hlegal, m', hm', hfirst⟩ := hbegins
            cases hm'
            have hstep := get?_of_extractMember cwd now hp hq hdir hnone hlegal hfirst
            rcases bind_error_iff.mp hrun with hrun | ⟨_, u, hrun, hrest⟩
            · rw [wp, hrun] at hstep
              exact hstep
            · rw [wp, hrun] at hstep
              exact there_of_kindsStay ((kindsStay_extractall rest).of_error hrest) hstep
          · have hstep := extractMember_fails cwd now m hp hq hdir hnone
              fun hlegal => not_not.mp fun hfirst => hnot ⟨hlegal, m, rfl, hfirst⟩
            rcases bind_error_iff.mp hrun with hrun | ⟨_, u, hrun, -⟩
            · rw [wp, hrun] at hstep
              exact hstep
            · rw [wp, hrun] at hstep
              exact hstep.elim

end Unpack

end ZipFile

end Py
end NetworkingFinal
