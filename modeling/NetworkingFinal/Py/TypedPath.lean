/-
  NetworkingFinal.Py.TypedPath

  Paths as a user types them: relative or absolute, with `.` and `..` in them and
  slashes at their ends.

  - `tail_of_dirname`: a path is its `dirname` and at most one more component.
  - `resolve_normpath`: from a working directory that is there, a normalised path
    leads where `abspath` says.
-/
import NetworkingFinal.Py.Os

namespace NetworkingFinal
namespace Py

open PosixPath Prog Os

namespace PosixPath

-- ============================================================================
-- The last component
-- ============================================================================

/-- `os.path.basename` -/
def basename (p : Str) : Str := p.rtakeWhile (· ≠ '/')

theorem slash_notMem_basename (p : Str) : '/' ∉ basename p := by
  intro h
  have hne := List.mem_rtakeWhile_imp h
  simp at hne

theorem comps_rdropWhile_slash (p : Str) : comps (p.rdropWhile (· = '/')) = comps p := by
  induction p using List.reverseRecOn with
  | nil => rfl
  | append_singleton p x ih =>
      by_cases hx : x = '/'
      · rw [List.rdropWhile_concat_pos _ _ _ (by simpa using hx), ih, hx, comps_append_slash,
          comps_nil, List.append_nil]
      · rw [List.rdropWhile_concat_neg _ _ _ (by simpa using hx)]

/-- What comes before the last component ends with a slash. -/
theorem head_of_basename (p : Str) :
    p.rdropWhile (· ≠ '/') = [] ∨ ∃ head, p.rdropWhile (· ≠ '/') = head ++ ['/'] := by
  induction p using List.reverseRecOn with
  | nil => exact Or.inl rfl
  | append_singleton p x ih =>
      by_cases hx : x = '/'
      · rw [List.rdropWhile_concat_neg _ _ _ (by simpa using hx), hx]
        exact Or.inr ⟨p, rfl⟩
      · rwa [List.rdropWhile_concat_pos _ _ _ (by simpa using hx)]

theorem isabs_rdropWhile_slash {p : Str} (h : p.rdropWhile (· = '/') ≠ []) :
    isabs (p.rdropWhile (· = '/')) = isabs p := by
  obtain ⟨tail, htail⟩ := List.rdropWhile_prefix (· = '/') p
  obtain ⟨x, rest, hrest⟩ := List.exists_cons_of_ne_nil h
  rw [hrest] at htail ⊢
  rw [← htail]
  simp [isabs, startsWith, List.isPrefixOf]

/-- A path with a directory name is that and its last component. -/
theorem comps_dirname {p : Str} (h : dirname p ≠ []) :
    comps p = comps (dirname p) ++ comps (basename p) ∧ isabs p = isabs (dirname p) := by
  have hp : p.rdropWhile (· ≠ '/') ++ basename p = p := List.rdropWhile_append_rtakeWhile
  rcases head_of_basename p with hnil | ⟨head, hhead⟩
  · rw [dirname, hnil] at h
    exact absurd rfl h
  · have hcomps : comps p = comps (p.rdropWhile (· ≠ '/')) ++ comps (basename p) := by
      conv_lhs => rw [← hp, hhead, List.append_assoc, List.singleton_append, comps_append_slash]
      rw [hhead, comps_append_slash, comps_nil, List.append_nil]
    have habs : isabs p = isabs (p.rdropWhile (· ≠ '/')) := by
      conv_lhs => rw [← hp]
      rw [hhead]
      cases head <;> simp [isabs, startsWith, List.isPrefixOf]
    have hdirname : dirname p = if (p.rdropWhile (· ≠ '/')).all (· = '/')
        then p.rdropWhile (· ≠ '/') else (p.rdropWhile (· ≠ '/')).rdropWhile (· = '/') := rfl
    rw [hdirname] at h ⊢
    split at h
    · next hall =>
        rw [if_pos hall]
        exact ⟨hcomps, habs⟩
    · next hall =>
        rw [if_neg hall, comps_rdropWhile_slash, isabs_rdropWhile_slash h]
        exact ⟨hcomps, habs⟩

/-- A path ends with a slash, or its last component is there. -/
theorem getLast?_eq_slash_iff {p : Str} (h : p ≠ []) :
    p.getLast? = some '/' ↔ basename p = [] := by
  rw [basename, List.rtakeWhile_eq_nil_iff, List.getLast?_eq_getLast_of_ne_nil h, Option.some_inj]
  constructor
  · intro hlast _
    simp [hlast]
  · intro hall
    simpa using hall h

-- ============================================================================
-- Normalised relative paths
-- ============================================================================

/-- Steps up, and then plain components. -/
def Leading (cs : List Str) : Prop :=
  ∃ k ps, (∀ c ∈ ps, Plain c) ∧ cs = List.replicate k ['.', '.'] ++ ps

theorem leading_normStep {cs : List Str} {c : Str} (h : Leading cs) (hc : '/' ∉ c) :
    Leading (normStep false cs c) := by
  obtain ⟨k, ps, hps, rfl⟩ := h
  unfold normStep
  split
  · exact ⟨k, ps, hps, rfl⟩
  · next hskip =>
      rw [not_or] at hskip
      by_cases hdots : c = ['.', '.']
      · rcases List.eq_nil_or_concat' ps with rfl | ⟨ds, d, rfl⟩
        · -- nothing to take back: one more step up
          have hkeep : (false = false ∧ List.replicate k ['.', '.'] ++ ([] : List Str) = [])
              ∨ (List.replicate k ['.', '.'] ++ ([] : List Str)).getLast? = some ['.', '.'] := by
            cases k with
            | zero => exact Or.inl ⟨rfl, rfl⟩
            | succ k => exact Or.inr (by simp [List.replicate_succ'])
          rw [if_pos (Or.inr hkeep), List.append_nil, hdots]
          exact ⟨k + 1, [], by simp, by rw [List.replicate_succ', List.append_nil]⟩
        · have hd := hps d (by simp)
          have hlast : (List.replicate k ['.', '.'] ++ (ds ++ [d])).getLast? = some d := by
            rw [← List.append_assoc, List.getLast?_concat]
          rw [if_neg (by simp [hdots, hlast, hd.2.2.2]), ← List.append_assoc, List.dropLast_concat]
          exact ⟨k, ds, fun e he => hps e (List.mem_append_left _ he), rfl⟩
      · rw [if_pos (Or.inl hdots), List.append_assoc]
        refine ⟨k, ps ++ [c], fun e he => ?_, rfl⟩
        rcases List.mem_append.mp he with he | he
        · exact hps e he
        · rw [List.mem_singleton.mp he]
          exact ⟨hskip.1, hc, hskip.2, hdots⟩

theorem leading_foldl {ps : List Str} (h : ∀ c ∈ ps, '/' ∉ c) :
    Leading (ps.foldl (normStep false) []) := by
  induction ps using List.reverseRecOn with
  | nil => exact ⟨0, [], by simp, rfl⟩
  | append_singleton ps c ih =>
      rw [List.foldl_append]
      exact leading_normStep (ih fun d hd => h d (List.mem_append_left _ hd)) (h c (by simp))

theorem Leading.piece {cs : List Str} (h : Leading cs) : ∀ c ∈ cs, Piece c := by
  obtain ⟨k, ps, hps, rfl⟩ := h
  intro c hc
  rcases List.mem_append.mp hc with hc | hc
  · rw [List.eq_of_mem_replicate hc]
    exact ⟨by decide, by decide, by decide⟩
  · exact (hps c hc).piece

/-- What `normpath` makes of a relative path. -/
theorem normpath_of_relative {p : Str} (hne : p ≠ []) (h : isabs p = false) :
    ∃ cs, Leading cs ∧ normpath p = if cs = [] then ['.'] else joinSep cs := by
  have hslashes : initialSlashes p = 0 := by
    unfold isabs at h
    rw [initialSlashes, if_neg (by simp [h])]
  have hlead : Leading ((split p).foldl (normStep false) []) :=
    leading_foldl fun _ hc => notMem_of_mem_split hc
  refine ⟨_, hlead, ?_⟩
  have hnorm : normpath p = if joinSep ((split p).foldl (normStep false) []) = [] then ['.']
      else joinSep ((split p).foldl (normStep false) []) := by
    simp only [normpath, if_neg hne, hslashes]
    rfl
  rw [hnorm]
  by_cases hnil : (split p).foldl (normStep false) [] = []
  · rw [if_pos hnil, hnil]
    rfl
  · rw [if_neg hnil, if_neg fun hj => hnil ?_]
    have hback := comps_joinSep_of_piece hlead.piece
    rw [hj, comps_nil] at hback
    exact hback.symm

/-- `dirname` drops the last piece of a normalised relative path. -/
theorem dirname_joinSep {cs : List Str} {c : Str} (h : ∀ d ∈ cs ++ [c], Piece d) :
    dirname (joinSep (cs ++ [c])) = joinSep cs := by
  have hc : '/' ∉ c := (h c (by simp)).2.1
  rcases List.eq_nil_or_concat' cs with rfl | ⟨ds, d, rfl⟩
  · have hhead : c.rdropWhile (· ≠ '/') = [] := by
      rw [List.rdropWhile_eq_nil_iff]
      rintro x hx
      have hne : x ≠ '/' := by
        rintro rfl
        exact hc hx
      simpa using hne
    simp only [List.nil_append, joinSep_singleton, dirname, hhead]
    rfl
  · obtain ⟨hne, hslash, -⟩ := h d (by simp)
    obtain ⟨e, x, rfl⟩ := (List.eq_nil_or_concat' d).resolve_left hne
    have hx : x ≠ '/' := fun hx => hslash (by simp [hx])
    obtain ⟨q, hq⟩ : ∃ q, joinSep (ds ++ [e ++ [x]]) = q ++ [x] := by
      by_cases hds : ds = []
      · exact ⟨e, by rw [hds, List.nil_append, joinSep_singleton]⟩
      · exact ⟨joinSep ds ++ '/' :: e, by rw [joinSep_concat _ hds]; simp⟩
    have hall : (q ++ [x] ++ ['/']).all (· = '/') = false := by simp [hx]
    rw [joinSep_concat c (by simp), dirname, rdropWhile_append_notMem _ hc, hq]
    simp only [hall]
    rw [if_neg (by simp), List.rdropWhile_concat_pos _ _ _ (by simp),
      List.rdropWhile_concat_neg _ _ _ (by simpa using hx)]

end PosixPath

-- ============================================================================
-- Where typed paths lead
-- ============================================================================

namespace Os

variable {cwd : Str} {s t : FileTree} {cur q : Path} {cs : List Str}

/-- A walk to a directory starts at one. -/
theorem isDir_of_walkFrom (h : walkFrom t cur cs = .ok q) (hdir : t.isDir q = true) :
    t.isDir cur = true := by
  induction cs generalizing cur with
  | nil =>
      cases h
      exact hdir
  | cons c cs ih =>
      rw [walkFrom] at h
      split at h
      · split at h
        · assumption
        · cases h
      · split at h
        · split at h
          · assumption
          · cases h
        · have hup := FileTree.isDir_dropLast (ih h)
          rwa [List.dropLast_concat] at hup

/-- What a path leads to stays so while nothing is removed. -/
theorem walkFrom_of_kindsStay (hk : kindsStay.rel s t) (h : walkFrom s cur cs = .ok q) :
    walkFrom t cur cs = .ok q := by
  induction cs generalizing cur with
  | nil => exact h
  | cons c cs ih =>
      rw [walkFrom] at h ⊢
      split at h
      · next hdot =>
          split at h
          · next hdir => rw [if_pos hdot, if_pos ((hk _).1 hdir), ih h]
          · cases h
      · next hdot =>
          rw [if_neg hdot]
          split at h
          · next hdots =>
              split at h
              · next hdir => rw [if_pos hdots, if_pos ((hk _).1 hdir), ih h]
              · cases h
          · next hdots => rw [if_neg hdots, ih h]

theorem resolve_of_kindsStay {p : Str} (hk : kindsStay.rel s t) (h : resolve cwd s p = .ok q) :
    resolve cwd t p = .ok q := by
  rw [resolve] at h ⊢
  split at h
  · cases h
  · next hne =>
      rw [if_neg hne]
      exact walkFrom_of_kindsStay hk h

/-- A path leads where its last component leads from its directory. -/
theorem resolve_eq_dirname {p : Str} (t : FileTree) (h : dirname p ≠ []) :
    resolve cwd t p = resolve cwd t (dirname p) >>= fun q => walkFrom t q (comps (basename p)) := by
  obtain ⟨hcomps, habs⟩ := comps_dirname h
  have hne : p ≠ [] := by
    rintro rfl
    exact h rfl
  rw [resolve, resolve, if_neg hne, if_neg h, habs, hcomps, walkFrom_append]

theorem walkFrom_of_leading (h : Leading cs) (hdir : t.isDir cur = true) :
    ∃ q, walkFrom t cur cs = .ok q := by
  obtain ⟨k, ps, hps, rfl⟩ := h
  induction k generalizing cur with
  | zero => exact ⟨_, walkFrom_of_plain t cur hps⟩
  | succ k ih =>
      have hup := FileTree.isDir_dropLast hdir
      rw [List.replicate_succ, List.cons_append, walkFrom, if_neg (by decide), if_pos rfl,
        if_pos hdir]
      exact ih hup

-- ============================================================================
-- What the tests of a typed path ask
-- ============================================================================

/-- The path leads to a directory. -/
def DirAt (cwd : Str) (t : FileTree) (p : Str) : Prop :=
  ∃ q, resolve cwd t p = .ok q ∧ t.isDir q = true

/-- The path leads to a file, and does not ask for a directory. -/
def FileAt (cwd : Str) (t : FileTree) (p : Str) : Prop :=
  p.getLast? ≠ some '/' ∧ ∃ q, resolve cwd t p = .ok q ∧ t.isFile q = true

theorem query_eq_true {f : FileTree → Path → Bool} {p : Str}
    (h : ∃ q, resolve cwd t p = .ok q ∧ f t q = true) : query cwd f p t = .ok true t := by
  obtain ⟨q, hres, hf⟩ := h
  simp only [query, reads, hres, hf]

theorem query_eq_false {f : FileTree → Path → Bool} {p : Str}
    (h : ¬ ∃ q, resolve cwd t p = .ok q ∧ f t q = true) : query cwd f p t = .ok false t := by
  cases hres : resolve cwd t p with
  | error e => simp only [query, reads, hres]
  | ok q =>
      have hf : f t q = false := by
        rw [← Bool.not_eq_true]
        exact fun hf => h ⟨q, hres, hf⟩
      simp only [query, reads, hres, hf]

theorem isdir_of_dirAt {p : Str} (h : DirAt cwd t p) : isdir cwd p t = .ok true t :=
  query_eq_true h

theorem isdir_of_not_dirAt {p : Str} (h : ¬ DirAt cwd t p) : isdir cwd p t = .ok false t :=
  query_eq_false h

theorem isfileTyped_of_fileAt {p : Str} (h : FileAt cwd t p) :
    isfileTyped cwd p t = .ok true t := by
  rw [isfileTyped, if_neg h.1]
  exact query_eq_true h.2

theorem isfileTyped_of_not_fileAt {p : Str} (h : ¬ FileAt cwd t p) :
    isfileTyped cwd p t = .ok false t := by
  rw [isfileTyped]
  split
  · rfl
  · next hslash => exact query_eq_false fun hfile => h ⟨hslash, hfile⟩

theorem of_isfileTyped_true {p : Str} (h : isfileTyped cwd p s = .ok true t) : FileAt cwd s p := by
  by_contra hnot
  rw [isfileTyped_of_not_fileAt hnot] at h
  cases h

theorem keeps_isfileTyped {F : Frame FileTree} {p : Str} : Keeps F (isfileTyped cwd p) :=
  keeps_ite (fun _ => keeps_pure _) fun _ => keeps_isfile

-- ============================================================================
-- Where normalised paths lead
-- ============================================================================

section Normpath

variable (hcwd : isabs cwd = true) (hplain : ∀ c ∈ comps cwd, Plain c)
include hcwd hplain

/-- From a working directory that is there, a normalised path leads where `abspath` says. -/
theorem resolve_normpath {p : Str} (hne : p ≠ [])
    (hdir : isabs p = false → t.isDir (comps cwd) = true) :
    resolve cwd t (normpath p) = .ok (comps (abspath cwd p)) := by
  cases habs : isabs p with
  | true =>
      have hn := (normal_abspath hcwd p).spells
      rw [abspath, if_pos habs] at hn
      rw [resolve_of_spells cwd t hn, abspath, if_pos habs]
  | false =>
      suffices h : ∃ q, resolve cwd t (normpath p) = .ok q by
        obtain ⟨q, hq⟩ := h
        rw [hq, eq_comps_abspath_of_resolve hcwd hplain hq, comps_abspath_normpath hcwd hplain hne]
      obtain ⟨cs, hlead, hnorm⟩ := normpath_of_relative hne habs
      rw [hnorm]
      split
      · exact ⟨comps cwd, by
          rw [resolve, if_neg (by decide), if_neg (by decide)]
          exact (if_pos rfl).trans (if_pos (hdir habs))⟩
      · next hcs =>
          have hcomps := comps_joinSep_of_piece hlead.piece
          have hjoin : joinSep cs ≠ [] := by
            intro hnil
            rw [hnil, comps_nil] at hcomps
            exact hcs hcomps.symm
          rw [resolve, if_neg hjoin, isabs_joinSep_of_piece hlead.piece, hcomps]
          exact walkFrom_of_leading hlead (hdir habs)

/-- The directory name of a normalised path leads to the directory above, or to one that
    is there. -/
theorem dirname_normpath {p : Str} (hne : p ≠ [])
    (hdir : isabs p = false → t.isDir (comps cwd) = true) :
    (dirname (normpath p) = [] ∧ t.isDir (comps (abspath cwd p)).dropLast = true) ∨
      (dirname (normpath p) ≠ [] ∧ ∃ d, resolve cwd t (dirname (normpath p)) = .ok d ∧
        (d = (comps (abspath cwd p)).dropLast ∨
          t.isDir d = true ∧ t.isDir (comps (abspath cwd p)).dropLast = true)) := by
  cases habs : isabs p with
  | true =>
      have hn := normal_abspath hcwd p
      rw [abspath, if_pos habs] at hn ⊢
      have hspells := hn.normal_dirname.spells
      refine Or.inr ⟨fun hnil => ?_, _, resolve_of_spells cwd t hspells, Or.inl rfl⟩
      have hslash := hspells.abs
      rw [hnil] at hslash
      cases hslash
  | false =>
      have hres := resolve_normpath hcwd hplain hne hdir
      obtain ⟨cs, hlead, hnorm⟩ := normpath_of_relative hne habs
      rw [hnorm] at hres ⊢
      rcases List.eq_nil_or_concat' cs with rfl | ⟨ds, c, rfl⟩
      · have hcur : walkFrom t (comps cwd) [['.']] = .ok (comps (abspath cwd p)) := hres
        rw [walkFrom, if_pos rfl, if_pos (hdir habs), walkFrom, Except.ok.injEq] at hcur
        rw [← hcur]
        exact Or.inl ⟨rfl, FileTree.isDir_dropLast (hdir habs)⟩
      · have hpieces := hlead.piece
        have hds : ∀ d ∈ ds, Piece d := fun d hd => hpieces d (List.mem_append_left _ hd)
        rw [if_neg (by simp)] at hres ⊢
        rw [dirname_joinSep hpieces]
        have hcomps := comps_joinSep_of_piece hpieces
        have hjoin : joinSep (ds ++ [c]) ≠ [] := by
          intro hnil
          rw [hnil, comps_nil] at hcomps
          simp at hcomps
        rw [resolve, if_neg hjoin, isabs_joinSep_of_piece hpieces, hcomps, walkFrom_append] at hres
        obtain ⟨d, hd, hlast⟩ := except_bind_ok_iff.mp hres
        have hkind : d = (comps (abspath cwd p)).dropLast ∨
            t.isDir d = true ∧ t.isDir (comps (abspath cwd p)).dropLast = true := by
          rw [walkFrom, if_neg (hpieces c (by simp)).2.2] at hlast
          split at hlast
          · split at hlast
            · next hisDir =>
                rw [walkFrom, Except.ok.injEq] at hlast
                rw [← hlast]
                exact Or.inr ⟨hisDir, FileTree.isDir_dropLast (FileTree.isDir_dropLast hisDir)⟩
            · cases hlast
          · rw [walkFrom, Except.ok.injEq] at hlast
            rw [← hlast]
            exact Or.inl List.dropLast_concat.symm
        by_cases hnil : ds = []
        · subst hnil
          cases hd
          exact Or.inl ⟨rfl, hkind.elim (fun h => h ▸ hdir habs) And.right⟩
        · have hcomps' := comps_joinSep_of_piece hds
          have hjoin' : joinSep ds ≠ [] := by
            intro h
            rw [h, comps_nil] at hcomps'
            exact hnil hcomps'.symm
          refine Or.inr ⟨hjoin', d, ?_, hkind⟩
          rw [resolve, if_neg hjoin', isabs_joinSep_of_piece hds, hcomps']
          exact hd

end Normpath

end Os

end Py
end NetworkingFinal
