/-
  NetworkingFinal.Py.PosixPath

  `os.path` on POSIX, as strings, and the components a path string stands for.

  The functions follow posixpath.py: `normpath` keeps exactly two leading
  slashes, `commonpath` returns one.  `comps` is what the kernel makes of an
  absolute path without `.` and `..`: its non-empty components, however many
  slashes separate them.

  - `abspath_spec`: an absolute path string normalises to one or two slashes
    followed by plain components.
  - `commonpath_eq_iff`: when `commonpath [p, root] == root` holds.
-/
import NetworkingFinal.Py.Basic
import Mathlib.Data.List.DropRight

namespace NetworkingFinal
namespace Py
namespace PosixPath

-- ============================================================================
-- posixpath.py
-- ============================================================================

/-- `p.split("/")` -/
def split (p : Str) : List Str := p.splitOn '/'

/-- `"/".join(cs)` -/
def joinSep (cs : List Str) : Str := ['/'].intercalate cs

/-- `p.startswith(q)` -/
def startsWith (p q : Str) : Bool := q.isPrefixOf p

/-- `os.path.isabs` -/
def isabs (p : Str) : Bool := startsWith p ['/']

/-- `os.path.join(a, b)` -/
def join (a b : Str) : Str :=
  if isabs b then b
  else if a = [] ∨ a.getLast? = some '/' then a ++ b
  else a ++ ['/'] ++ b

/-- One component of the loop in `normpath`; `initial` says whether the path
    starts with a slash. -/
def normStep (initial : Bool) (newComps : List Str) (comp : Str) : List Str :=
  if comp = [] ∨ comp = ['.'] then newComps
  else if comp ≠ ['.', '.'] ∨ (initial = false ∧ newComps = [])
      ∨ newComps.getLast? = some ['.', '.'] then newComps ++ [comp]
  else newComps.dropLast

/-- The number of leading slashes `normpath` keeps.  POSIX allows one or two
    initial slashes, but treats three or more as single slash. -/
def initialSlashes (p : Str) : Nat :=
  if startsWith p ['/'] then
    if startsWith p ['/', '/'] ∧ ¬ startsWith p ['/', '/', '/'] then 2 else 1
  else 0

/-- `os.path.normpath` -/
def normpath (p : Str) : Str :=
  if p = [] then ['.']
  else
    let slashes := initialSlashes p
    let newComps := (split p).foldl (normStep (slashes != 0)) []
    let path := List.replicate slashes '/' ++ joinSep newComps
    if path = [] then ['.'] else path

/-- `os.path.abspath`, for the working directory `cwd`. -/
def abspath (cwd p : Str) : Str := normpath (if isabs p then p else join cwd p)

/-- The longest common prefix of two component lists. -/
def commonPrefix : List Str → List Str → List Str
  | a :: as, b :: bs => if a = b then a :: commonPrefix as bs else []
  | _, _ => []

/-- The components `commonpath` compares. -/
def commonParts (p : Str) : List Str := (split p).filter (fun c => c ≠ [] ∧ c ≠ ['.'])

/-- `os.path.commonpath([p, q])` -/
def commonpath (p q : Str) : Except Exn Str :=
  if isabs p = isabs q then
    .ok ((if isabs p then ['/'] else []) ++ joinSep (commonPrefix (commonParts p) (commonParts q)))
  else .error .valueError

/-- `os.path.dirname` -/
def dirname (p : Str) : Str :=
  let head := p.rdropWhile (· ≠ '/')
  if head.all (· = '/') then head else head.rdropWhile (· = '/')

/-- `os.path.relpath(path, start)` -/
def relpath (cwd path start : Str) : Str :=
  let startList := (split (abspath cwd start)).filter (· ≠ [])
  let pathList := (split (abspath cwd path)).filter (· ≠ [])
  let i := (commonPrefix startList pathList).length
  match List.replicate (startList.length - i) ['.', '.'] ++ pathList.drop i with
  | [] => ['.']
  | c :: cs => cs.foldl join c

-- ============================================================================
-- Components
-- ============================================================================

/-- The components the kernel walks along. -/
def comps (p : Str) : List Str := (split p).filter (· ≠ [])

/-- A component that names an entry of a directory. -/
def Plain (c : Str) : Prop := c ≠ [] ∧ '/' ∉ c ∧ c ≠ ['.'] ∧ c ≠ ['.', '.']

/-- A piece of a normalised path: plain, or `..` at the front of a relative one. -/
def Piece (c : Str) : Prop := c ≠ [] ∧ '/' ∉ c ∧ c ≠ ['.']

theorem Plain.piece {c : Str} (h : Plain c) : Piece c := ⟨h.1, h.2.1, h.2.2.1⟩

theorem comps_cons_slash (p : Str) : comps ('/' :: p) = comps p := by
  simp [comps, split, List.splitOn_cons_eq_if_modifyHead]

theorem comps_append_slash (p q : Str) : comps (p ++ '/' :: q) = comps p ++ comps q := by
  simp [comps, split, List.splitOn_append_cons_self, List.filter_append]

theorem comps_of_notMem {c : Str} (h : '/' ∉ c) (hne : c ≠ []) : comps c = [c] := by
  simp [comps, split, List.splitOn_eq_singleton h, hne]

@[simp] theorem comps_nil : comps [] = [] := rfl

theorem isabs_of_notMem {c : Str} (h : '/' ∉ c) : isabs c = false := by
  cases c with
  | nil => rfl
  | cons x c =>
      have hx : '/' ≠ x := by
        rintro rfl
        simp at h
      simp [isabs, startsWith, List.isPrefixOf, hx]

theorem isabs_join_eq {p q : Str} (hne : p ≠ []) (hq : isabs q = false) :
    isabs (join p q) = isabs p := by
  obtain ⟨x, p, rfl⟩ := List.exists_cons_of_ne_nil hne
  unfold join
  rw [if_neg (by simp [hq])]
  split <;> simp [isabs, startsWith, List.isPrefixOf]

/-- Joining a relative path appends its components. -/
theorem comps_join {p q : Str} (hne : p ≠ []) (hq : isabs q = false) :
    comps (join p q) = comps p ++ comps q := by
  unfold join
  rw [if_neg (by simp [hq])]
  split
  · next hend =>
      -- the slash that ends `p` separates
      rcases hend with hnil | hlast
      · exact absurd hnil hne
      · obtain ⟨r, x, rfl⟩ := (List.eq_nil_or_concat' p).resolve_left hne
        rw [List.getLast?_concat, Option.some_inj] at hlast
        rw [hlast, List.append_assoc, List.singleton_append, comps_append_slash,
          comps_append_slash, comps_nil, List.append_nil]
  · rw [List.append_assoc, List.singleton_append, comps_append_slash]

theorem split_joinSep {cs : List Str} (h : ∀ c ∈ cs, '/' ∉ c) (hne : cs ≠ []) :
    split (joinSep cs) = cs :=
  List.splitOn_intercalate '/' h hne

/-- No piece of a split path contains a slash. -/
theorem notMem_of_mem_split {p c : Str} (h : c ∈ split p) : '/' ∉ c := by
  unfold split at h
  induction p generalizing c with
  | nil =>
      rw [List.splitOn_nil, List.mem_singleton] at h
      simp [h]
  | cons x p ih =>
      rw [List.splitOn_cons_eq_if_modifyHead] at h
      by_cases hx : x = '/'
      · rw [if_pos (by simpa using hx), List.mem_cons] at h
        rcases h with rfl | h
        · simp
        · exact ih h
      · rw [if_neg (by simpa using hx)] at h
        cases hs : List.splitOn '/' p with
        | nil => simp [hs] at h
        | cons d ds =>
            rw [hs, List.modifyHead_cons, List.mem_cons] at h
            rcases h with rfl | h
            · have hd : '/' ∉ d := ih (by simp [hs])
              simp [Ne.symm hx, hd]
            · exact ih (by simp [hs, h])

theorem notMem_of_mem_comps {p c : Str} (h : c ∈ comps p) : '/' ∉ c :=
  notMem_of_mem_split (List.mem_filter.mp h).1

-- ============================================================================
-- Normalised absolute paths
-- ============================================================================

/-- The absolute path string with this many leading slashes and these components. -/
def absolute (slashes : Nat) (cs : List Str) : Str := List.replicate slashes '/' ++ joinSep cs

theorem comps_joinSep_of_piece {cs : List Str} (h : ∀ c ∈ cs, Piece c) :
    comps (joinSep cs) = cs := by
  rcases eq_or_ne cs [] with rfl | hne
  · rfl
  · rw [comps, split_joinSep (fun c hc => (h c hc).2.1) hne]
    exact List.filter_eq_self.mpr fun c hc => by simpa using (h c hc).1

theorem comps_joinSep {cs : List Str} (h : ∀ c ∈ cs, Plain c) : comps (joinSep cs) = cs :=
  comps_joinSep_of_piece fun c hc => (h c hc).piece

@[simp] theorem comps_absolute {cs : List Str} (k : Nat) (h : ∀ c ∈ cs, Plain c) :
    comps (absolute k cs) = cs := by
  induction k with
  | zero => simpa [absolute] using comps_joinSep h
  | succ k ih =>
      rw [absolute, List.replicate_succ, List.cons_append, comps_cons_slash]
      exact ih

theorem joinSep_cons_cons (a b : Str) (cs : List Str) :
    joinSep (a :: b :: cs) = a ++ '/' :: joinSep (b :: cs) := by
  simp [joinSep, List.intercalate_cons_cons]

@[simp] theorem joinSep_singleton (c : Str) : joinSep [c] = c := by
  simp [joinSep]

/-- Joining one more component puts a slash before it. -/
theorem joinSep_concat {cs : List Str} (c : Str) (hne : cs ≠ []) :
    joinSep (cs ++ [c]) = joinSep cs ++ '/' :: c := by
  induction cs with
  | nil => exact absurd rfl hne
  | cons a cs ih =>
      cases cs with
      | nil => simp [joinSep_cons_cons]
      | cons b cs =>
          have hb := ih (by simp)
          simp only [List.cons_append] at hb ⊢
          rw [joinSep_cons_cons, joinSep_cons_cons, hb]
          simp

theorem joinSep_eq_nil_iff {cs : List Str} (h : ∀ c ∈ cs, Plain c) :
    joinSep cs = [] ↔ cs = [] := by
  constructor
  · intro hj
    have hc := comps_joinSep h
    rw [hj, comps_nil] at hc
    exact hc.symm
  · rintro rfl
    rfl

theorem isabs_joinSep_of_piece {cs : List Str} (h : ∀ c ∈ cs, Piece c) :
    isabs (joinSep cs) = false := by
  cases cs with
  | nil => rfl
  | cons a cs =>
      obtain ⟨hne, hslash, -⟩ := h a (by simp)
      cases a with
      | nil => exact absurd rfl hne
      | cons x a =>
          have hx : ('/' == x) = false := by
            rw [beq_eq_false_iff_ne]
            rintro rfl
            simp at hslash
          cases cs with
          | nil => simp [isabs, startsWith, joinSep, List.isPrefixOf, hx]
          | cons b cs => simp [isabs, startsWith, joinSep_cons_cons, List.isPrefixOf, hx]

/-- A joined path of plain components does not start with a slash. -/
theorem isPrefixOf_slash_joinSep {cs : List Str} (h : ∀ c ∈ cs, Plain c) :
    startsWith (joinSep cs) ['/'] = false :=
  isabs_joinSep_of_piece fun c hc => (h c hc).piece

theorem initialSlashes_absolute {cs : List Str} {k : Nat} (hk : k = 1 ∨ k = 2)
    (h : ∀ c ∈ cs, Plain c) : initialSlashes (absolute k cs) = k := by
  have hj := isPrefixOf_slash_joinSep h
  simp only [startsWith] at hj
  rcases hk with rfl | rfl <;>
    simp [initialSlashes, absolute, startsWith, List.isPrefixOf, List.replicate, hj]

theorem initialSlashes_of_isabs {p : Str} (h : isabs p = true) :
    initialSlashes p = 1 ∨ initialSlashes p = 2 := by
  unfold isabs at h
  rw [initialSlashes, if_pos h]
  split
  · exact Or.inr rfl
  · exact Or.inl rfl

/-- With an initial slash, normalising keeps the components plain. -/
theorem foldl_normStep_plain {ps cs : List Str} (hps : ∀ c ∈ ps, '/' ∉ c)
    (hcs : ∀ c ∈ cs, Plain c) : ∀ c ∈ ps.foldl (normStep true) cs, Plain c := by
  induction ps generalizing cs with
  | nil => exact hcs
  | cons p ps ih =>
      rw [List.foldl_cons]
      refine ih (fun c hc => hps c (List.mem_cons_of_mem _ hc)) ?_
      have hlast : cs.getLast? ≠ some ['.', '.'] := fun hl =>
        (hcs _ (List.mem_of_getLast? hl)).2.2.2 rfl
      unfold normStep
      split
      · exact hcs
      · next hskip =>
          rw [not_or] at hskip
          split
          · next hkeep =>
              have hdots : p ≠ ['.', '.'] := by simpa [hlast] using hkeep
              intro c hc
              rcases List.mem_append.mp hc with hc | hc
              · exact hcs c hc
              · rw [List.mem_singleton.mp hc]
                exact ⟨hskip.1, hps p List.mem_cons_self, hskip.2, hdots⟩
          · exact fun c hc => hcs c (List.dropLast_subset cs hc)

/-- Plain components are all kept. -/
theorem foldl_normStep_of_plain {ps : List Str} (cs : List Str) (h : ∀ c ∈ ps, Plain c) :
    ps.foldl (normStep true) cs = cs ++ ps := by
  induction ps generalizing cs with
  | nil => simp
  | cons p ps ih =>
      obtain ⟨hne, -, hdot, hdots⟩ := h p List.mem_cons_self
      have hp : normStep true cs p = cs ++ [p] := by
        rw [normStep, if_neg (by simp [hne, hdot]), if_pos (Or.inl hdots)]
      rw [List.foldl_cons, hp, ih _ fun c hc => h c (List.mem_cons_of_mem _ hc)]
      simp

theorem absolute_ne_nil {k : Nat} (hk : k = 1 ∨ k = 2) (cs : List Str) : absolute k cs ≠ [] := by
  rcases hk with rfl | rfl <;> simp [absolute, List.replicate]

/-- What `normpath` does with an absolute path. -/
theorem normpath_of_isabs {p : Str} (h : isabs p = true) :
    normpath p = absolute (initialSlashes p) ((split p).foldl (normStep true) []) := by
  have hk := initialSlashes_of_isabs h
  have hne : p ≠ [] := by
    rintro rfl
    simp [isabs, startsWith] at h
  have hb : (initialSlashes p != 0) = true := by
    rcases hk with hk | hk <;> simp [hk]
  simp only [normpath, if_neg hne, hb]
  exact if_neg (absolute_ne_nil hk _)

theorem foldl_normStep_split_plain (p : Str) :
    ∀ c ∈ (split p).foldl (normStep true) [], Plain c :=
  foldl_normStep_plain (fun _ hc => notMem_of_mem_split hc) (by simp)

/-- An absolute path string normalises to one or two slashes and plain components. -/
theorem normpath_spec {p : Str} (h : isabs p = true) :
    ∃ k cs, (k = 1 ∨ k = 2) ∧ (∀ c ∈ cs, Plain c) ∧ normpath p = absolute k cs :=
  ⟨_, _, initialSlashes_of_isabs h, foldl_normStep_split_plain p, normpath_of_isabs h⟩

/-- Empty pieces are skipped. -/
theorem foldl_normStep_filter (b : Bool) (ps cs : List Str) :
    ps.foldl (normStep b) cs = (ps.filter (· ≠ [])).foldl (normStep b) cs := by
  induction ps generalizing cs with
  | nil => rfl
  | cons p ps ih =>
      by_cases hp : p = []
      · rw [List.foldl_cons, List.filter_cons_of_neg (by simpa using hp), hp, normStep,
          if_pos (Or.inl rfl), ih]
      · rw [List.filter_cons_of_pos (by simpa using hp), List.foldl_cons, List.foldl_cons, ih]

/-- The components of a normalised absolute path. -/
theorem comps_normpath {p : Str} (h : isabs p = true) :
    comps (normpath p) = (comps p).foldl (normStep true) [] := by
  rw [normpath_of_isabs h, comps_absolute _ (foldl_normStep_split_plain p), foldl_normStep_filter,
    comps]

/-- Plain components are what is left of an absolute path. -/
theorem normpath_of_plain {p : Str} (habs : isabs p = true) (h : ∀ c ∈ comps p, Plain c) :
    normpath p = absolute (initialSlashes p) (comps p) := by
  have hfold : (split p).foldl (normStep true) [] = comps p := by
    rw [foldl_normStep_filter]
    exact foldl_normStep_of_plain [] h
  rw [normpath_of_isabs habs, hfold]

theorem isabs_absolute {k : Nat} (hk : k = 1 ∨ k = 2) (cs : List Str) :
    isabs (absolute k cs) = true := by
  rcases hk with rfl | rfl <;> simp [isabs, startsWith, absolute, List.replicate, List.isPrefixOf]

theorem isabs_append {p : Str} (q : Str) (h : isabs p = true) : isabs (p ++ q) = true := by
  cases p with
  | nil => simp [isabs, startsWith] at h
  | cons x p => simpa [isabs, startsWith, List.isPrefixOf] using h

theorem isabs_join {a : Str} (b : Str) (h : isabs a = true) : isabs (join a b) = true := by
  unfold join
  split
  · assumption
  · split
    · exact isabs_append b h
    · rw [List.append_assoc]
      exact isabs_append _ h

/-- The components of an absolute path, from a working directory of plain components. -/
theorem comps_abspath {cwd : Str} (hcwd : isabs cwd = true) (hplain : ∀ c ∈ comps cwd, Plain c)
    (p : Str) : comps (abspath cwd p) =
      (comps p).foldl (normStep true) (if isabs p then [] else comps cwd) := by
  unfold abspath
  split
  · next hp => exact comps_normpath hp
  · next hp =>
      have hne : cwd ≠ [] := by
        rintro rfl
        simp [isabs, startsWith] at hcwd
      rw [comps_normpath (isabs_join p hcwd), comps_join hne (by simpa using hp),
        List.foldl_append, foldl_normStep_of_plain [] hplain, List.nil_append]

/-- A plain component below a path. -/
theorem comps_abspath_child {cwd p c : Str} (hcwd : isabs cwd = true)
    (hplain : ∀ d ∈ comps cwd, Plain d) (hne : p ≠ []) (hc : Plain c) :
    comps (abspath cwd (p ++ '/' :: c)) = comps (abspath cwd p) ++ [c] := by
  have habs : isabs (p ++ '/' :: c) = isabs p := by
    cases p with
    | nil => exact absurd rfl hne
    | cons x p => simp [isabs, startsWith, List.isPrefixOf]
  rw [comps_abspath hcwd hplain, comps_abspath hcwd hplain, habs, comps_append_slash,
    comps_of_notMem hc.2.1 hc.1, List.foldl_append]
  exact foldl_normStep_of_plain _ fun d hd => by rwa [List.mem_singleton.mp hd]

/-- A slash at the end changes nothing. -/
theorem comps_abspath_slash {cwd p : Str} (hcwd : isabs cwd = true)
    (hplain : ∀ d ∈ comps cwd, Plain d) (hne : p ≠ []) :
    comps (abspath cwd (p ++ ['/'])) = comps (abspath cwd p) := by
  have habs : isabs (p ++ ['/']) = isabs p := by
    cases p with
    | nil => exact absurd rfl hne
    | cons x p => simp [isabs, startsWith, List.isPrefixOf]
  rw [comps_abspath hcwd hplain, comps_abspath hcwd hplain, habs, comps_append_slash, comps_nil,
    List.append_nil]

/-- What `abspath` returns, from an absolute working directory. -/
theorem abspath_spec {cwd : Str} (hcwd : isabs cwd = true) (p : Str) :
    ∃ k cs, (k = 1 ∨ k = 2) ∧ (∀ c ∈ cs, Plain c) ∧ abspath cwd p = absolute k cs := by
  unfold abspath
  split
  · next hp => exact normpath_spec hp
  · exact normpath_spec (isabs_join p hcwd)

-- ============================================================================
-- Normalising before the working directory is known
-- ============================================================================

theorem normStep_append_plain {cs : List Str} {c : Str} (b : Bool) (h : Plain c) :
    normStep b cs c = cs ++ [c] := by
  rw [normStep, if_neg (by simp [h.1, h.2.2.1]), if_pos (Or.inl h.2.2.2)]

/-- Normalising the pieces of a relative path first makes no difference to where they
    lead from an absolute one. -/
theorem foldl_normStep_foldl {ps base : List Str} (hps : ∀ c ∈ ps, '/' ∉ c) :
    (∀ c ∈ ps.foldl (normStep false) [], Piece c) ∧
      (ps.foldl (normStep false) []).foldl (normStep true) base
        = ps.foldl (normStep true) base := by
  induction ps using List.reverseRecOn with
  | nil => exact ⟨by simp, rfl⟩
  | append_singleton ps c ih =>
      obtain ⟨hpieces, hlead⟩ := ih fun d hd => hps d (List.mem_append_left _ hd)
      have hslash : '/' ∉ c := hps c (by simp)
      simp only [List.foldl_append, List.foldl_cons, List.foldl_nil]
      generalize hns : ps.foldl (normStep false) [] = ns at hpieces hlead ⊢
      rw [← hlead]
      by_cases hskip : c = [] ∨ c = ['.']
      · rw [normStep, if_pos hskip, normStep, if_pos hskip]
        exact ⟨hpieces, rfl⟩
      · have hpiece : Piece c := ⟨fun h => hskip (Or.inl h), hslash, fun h => hskip (Or.inr h)⟩
        by_cases hkeep : c ≠ ['.', '.'] ∨ (false = false ∧ ns = [])
            ∨ ns.getLast? = some ['.', '.']
        · rw [normStep, if_neg hskip, if_pos hkeep]
          refine ⟨fun d hd => ?_, by rw [List.foldl_append]; rfl⟩
          rcases List.mem_append.mp hd with hd | hd
          · exact hpieces d hd
          · rw [List.mem_singleton.mp hd]
            exact hpiece
        · -- `..` takes back the plain piece before it
          rw [not_or, not_not] at hkeep
          obtain ⟨hdots, hlast⟩ := hkeep
          obtain ⟨ms, d, rfl⟩ := (List.eq_nil_or_concat' ns).resolve_left (by simp_all)
          have hd := hpieces d (by simp)
          have hplain : Plain d := ⟨hd.1, hd.2.1, hd.2.2, by simp_all⟩
          rw [normStep, if_neg hskip, if_neg (by simp_all), List.dropLast_concat]
          refine ⟨fun e he => hpieces e (List.mem_append_left _ he), ?_⟩
          simp only [List.foldl_append, List.foldl_cons, List.foldl_nil]
          rw [normStep_append_plain true hplain, hdots, normStep, if_neg (by simp),
            if_neg (by simp [hplain.2.2.2]), List.dropLast_concat]

/-- A path string leads where its normalised form leads. -/
theorem comps_abspath_normpath {cwd p : Str} (hcwd : isabs cwd = true)
    (hplain : ∀ c ∈ comps cwd, Plain c) (hne : p ≠ []) :
    comps (abspath cwd (normpath p)) = comps (abspath cwd p) := by
  cases habs : isabs p with
  | true =>
      obtain ⟨k, cs, hk, hcs, heq⟩ := normpath_spec habs
      have hself : isabs (normpath p) = true := by
        rw [heq]
        exact isabs_absolute hk cs
      rw [abspath, if_pos hself, abspath, if_pos habs, heq, normpath_of_plain
        (isabs_absolute hk cs) (by rw [comps_absolute k hcs]; exact hcs), comps_absolute k hcs,
        comps_absolute _ hcs]
  | false =>
      have hslashes : initialSlashes p = 0 := by
        unfold isabs at habs
        rw [initialSlashes, if_neg (by simp [habs])]
      have hsplit : ∀ c ∈ split p, '/' ∉ c := fun c hc => notMem_of_mem_split (p := p) hc
      obtain ⟨hpieces, hlead⟩ :
          (∀ c ∈ (split p).foldl (normStep false) [], Piece c) ∧
            ((split p).foldl (normStep false) []).foldl (normStep true) (comps cwd)
              = (split p).foldl (normStep true) (comps cwd) := foldl_normStep_foldl hsplit
      have hnorm : normpath p = if joinSep ((split p).foldl (normStep false) []) = [] then ['.']
          else joinSep ((split p).foldl (normStep false) []) := by
        simp only [normpath, if_neg hne, hslashes]
        rfl
      generalize (split p).foldl (normStep false) [] = ns at hpieces hlead hnorm
      have hright : comps (abspath cwd p) = ns.foldl (normStep true) (comps cwd) := by
        rw [comps_abspath hcwd hplain p, habs, hlead, foldl_normStep_filter true (split p)]
        rfl
      rw [hright, hnorm]
      by_cases hnil : ns = []
      · subst hnil
        rw [comps_abspath hcwd hplain]
        rfl
      · have hjoin : joinSep ns ≠ [] := by
          intro h
          have hback := comps_joinSep_of_piece hpieces
          rw [h, comps_nil] at hback
          exact hnil hback.symm
        rw [if_neg hjoin, comps_abspath hcwd hplain, isabs_joinSep_of_piece hpieces,
          comps_joinSep_of_piece hpieces]
        rfl

/-- A joined path of plain components does not end with a slash. -/
theorem getLast?_joinSep_ne_slash {cs : List Str} (h : ∀ c ∈ cs, Plain c) :
    (joinSep cs).getLast? ≠ some '/' := by
  rcases List.eq_nil_or_concat' cs with rfl | ⟨ds, d, rfl⟩
  · simp [joinSep]
  · have hd : Plain d := h d (by simp)
    obtain ⟨e, x, rfl⟩ := (List.eq_nil_or_concat' d).resolve_left hd.1
    have hend : (joinSep (ds ++ [e ++ [x]])).getLast? = some x := by
      by_cases hds : ds = []
      · simp [hds]
      · rw [joinSep_concat _ hds, ← List.cons_append, ← List.append_assoc, List.getLast?_concat]
    rw [hend, Ne, Option.some_inj]
    rintro rfl
    exact hd.2.1 (by simp)

/-- What a path of plain components leads to from a directory. -/
theorem comps_abspath_join {cwd p : Str} {cs : List Str} (hcwd : isabs cwd = true)
    (hplain : ∀ c ∈ comps cwd, Plain c) (h : ∀ c ∈ cs, Plain c) :
    comps (abspath cwd (join p (joinSep cs))) = comps (abspath cwd p) ++ cs := by
  have hrel := isPrefixOf_slash_joinSep h
  by_cases hp : p = []
  · have hjoin : join p (joinSep cs) = joinSep cs := by
      rw [join, if_neg (by simp [isabs, hrel]), if_pos (Or.inl hp), hp, List.nil_append]
    rw [hjoin, hp, comps_abspath hcwd hplain, comps_abspath hcwd hplain, comps_joinSep h,
      if_neg (by simp [isabs, hrel]), foldl_normStep_of_plain _ h]
    rfl
  · rw [comps_abspath hcwd hplain, comps_abspath hcwd hplain, isabs_join_eq hp hrel,
      comps_join hp hrel, comps_joinSep h, List.foldl_append, foldl_normStep_of_plain _ h]

/-- Joining a dot leads nowhere else. -/
theorem comps_abspath_join_dot {cwd : Str} (hcwd : isabs cwd = true)
    (hplain : ∀ c ∈ comps cwd, Plain c) (p : Str) :
    comps (abspath cwd (join p ['.'])) = comps (abspath cwd p) := by
  have hdot : isabs ['.'] = false := by decide
  by_cases hp : p = []
  · subst hp
    rw [comps_abspath hcwd hplain, comps_abspath hcwd hplain]
    rfl
  · rw [comps_abspath hcwd hplain, comps_abspath hcwd hplain, isabs_join_eq hp hdot,
      comps_join hp hdot, List.foldl_append]
    rfl

/-- Joining plain components one by one. -/
theorem foldl_join_plain {c : Str} {cs : List Str} (h : ∀ d ∈ c :: cs, Plain d) :
    cs.foldl join c = joinSep (c :: cs) := by
  induction cs using List.reverseRecOn with
  | nil => simp
  | append_singleton cs d ih =>
      have hcs : ∀ e ∈ c :: cs, Plain e := fun e he => h e (by simp at he ⊢; tauto)
      have hd : Plain d := h d (by simp)
      have hne : joinSep (c :: cs) ≠ [] := by
        rw [Ne, joinSep_eq_nil_iff hcs]
        exact List.cons_ne_nil c cs
      rw [List.foldl_concat, ih hcs, join, if_neg (by simp [isabs_of_notMem hd.2.1]),
        if_neg (by simp [hne, getLast?_joinSep_ne_slash hcs]), ← List.cons_append,
        joinSep_concat d (List.cons_ne_nil c cs)]
      simp

theorem commonPrefix_append (as bs : List Str) : commonPrefix as (as ++ bs) = as := by
  induction as with
  | nil => rfl
  | cons a as ih => rw [List.cons_append, commonPrefix, if_pos rfl, ih]

/-- The path from a directory to what lies below it. -/
theorem relpath_below {cwd path start : Str} {rel : List Str}
    (h : comps (abspath cwd path) = comps (abspath cwd start) ++ rel) (hne : rel ≠ [])
    (hrel : ∀ c ∈ rel, Plain c) : relpath cwd path start = joinSep rel := by
  obtain ⟨c, cs, rfl⟩ := List.exists_cons_of_ne_nil hne
  have hlists : relpath cwd path start = match List.replicate ((comps (abspath cwd start)).length
      - (commonPrefix (comps (abspath cwd start)) (comps (abspath cwd path))).length) ['.', '.']
      ++ (comps (abspath cwd path)).drop
        (commonPrefix (comps (abspath cwd start)) (comps (abspath cwd path))).length with
      | [] => ['.']
      | c :: cs => cs.foldl join c := rfl
  rw [hlists, h, commonPrefix_append, Nat.sub_self, List.replicate_zero, List.nil_append,
    List.drop_left]
  exact foldl_join_plain hrel

-- ============================================================================
-- Common paths and directory names
-- ============================================================================

theorem commonPrefix_eq_right_iff {as bs : List Str} : commonPrefix as bs = bs ↔ bs <+: as := by
  induction as generalizing bs with
  | nil => cases bs <;> simp [commonPrefix]
  | cons a as ih =>
      cases bs with
      | nil => simp [commonPrefix]
      | cons b bs =>
          rw [List.cons_prefix_cons]
          by_cases hab : a = b
          · simp [commonPrefix, hab, ih]
          · simp [commonPrefix, hab, Ne.symm hab]

theorem mem_of_mem_commonPrefix {as bs : List Str} {c : Str} (h : c ∈ commonPrefix as bs) :
    c ∈ bs := by
  induction as generalizing bs with
  | nil => cases bs <;> simp [commonPrefix] at h
  | cons a as ih =>
      cases bs with
      | nil => simp [commonPrefix] at h
      | cons b bs =>
          by_cases hab : a = b
          · simp only [commonPrefix, hab, if_true, List.mem_cons] at h
            rcases h with rfl | h
            · exact List.mem_cons_self
            · exact List.mem_cons_of_mem _ (ih h)
          · simp [commonPrefix, hab] at h

theorem commonParts_absolute {cs : List Str} (k : Nat) (h : ∀ c ∈ cs, Plain c) :
    commonParts (absolute k cs) = cs := by
  have hne : commonParts (absolute k cs) = (comps (absolute k cs)).filter (· ≠ ['.']) := by
    simp only [commonParts, comps, List.filter_filter]
    congr 1
    funext c
    simp [Bool.and_comm]
  rw [hne, comps_absolute k h]
  exact List.filter_eq_self.mpr fun c hc => by simpa using (h c hc).2.2.1

/-- Normalised paths are told apart by their slashes and components. -/
theorem absolute_inj {j k : Nat} {as bs : List Str} (ha : ∀ c ∈ as, Plain c)
    (hb : ∀ c ∈ bs, Plain c) : absolute j as = absolute k bs ↔ j = k ∧ as = bs := by
  constructor
  · intro h
    have hcomps := congrArg comps h
    rw [comps_absolute j ha, comps_absolute k hb] at hcomps
    subst hcomps
    have hlen := congrArg List.length h
    simp only [absolute, List.length_append, List.length_replicate] at hlen
    exact ⟨by omega, rfl⟩
  · rintro ⟨rfl, rfl⟩
    rfl

/-- `commonpath([p, root]) == root` asks for a prefix of the components and for
    a root spelled with one leading slash, as `commonpath` returns no more. -/
theorem commonpath_eq_iff {j k : Nat} {as bs : List Str} (hj : j = 1 ∨ j = 2)
    (hk : k = 1 ∨ k = 2) (ha : ∀ c ∈ as, Plain c) (hb : ∀ c ∈ bs, Plain c) :
    commonpath (absolute j as) (absolute k bs) = .ok (absolute k bs) ↔ k = 1 ∧ bs <+: as := by
  have hprefix : ∀ c ∈ commonPrefix as bs, Plain c := fun c hc =>
    hb c (mem_of_mem_commonPrefix hc)
  rw [commonpath, isabs_absolute hj, isabs_absolute hk, if_pos rfl, if_pos rfl,
    commonParts_absolute j ha, commonParts_absolute k hb, Except.ok.injEq]
  rw [show ['/'] ++ joinSep (commonPrefix as bs) = absolute 1 (commonPrefix as bs) from rfl,
    absolute_inj hprefix hb, commonPrefix_eq_right_iff, eq_comm]

theorem commonpath_absolute {j k : Nat} (as bs : List Str) (hj : j = 1 ∨ j = 2)
    (hk : k = 1 ∨ k = 2) : ∃ p, commonpath (absolute j as) (absolute k bs) = .ok p := by
  rw [commonpath, isabs_absolute hj, isabs_absolute hk, if_pos rfl]
  exact ⟨_, rfl⟩

theorem rdropWhile_append_notMem {c : Str} (p : Str) (h : '/' ∉ c) :
    (p ++ '/' :: c).rdropWhile (· ≠ '/') = p ++ ['/'] := by
  induction c using List.reverseRecOn with
  | nil => exact List.rdropWhile_concat_neg _ _ _ (by simp)
  | append_singleton c x ih =>
      rw [List.mem_append, List.mem_singleton, not_or] at h
      have hx : (x ≠ '/') := fun hx => h.2 hx.symm
      rw [← List.cons_append, ← List.append_assoc, List.rdropWhile_concat_pos _ _ _ (by simpa using hx),
        ih h.1]

/-- The last character of a plain component is no slash. -/
theorem rdropWhile_slash_of_plain {c : Str} (p : Str) (h : Plain c) :
    (p ++ c).rdropWhile (· = '/') = p ++ c := by
  obtain ⟨hne, hslash, -, -⟩ := h
  obtain ⟨d, x, rfl⟩ := (List.eq_nil_or_concat' c).resolve_left hne
  rw [← List.append_assoc]
  refine List.rdropWhile_concat_neg _ _ _ ?_
  simp only [decide_eq_true_eq]
  rintro rfl
  simp at hslash

/-- `dirname` drops the last component of a normalised path. -/
theorem dirname_absolute {k : Nat} {cs : List Str} {c : Str} (hk : k = 1 ∨ k = 2)
    (h : ∀ d ∈ cs ++ [c], Plain d) : dirname (absolute k (cs ++ [c])) = absolute k cs := by
  have hc : Plain c := h c (by simp)
  rcases List.eq_nil_or_concat' cs with rfl | ⟨ds, d, rfl⟩
  · -- directly below the root: the head is all slashes and is kept
    have habs : absolute k ([] ++ [c]) = List.replicate (k - 1) '/' ++ '/' :: c := by
      rcases hk with rfl | rfl <;> simp [absolute, List.replicate]
    have hhead : (absolute k ([] ++ [c])).rdropWhile (· ≠ '/') = absolute k [] := by
      rw [habs, rdropWhile_append_notMem _ hc.2.1]
      rcases hk with rfl | rfl <;> rfl
    rw [dirname, hhead]
    have hall : (absolute k []).all (· = '/') = true := by
      rcases hk with rfl | rfl <;> rfl
    exact if_pos hall
  · have habs : absolute k (ds ++ [d] ++ [c]) = absolute k (ds ++ [d]) ++ '/' :: c := by
      rw [absolute, joinSep_concat c (by simp), absolute, List.append_assoc]
    have hd : Plain d := h d (by simp)
    have hend : ∃ p, absolute k (ds ++ [d]) = p ++ d := by
      rcases eq_or_ne ds [] with rfl | hne
      · exact ⟨List.replicate k '/', by simp [absolute]⟩
      · refine ⟨List.replicate k '/' ++ joinSep ds ++ ['/'], ?_⟩
        rw [absolute, joinSep_concat d hne]
        simp
    obtain ⟨p, hp⟩ := hend
    have hnall : (absolute k (ds ++ [d]) ++ ['/']).all (· = '/') = false := by
      obtain ⟨hne, hslash, -, -⟩ := hd
      cases d with
      | nil => exact absurd rfl hne
      | cons x d =>
          have hx : x ≠ '/' := by
            rintro rfl
            simp at hslash
          simp [hp, hx]
    rw [dirname, habs, rdropWhile_append_notMem _ hc.2.1]
    simp only [hnall]
    rw [if_neg (by simp), List.rdropWhile_concat_pos _ _ _ (by simp), hp,
      rdropWhile_slash_of_plain p hd]

-- ============================================================================
-- Spellings of a list of components
-- ============================================================================

/-- The absolute path string `p` leads to these components: there is nothing in
    it to normalise but slashes. -/
structure Spells (p : Str) (cs : List Str) : Prop where
  abs : isabs p = true
  comps_eq : comps p = cs
  plain : ∀ c ∈ cs, Plain c

/-- The path string `p` is what `abspath` returns for these components. -/
structure Normal (p : Str) (cs : List Str) : Prop where
  plain : ∀ c ∈ cs, Plain c
  eq : ∃ k, (k = 1 ∨ k = 2) ∧ p = absolute k cs

theorem Normal.spells {p : Str} {cs : List Str} (h : Normal p cs) : Spells p cs := by
  obtain ⟨k, hk, rfl⟩ := h.eq
  exact ⟨isabs_absolute hk cs, comps_absolute k h.plain, h.plain⟩

theorem Spells.normal_normpath {p : Str} {cs : List Str} (h : Spells p cs) :
    Normal (normpath p) cs := by
  refine ⟨h.plain, initialSlashes p, initialSlashes_of_isabs h.abs, ?_⟩
  rw [normpath_of_plain h.abs (by rw [h.comps_eq]; exact h.plain), h.comps_eq]

/-- Normalised paths stay as they are. -/
theorem Normal.abspath_eq {p : Str} {cs : List Str} (h : Normal p cs) (cwd : Str) :
    abspath cwd p = p := by
  obtain ⟨k, hk, rfl⟩ := h.eq
  have hs := h.spells
  rw [abspath, if_pos hs.abs, normpath_of_plain hs.abs (by rw [hs.comps_eq]; exact hs.plain),
    hs.comps_eq, initialSlashes_absolute hk h.plain]

/-- `abspath` returns a normalised path, from an absolute working directory. -/
theorem normal_abspath {cwd : Str} (hcwd : isabs cwd = true) (p : Str) :
    Normal (abspath cwd p) (comps (abspath cwd p)) := by
  obtain ⟨k, cs, hk, hcs, heq⟩ := abspath_spec hcwd p
  rw [heq, comps_absolute k hcs]
  exact ⟨hcs, k, hk, rfl⟩

/-- The path of an entry of a directory, as the handlers write it. -/
theorem Spells.child {p c : Str} {cs : List Str} (h : Spells p cs) (hc : Plain c) :
    Spells (p ++ ['/'] ++ c) (cs ++ [c]) where
  abs := by rw [List.append_assoc]; exact isabs_append _ h.abs
  comps_eq := by
    rw [List.append_assoc, List.singleton_append, comps_append_slash, h.comps_eq,
      comps_of_notMem hc.2.1 hc.1]
  plain := by
    intro d hd
    rcases List.mem_append.mp hd with hd | hd
    · exact h.plain d hd
    · rw [List.mem_singleton.mp hd]
      exact hc

/-- Joining a relative path appends its components. -/
theorem Spells.spells_join {p q : Str} {cs ds : List Str} (h : Spells p cs) (hq : isabs q = false)
    (hcomps : comps q = ds) (hds : ∀ c ∈ ds, Plain c) :
    Spells (join p q) (cs ++ ds) := by
  have hne : p ≠ [] := by
    rintro rfl
    exact absurd h.abs (by simp [isabs, startsWith])
  have hplain : ∀ c ∈ cs ++ ds, Plain c := by
    intro c hc
    rcases List.mem_append.mp hc with hc | hc
    · exact h.plain c hc
    · exact hds c hc
  have hc : comps (join p q) = cs ++ ds := by
    rw [comps_join hne hq, h.comps_eq, hcomps]
  exact ⟨isabs_join q h.abs, hc, hplain⟩

theorem Spells.spells_join_plain {p c : Str} {cs : List Str} (h : Spells p cs) (hc : Plain c) :
    Spells (join p c) (cs ++ [c]) := by
  refine h.spells_join (isabs_of_notMem hc.2.1) (comps_of_notMem hc.2.1 hc.1) fun d hd => ?_
  rw [List.mem_singleton.mp hd]
  exact hc

theorem Normal.normal_dirname {p : Str} {cs : List Str} (h : Normal p cs) :
    Normal (dirname p) cs.dropLast := by
  obtain ⟨k, hk, rfl⟩ := h.eq
  refine ⟨fun c hc => h.plain c (List.dropLast_subset cs hc), k, hk, ?_⟩
  rcases List.eq_nil_or_concat' cs with rfl | ⟨ds, d, rfl⟩
  · rcases hk with rfl | rfl <;> rfl
  · rw [List.dropLast_concat]
    exact dirname_absolute hk h.plain

end PosixPath
end Py
end NetworkingFinal
