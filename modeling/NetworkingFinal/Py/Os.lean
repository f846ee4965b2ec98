/-
  NetworkingFinal.Py.Os

  The calls of `os`, `os.path` and `shutil` that the servers make, as programs
  over a file tree.

  A path string is resolved the way the kernel walks it, component by component
  from the root or the working directory.  A call that fails raises ValueError
  when the path contains a null character and OSError otherwise; the tests
  `isfile`, `isdir` and `exists` return False instead.

  The programs on a path that spells components at or below `r`

  - change nothing outside `r` (`keeps_*`, for the frame `confined r`), and
  - end the same way from two trees that agree below `r` (`coupled_*`).
-/
import NetworkingFinal.Py.FileTree
import NetworkingFinal.Py.Prog
import Mathlib.Data.List.Sort

namespace NetworkingFinal
namespace Py
namespace Os

open PosixPath Prog

variable {α : Type}

-- ============================================================================
-- Resolving paths
-- ============================================================================

/-- Walk along components; `.` and `..` ask for a directory. -/
def walkFrom (t : FileTree) : Path → List Str → Except Exn Path
  | cur, [] => .ok cur
  | cur, c :: cs =>
      if c = ['.'] then
        if t.isDir cur then walkFrom t cur cs else .error .osError
      else if c = ['.', '.'] then
        if t.isDir cur then walkFrom t cur.dropLast cs else .error .osError
      else walkFrom t (cur ++ [c]) cs

/-- What the path string leads to; the empty one leads nowhere. -/
def resolve (cwd : Str) (t : FileTree) (p : Str) : Except Exn Path :=
  if p = [] then .error .osError
  else walkFrom t (if isabs p then [] else comps cwd) (comps p)

theorem walkFrom_of_plain {cs : List Str} (t : FileTree) (cur : Path)
    (h : ∀ c ∈ cs, Plain c) : walkFrom t cur cs = .ok (cur ++ cs) := by
  induction cs generalizing cur with
  | nil => simp [walkFrom]
  | cons c cs ih =>
      obtain ⟨-, -, hdot, hdots⟩ := h c List.mem_cons_self
      rw [walkFrom, if_neg hdot, if_neg hdots, ih _ fun d hd => h d (List.mem_cons_of_mem _ hd)]
      simp

theorem walkFrom_append (t : FileTree) (cur : Path) (cs ds : List Str) :
    walkFrom t cur (cs ++ ds) = walkFrom t cur cs >>= fun q => walkFrom t q ds := by
  induction cs generalizing cur with
  | nil => rfl
  | cons c cs ih =>
      rw [List.cons_append, walkFrom, walkFrom]
      split
      · split
        · exact ih _
        · rfl
      · split
        · split
          · exact ih _
          · rfl
        · exact ih _

/-- Without links, a walk that succeeds ends where normalising the path ends. -/
theorem eq_of_walkFrom {t : FileTree} {cur q : Path} {cs : List Str}
    (hcs : ∀ c ∈ cs, c ≠ [] ∧ '/' ∉ c) (hcur : ∀ c ∈ cur, Plain c)
    (h : walkFrom t cur cs = .ok q) : q = cs.foldl (normStep true) cur := by
  induction cs generalizing cur with
  | nil =>
      cases h
      rfl
  | cons c cs ih =>
      obtain ⟨hne, hslash⟩ := hcs c List.mem_cons_self
      have hrest : ∀ d ∈ cs, d ≠ [] ∧ '/' ∉ d := fun d hd => hcs d (List.mem_cons_of_mem _ hd)
      rw [walkFrom] at h
      rw [List.foldl_cons]
      split at h
      · next hdot =>
          have hstep : normStep true cur c = cur := if_pos (Or.inr hdot)
          split at h
          · rw [hstep]
            exact ih hrest hcur h
          · cases h
      · next hdot =>
          split at h
          · next hdots =>
              have hlast : cur.getLast? ≠ some ['.', '.'] := fun hl =>
                (hcur _ (List.mem_of_getLast? hl)).2.2.2 rfl
              have hstep : normStep true cur c = cur.dropLast := by
                rw [normStep, if_neg (by simp [hne, hdot]), if_neg (by simp [hdots, hlast])]
              split at h
              · rw [hstep]
                exact ih hrest (fun d hd => hcur d (List.dropLast_subset cur hd)) h
              · cases h
          · next hdots =>
              have hstep : normStep true cur c = cur ++ [c] := by
                rw [normStep, if_neg (by simp [hne, hdot]), if_pos (Or.inl hdots)]
              rw [hstep]
              refine ih hrest (fun d hd => ?_) h
              rcases List.mem_append.mp hd with hd | hd
              · exact hcur d hd
              · rw [List.mem_singleton.mp hd]
                exact ⟨hne, hslash, hdot, hdots⟩

/-- What a path string leads to is what `abspath` makes of it. -/
theorem eq_comps_abspath_of_resolve {cwd p : Str} {t : FileTree} {q : Path}
    (hcwd : isabs cwd = true) (hplain : ∀ c ∈ comps cwd, Plain c)
    (h : resolve cwd t p = .ok q) : q = comps (abspath cwd p) := by
  rw [resolve] at h
  split at h
  · cases h
  rw [comps_abspath hcwd hplain]
  refine eq_of_walkFrom (fun c hc => ?_) ?_ h
  · exact ⟨by simpa using (List.mem_filter.mp hc).2, notMem_of_mem_comps hc⟩
  · split
    · intro c hc
      cases hc
    · exact hplain

/-- A path that spells its components leads to them, in every tree. -/
theorem resolve_of_spells {p : Str} {cs : Path} (cwd : Str) (t : FileTree) (h : Spells p cs) :
    resolve cwd t p = .ok cs := by
  have hne : p ≠ [] := by
    rintro rfl
    exact absurd h.abs (by decide)
  rw [resolve, if_neg hne, if_pos h.abs, h.comps_eq, walkFrom_of_plain t [] h.plain,
    List.nil_append]

/-- Without `..` a walk only goes down. -/
theorem prefix_foldl_normStep {cur : Path} {cs : List Str} (hcs : ['.', '.'] ∉ cs) :
    cur <+: cs.foldl (normStep true) cur := by
  induction cs generalizing cur with
  | nil => exact List.prefix_refl cur
  | cons c cs ih =>
      rw [List.mem_cons, not_or] at hcs
      refine List.IsPrefix.trans ?_ (ih hcs.2)
      rw [normStep]
      split
      · exact List.prefix_refl cur
      · rw [if_pos (Or.inl (Ne.symm hcs.1))]
        exact List.prefix_append _ _

/-- A walk without `..` that ends at a directory succeeds. -/
theorem walkFrom_of_isDir {t : FileTree} {cur : Path} {cs : List Str} (hne : [] ∉ cs)
    (hdots : ['.', '.'] ∉ cs) (hdir : t.isDir (cs.foldl (normStep true) cur) = true) :
    walkFrom t cur cs = .ok (cs.foldl (normStep true) cur) := by
  induction cs generalizing cur with
  | nil => rfl
  | cons c cs ih =>
      rw [List.mem_cons, not_or] at hne hdots
      rw [List.foldl_cons] at hdir ⊢
      have hup : normStep true cur c <+: cs.foldl (normStep true) (normStep true cur c) :=
        prefix_foldl_normStep hdots.2
      rw [walkFrom]
      by_cases hdot : c = ['.']
      · have hstep : normStep true cur c = cur := if_pos (Or.inr hdot)
        rw [hstep] at hdir hup ⊢
        have hcur : t.isDir cur = true := by
          by_cases heq : cur = cs.foldl (normStep true) cur
          · rw [heq]
            exact hdir
          · exact FileTree.isDir_of_prefix hup heq (FileTree.get?_ne_none_of_isDir hdir)
        rw [if_pos hdot, if_pos hcur]
        exact ih hne.2 hdots.2 hdir
      · have hstep : normStep true cur c = cur ++ [c] := by
          rw [normStep, if_neg (by simp [hdot, Ne.symm hne.1]), if_pos (Or.inl (Ne.symm hdots.1))]
        rw [if_neg hdot, if_neg (Ne.symm hdots.1), ← hstep]
        exact ih hne.2 hdots.2 hdir

/-- A path without `..` leads to its directory. -/
theorem resolve_of_isDir {cwd p : Str} {t : FileTree} (hcwd : isabs cwd = true)
    (hplain : ∀ c ∈ comps cwd, Plain c) (hne : p ≠ []) (hdots : ['.', '.'] ∉ comps p)
    (hdir : t.isDir (comps (abspath cwd p)) = true) :
    resolve cwd t p = .ok (comps (abspath cwd p)) := by
  rw [comps_abspath hcwd hplain] at hdir ⊢
  rw [resolve, if_neg hne]
  refine walkFrom_of_isDir (fun hmem => ?_) hdots hdir
  exact absurd rfl (of_decide_eq_true (List.mem_filter.mp hmem).2)

/-- Plain components after a path that leads somewhere. -/
theorem resolve_append_slash {cwd p rest : Str} {t : FileTree} {q : Path} (hne : p ≠ [])
    (h : resolve cwd t p = .ok q) (hrest : ∀ c ∈ comps rest, Plain c) :
    resolve cwd t (p ++ '/' :: rest) = .ok (q ++ comps rest) := by
  have habs : isabs (p ++ '/' :: rest) = isabs p := by
    cases p with
    | nil => exact absurd rfl hne
    | cons c p => rfl
  rw [resolve, if_neg hne] at h
  rw [resolve, if_neg (by simp), habs, comps_append_slash, walkFrom_append, h]
  exact walkFrom_of_plain t q hrest

-- ============================================================================
-- Calls
-- ============================================================================

section Calls

variable (cwd : Str)

/-- The exception of a failed call on this path. -/
def pathError (q : Path) : Exn :=
  if q.any (fun c => c.contains '\x00') then .valueError else .osError

/-- A test of what the path leads to. -/
def query (f : FileTree → Path → Bool) (p : Str) : Prog FileTree Bool := reads fun t =>
  match resolve cwd t p with
  | .ok q => .ok (f t q)
  | .error _ => .ok false

/-- `os.path.isfile` -/
def isfile : Str → Prog FileTree Bool := query cwd FileTree.isFile

/-- `os.path.isdir` -/
def isdir : Str → Prog FileTree Bool := query cwd FileTree.isDir

/-- `os.path.exists` -/
def pathExists : Str → Prog FileTree Bool := query cwd fun t q => (t.get? q).isSome

/-- A value read from what the path leads to. -/
def fetch (f : FileTree → Path → Option α) (p : Str) : Prog FileTree α := reads fun t =>
  match resolve cwd t p with
  | .error e => .error e
  | .ok q =>
      match f t q with
      | some a => .ok a
      | none => .error (pathError q)

/-- `open(p, "rb").read()` -/
def readFile : Str → Prog FileTree Bytes := fetch cwd fun t q =>
  match t.get? q with
  | some (.file data _) => some data
  | _ => none

/-- `os.path.getmtime` -/
def getmtime : Str → Prog FileTree UInt64 := fetch cwd fun t q =>
  match t.get? q with
  | some (.file _ updatedAt) => some updatedAt
  | some (.dir updatedAt) => some updatedAt
  | none => none

/-- `os.stat(p).st_size` of a file -/
def fileSize : Str → Prog FileTree Nat := fetch cwd fun t q =>
  match t.get? q with
  | some (.file data _) => some data.length
  | _ => none

/-- `os.listdir` -/
def listdir : Str → Prog FileTree (List Str) := fetch cwd fun t q =>
  if t.isDir q then some (t.listdir q) else none

/-- A change at what the path leads to. -/
def updateAt (f : FileTree → Path → Option FileTree) (q : Path) : Prog FileTree Unit :=
  writes fun t =>
    match f t q with
    | some t' => .ok t'
    | none => .error (pathError q)

def update (f : FileTree → Path → Option FileTree) (p : Str) : Prog FileTree Unit := do
  let q ← reads fun t => resolve cwd t p
  updateAt f q

/-- `os.remove` -/
def remove : Str → Prog FileTree Unit := update cwd fun t q =>
  if t.isFile q then some (t.removeTree q) else none

/-- `shutil.rmtree`; the root of the filesystem cannot be removed. -/
def rmtree : Str → Prog FileTree Unit := update cwd fun t q =>
  if t.isDir q ∧ q ≠ [] then some (t.removeTree q) else none

/-- `os.path.isfile` of a path as it was typed: with a slash at its end it asks for a
    directory. -/
def isfileTyped (p : Str) : Prog FileTree Bool :=
  if p.getLast? = some '/' then return false else isfile cwd p

/-- The last component of a typed path is `.` or `..`. -/
def endsInDots (p : Str) : Bool :=
  (comps p).getLast? = some ['.'] ∨ (comps p).getLast? = some ['.', '.']

/-- A directory as it was typed can be emptied, but not removed: the root, and what a
    path that ends in `.` or `..` leads to. -/
def Stuck (p : Str) (q : Path) : Prop := q = [] ∨ endsInDots p = true

instance (p : Str) (q : Path) : Decidable (Stuck p q) := inferInstanceAs (Decidable (_ ∨ _))

/-- `shutil.rmtree` of a path as it was typed; what is below it goes first. -/
def rmtreeTyped (p : Str) : Prog FileTree Unit := do
  let q ← reads fun t => resolve cwd t p
  if Stuck p q then
    updateAt (fun t q => if t.isDir q then some (t.removeBelow q) else none) q
    throw .osError
  else
    updateAt (fun t q => if t.isDir q then some (t.removeTree q) else none) q

def put (e : Entry) (t : FileTree) (q : Path) : Option FileTree :=
  if h : t.Creatable q then some (t.insert q e h) else none

/-- `open(p, "wb").write(data)` -/
def writeFile (now : UInt64) (p : Str) (data : Bytes) : Prog FileTree Unit :=
  update cwd (put (.file data now)) p

def mkdirAt (now : UInt64) (t : FileTree) (q : Path) : Option FileTree :=
  if (t.get? q).isSome then none else put (.dir now) t q

/-- `os.mkdir` -/
def mkdir (now : UInt64) : Str → Prog FileTree Unit := update cwd (mkdirAt now)

/-- The recursion of `os.makedirs` with `exist_ok`, along the components from the
    last one; a directory made before a failure stays. -/
def makedirsAt (now : UInt64) : List Str → Prog FileTree Unit
  | [] => return ()
  | name :: head => do
      let above ← reads fun t => .ok (t.get? head.reverse).isSome
      when (!above) (makedirsAt now head)
      let isDirectory ← reads fun t => .ok (t.isDir (name :: head).reverse)
      when (!isDirectory) (updateAt (mkdirAt now) (name :: head).reverse)

/-- `os.makedirs(p, exist_ok=True)` -/
def makedirs (now : UInt64) (p : Str) : Prog FileTree Unit := do
  let q ← reads fun t => resolve cwd t p
  makedirsAt now q.reverse

/-- `os.walk(top)` for its files: each directory with the names of the files in it. -/
def walkFiles : Nat → Str → Prog FileTree (List (Str × List Str))
  | 0, _ => throw .diverges
  | fuel + 1, top => do
      let names ← listdir cwd top
      let dirs ← select (fun name => isdir cwd (join top name)) names
      let files ← select (fun name => do return ! (← isdir cwd (join top name))) names
      let rest ← collect (fun name => walkFiles fuel (join top name)) dirs
      return (top, files) :: rest.flatten

/-- More than the depth of the tree at `p`. -/
def depthBound (p : Str) : Prog FileTree Nat := reads fun t =>
  match resolve cwd t p with
  | .ok q => .ok ((t.below q).size + 2)
  | .error e => .error e

end Calls

/-- A test answers for every path. -/
theorem query_total (cwd p : Str) (f : FileTree → Path → Bool) (s : FileTree) :
    ∃ b, query cwd f p s = .ok b s := by
  cases hres : resolve cwd s p with
  | ok q => exact ⟨f s q, by simp [query, reads, hres]⟩
  | error e => exact ⟨false, by simp [query, reads, hres]⟩

theorem fetch_ok_iff {cwd : Str} {f : FileTree → Path → Option α} {p : Str} {s s' : FileTree}
    {a : α} :
    fetch cwd f p s = .ok a s' ↔ ∃ q, resolve cwd s p = .ok q ∧ f s q = some a ∧ s' = s := by
  unfold fetch reads
  cases hres : resolve cwd s p with
  | error e => simp [hres]
  | ok q =>
      cases hf : f s q with
      | none => simp [hres, hf]
      | some b => simp [hres, hf, eq_comm]

theorem update_ok_iff {cwd : Str} {f : FileTree → Path → Option FileTree} {p : Str}
    {s t : FileTree} :
    update cwd f p s = .ok () t ↔ ∃ q, resolve cwd s p = .ok q ∧ f s q = some t := by
  rw [update, bind_apply]
  cases hres : resolve cwd s p with
  | error e => simp [reads, hres]
  | ok q =>
      cases hf : f s q with
      | none => simp [reads, updateAt, writes, hres, hf]
      | some u => simp [reads, updateAt, writes, hres, hf]

/-- A call changes what its path leads to, or nothing. -/
theorem wp_update {cwd : Str} {f : FileTree → Path → Option FileTree} {p : Str} {s : FileTree}
    {Q : Unit → FileTree → Prop} {R : Exn → FileTree → Prop}
    (hQ : ∀ q t, resolve cwd s p = .ok q → f s q = some t → Q () t) (hR : ∀ e, R e s) :
    wp (update cwd f p) Q R s := by
  rw [update, wp_bind, wp_reads]
  refine ⟨fun q hq => ?_, fun e _ => hR e⟩
  rw [updateAt, wp_writes]
  constructor
  · intro t ht
    cases hf : f s q with
    | some t' =>
        simp only [hf, Except.ok.injEq] at ht
        subst ht
        exact hQ q t' hq hf
    | none => simp [hf] at ht
  · intro e _
    exact hR e

/-- The change a call makes where its path leads. -/
theorem of_update_ok {cwd : Str} {f : FileTree → Path → Option FileTree} {p : Str} {q : Path}
    {s t : FileTree} (hp : Spells p q) (h : update cwd f p s = .ok () t) : f s q = some t := by
  obtain ⟨q', hres, hf⟩ := update_ok_iff.mp h
  rw [resolve_of_spells cwd s hp, Except.ok.injEq] at hres
  rw [hres]
  exact hf

/-- The answer of a test. -/
theorem of_query_ok {cwd : Str} {f : FileTree → Path → Bool} {p : Str} {q : Path} {b : Bool}
    {s t : FileTree} (hp : Spells p q) (h : query cwd f p s = .ok b t) : f s q = b ∧ t = s := by
  simp only [query, reads, resolve_of_spells cwd s hp, EStateM.Result.ok.injEq] at h
  exact ⟨h.1, h.2.symm⟩

section Put

variable {q : Path} {now : UInt64} {s t : FileTree} {e : Entry}

theorem put_eq_some_iff :
    put e s q = some t ↔ ∃ h : s.Creatable q, t = s.insert q e h := by
  unfold put
  split
  · next hc =>
      rw [Option.some_inj]
      exact ⟨fun h => ⟨hc, h.symm⟩, fun ⟨_, h⟩ => h.symm⟩
  · next hc =>
      constructor
      · intro h
        cases h
      · rintro ⟨h, -⟩
        exact absurd h hc

/-- What is put at `q`, and that the rest stays. -/
theorem get?_of_put (h : put e s q = some t) (p : Path) :
    t.get? p = if p = q then some e else s.get? p := by
  obtain ⟨hc, rfl⟩ := put_eq_some_iff.mp h
  exact FileTree.get?_insert hc p

theorem isFile_of_put {data : Bytes} (h : put (.file data now) s q = some t) :
    t.isFile q = true := by
  rw [FileTree.isFile, get?_of_put h, if_pos rfl]

/-- What `mkdir` does where it succeeds. -/
theorem put_of_mkdirAt (h : mkdirAt now s q = some t) :
    s.get? q = none ∧ put (.dir now) s q = some t := by
  unfold mkdirAt at h
  split at h
  · cases h
  · next hnone => exact ⟨by simpa using hnone, h⟩

theorem isDir_of_mkdirAt (h : mkdirAt now s q = some t) : t.isDir q = true := by
  rw [FileTree.isDir, get?_of_put (put_of_mkdirAt h).2, if_pos rfl]

end Put

/-- `a <= b` of strings: by code points, from the left. -/
def strLe : Str → Str → Bool
  | [], _ => true
  | _ :: _, [] => false
  | a :: as, b :: bs => if a = b then strLe as bs else decide (a.toNat < b.toNat)

/-- `names.sort()` -/
def sortNames (names : List Str) : List Str := names.insertionSort fun a b => strLe a b = true

-- ============================================================================
-- What the calls raise
-- ============================================================================

/-- The exceptions of a failed call. -/
def FileError (e : Exn) : Prop := e = .osError ∨ e = .valueError ∨ e = .diverges

section Raises

variable {P : Exn → Prop} {cwd p : Str} {now : UInt64} (hP : ∀ e, FileError e → P e)
include hP

theorem pathError_of (q : Path) : P (pathError q) := by
  unfold pathError
  split
  · exact hP _ (Or.inr (Or.inl rfl))
  · exact hP _ (Or.inl rfl)

theorem walkFrom_error {t : FileTree} {cur : Path} {cs : List Str} {e : Exn}
    (h : walkFrom t cur cs = .error e) : P e := by
  induction cs generalizing cur with
  | nil => cases h
  | cons c cs ih =>
      rw [walkFrom] at h
      split at h
      · split at h
        · exact ih h
        · cases h
          exact hP _ (Or.inl rfl)
      · split at h
        · split at h
          · exact ih h
          · cases h
            exact hP _ (Or.inl rfl)
        · exact ih h

theorem error_of_resolve {t : FileTree} {e : Exn} (h : resolve cwd t p = .error e) : P e := by
  rw [resolve] at h
  split at h
  · cases h
    exact hP _ (Or.inl rfl)
  · exact walkFrom_error hP h

theorem raises_resolve : Raises P (reads fun t => resolve cwd t p) :=
  raises_reads fun _ _ h => error_of_resolve hP h

omit hP in
theorem raises_query {f : FileTree → Path → Bool} : Raises P (query cwd f p) := by
  refine raises_reads fun s e h => ?_
  split at h <;> cases h

theorem raises_fetch {f : FileTree → Path → Option α} : Raises P (fetch cwd f p) := by
  refine raises_reads fun s e h => ?_
  split at h
  · next e' he =>
      cases h
      exact error_of_resolve hP he
  · split at h
    · cases h
    · cases h
      exact pathError_of hP _

theorem raises_updateAt {f : FileTree → Path → Option FileTree} {q : Path} :
    Raises P (updateAt f q) := by
  refine raises_writes fun s e h => ?_
  split at h
  · cases h
  · cases h
    exact pathError_of hP _

theorem raises_update {f : FileTree → Path → Option FileTree} : Raises P (update cwd f p) :=
  raises_bind (raises_resolve hP) fun _ => raises_updateAt hP

theorem raises_makedirsAt {names : List Str} : Raises P (makedirsAt now names) := by
  induction names with
  | nil => exact raises_pure _
  | cons name head ih =>
      refine raises_bind (raises_reads fun _ _ h => by cases h) fun _ => ?_
      refine raises_bind (raises_when ih) fun _ => ?_
      exact raises_bind (raises_reads fun _ _ h => by cases h) fun _ =>
        raises_when (raises_updateAt hP)

theorem raises_makedirs : Raises P (makedirs cwd now p) :=
  raises_bind (raises_resolve hP) fun _ => raises_makedirsAt hP

theorem raises_walkFiles {fuel : Nat} {top : Str} : Raises P (walkFiles cwd fuel top) := by
  induction fuel generalizing top with
  | zero => exact raises_throw (hP _ (Or.inr (Or.inr rfl)))
  | succ fuel ih =>
      refine raises_bind (raises_fetch hP) fun _ => ?_
      refine raises_bind (raises_select fun _ => raises_query) fun _ => ?_
      refine raises_bind (raises_select fun _ =>
        raises_bind raises_query fun _ => raises_pure _) fun _ => ?_
      exact raises_bind (raises_collect fun _ => ih) fun _ => raises_pure _

theorem raises_depthBound : Raises P (depthBound cwd p) := by
  refine raises_reads fun s e h => ?_
  split at h
  · cases h
  · next e' he =>
      cases h
      exact error_of_resolve hP he

end Raises

-- ============================================================================
-- What the calls leave alone
-- ============================================================================

/-- The directory that holds `r` does not lie in it. -/
theorem not_prefix_dropLast {r : Path} (hr : r ≠ []) : ¬ r <+: r.dropLast := by
  intro h
  have hlen := h.length_le
  rw [List.length_dropLast] at hlen
  have := List.length_pos_of_ne_nil hr
  omega

theorem isDir_dropLast_of_outside {s t : FileTree} {r : Path}
    (h : ∀ p, ¬ r <+: p → t.get? p = s.get? p) (hs : s.isDir r.dropLast = true) :
    t.isDir r.dropLast = true := by
  by_cases hr : r = []
  · subst hr
    rfl
  · rw [FileTree.isDir, h _ (not_prefix_dropLast hr)]
    exact hs

/-- The directory that holds a path at or below `r`: at or below `r`, or the
    directory that holds `r`. -/
theorem prefix_dropLast_or {q r : Path} (h : r <+: q) :
    r <+: q.dropLast ∨ q.dropLast = r.dropLast := by
  rcases List.eq_nil_or_concat' q with rfl | ⟨ds, d, rfl⟩
  · exact Or.inl h
  · rw [List.dropLast_concat]
    rcases List.prefix_concat_iff.mp h with rfl | h
    · exact Or.inr List.dropLast_concat.symm
    · exact Or.inl h

/-- When `r` lies in a directory, nothing outside `r` changes. -/
def confined (r : Path) : Frame FileTree where
  rel s t := s.isDir r.dropLast = true → ∀ p, ¬ r <+: p → t.get? p = s.get? p
  refl _ _ _ _ := rfl
  trans h h' hs p hp := by
    rw [h' (isDir_dropLast_of_outside (h hs) hs) p hp, h hs p hp]

section Keeps

variable {F : Frame FileTree} {cwd : Str} {p : Str} {q r : Path} {now : UInt64}

theorem keeps_query (f : FileTree → Path → Bool) : Keeps F (query cwd f p) := keeps_reads _

theorem keeps_isfile : Keeps F (isfile cwd p) := keeps_query _

theorem keeps_isdir : Keeps F (isdir cwd p) := keeps_query _

theorem keeps_pathExists : Keeps F (pathExists cwd p) := keeps_query _

theorem keeps_readFile : Keeps F (readFile cwd p) := keeps_reads _

theorem keeps_getmtime : Keeps F (getmtime cwd p) := keeps_reads _

theorem keeps_fileSize : Keeps F (fileSize cwd p) := keeps_reads _

theorem keeps_listdir : Keeps F (listdir cwd p) := keeps_reads _

theorem keeps_walkFiles {fuel : Nat} {top : Str} : Keeps F (walkFiles cwd fuel top) := by
  induction fuel generalizing top with
  | zero => exact keeps_throw _
  | succ fuel ih =>
      refine keeps_bind keeps_listdir fun names => ?_
      refine keeps_bind (keeps_select fun _ _ => keeps_isdir) fun dirs => ?_
      refine keeps_bind (keeps_select fun _ _ =>
        keeps_bind keeps_isdir fun _ => keeps_pure _) fun files => ?_
      exact keeps_bind (keeps_collect fun _ _ => ih) fun rest => keeps_pure _

theorem keeps_updateAt {f : FileTree → Path → Option FileTree}
    (h : ∀ s t, f s q = some t → F.rel s t) : Keeps F (updateAt f q) := by
  refine keeps_writes fun s t hst => ?_
  split at hst
  · next t' ht' =>
      cases hst
      exact h s t ht'
  · cases hst

theorem keeps_update {f : FileTree → Path → Option FileTree} (hp : Spells p q)
    (h : ∀ s t, f s q = some t → F.rel s t) : Keeps F (update cwd f p) := by
  intro s
  have hres : reads (fun t => resolve cwd t p) s = .ok q s := by
    simp [reads, resolve_of_spells cwd s hp]
  rw [update, bind_of_ok hres]
  exact keeps_updateAt h s

theorem confined_removeTree {t : FileTree} (hr : r <+: q) (hq : q ≠ []) :
    (confined r).rel t (t.removeTree q) := by
  intro _ p hp
  rw [FileTree.get?_removeTree hq, if_neg fun hqp => hp (hr.trans hqp)]

theorem confined_put {s t : FileTree} {e : Entry} (hr : r <+: q) (h : put e s q = some t) :
    (confined r).rel s t := by
  intro _ p hp
  rw [get?_of_put h, if_neg]
  rintro rfl
  exact hp hr

theorem confined_mkdirAt {s t : FileTree} (hr : r <+: q) (h : mkdirAt now s q = some t) :
    (confined r).rel s t := by
  exact confined_put hr (put_of_mkdirAt h).2

theorem keeps_remove (hp : Spells p q) (hr : r <+: q) : Keeps (confined r) (remove cwd p) := by
  refine keeps_update hp fun s t h => ?_
  split at h
  · next hfile =>
      cases h
      refine confined_removeTree hr ?_
      rintro rfl
      cases hfile
  · cases h

theorem keeps_rmtree (hp : Spells p q) (hr : r <+: q) : Keeps (confined r) (rmtree cwd p) := by
  refine keeps_update hp fun s t h => ?_
  split at h
  · next hdir =>
      cases h
      exact confined_removeTree hr hdir.2
  · cases h

theorem keeps_writeFile {data : Bytes} (hp : Spells p q) (hr : r <+: q) :
    Keeps (confined r) (writeFile cwd now p data) :=
  keeps_update hp fun _ _ h => confined_put hr h

theorem keeps_mkdir (hp : Spells p q) (hr : r <+: q) : Keeps (confined r) (mkdir cwd now p) :=
  keeps_update hp fun _ _ h => confined_mkdirAt hr h

/-- Making the directories down to a path at or below `r` makes none above it. -/
theorem keeps_makedirsAt {names : List Str} (hr : r <+: names.reverse) :
    Keeps (confined r) (makedirsAt now names) := by
  induction names with
  | nil => exact keeps_pure _
  | cons name head ih =>
      have hmk : ∀ b : Bool, Keeps (confined r)
          (when (!b) (updateAt (mkdirAt now) (name :: head).reverse)) :=
        fun b => keeps_when fun _ => keeps_updateAt fun _ _ h => confined_mkdirAt hr h
      by_cases hhead : r <+: head.reverse
      · refine keeps_bind (keeps_reads _) fun above => ?_
        refine keeps_bind (keeps_when fun _ => ih hhead) fun _ => ?_
        exact keeps_bind (keeps_reads _) hmk
      · -- `r` itself: the directory that holds it is there
        have hdrop : r.dropLast = head.reverse := by
          rw [List.reverse_cons, List.prefix_concat_iff] at hr
          rw [hr.resolve_right hhead, List.dropLast_concat]
        intro s hs
        rw [hdrop] at hs
        have habove : reads (fun t => .ok (t.get? head.reverse).isSome) s = .ok true s := by
          obtain ⟨u, hu⟩ := FileTree.isDir_iff.mp hs
          simp [reads, hu]
        have hskip : when (!true) (makedirsAt now head) s = .ok () s := rfl
        rw [makedirsAt, bind_of_ok habove, bind_of_ok hskip]
        exact keeps_bind (keeps_reads _) hmk s (by rwa [hdrop])

theorem keeps_makedirs (hp : Spells p q) (hr : r <+: q) :
    Keeps (confined r) (makedirs cwd now p) := by
  intro s
  have hres : reads (fun t => resolve cwd t p) s = .ok q s := by
    simp [reads, resolve_of_spells cwd s hp]
  rw [makedirs, bind_of_ok hres]
  exact keeps_makedirsAt (by simpa using hr) s

/-- Making a directory that may be the one that holds `r`, unless it is there. -/
theorem keeps_makedirs_unless {f : FileTree → Path → Bool} (hp : Spells p q)
    (hr : r <+: q ∨ q = r.dropLast) (hf : ∀ t, t.isDir q = true → f t q = true) :
    Keeps (confined r) (query cwd f p >>= fun b => when (!b) (makedirs cwd now p)) := by
  rcases hr with hr | rfl
  · exact keeps_bind (keeps_query f) fun _ => keeps_when fun _ => keeps_makedirs hp hr
  · intro s hs
    have hq : query cwd f p s = .ok true s := by
      simp [query, reads, resolve_of_spells cwd s hp, hf s hs]
    rw [bind_of_ok hq]
    exact fun _ _ => rfl

end Keeps

-- ============================================================================
-- Entries that stay
-- ============================================================================

/-- Directories stay directories, and files stay files. -/
def kindsStay : Frame FileTree where
  rel s t := ∀ p, (s.isDir p = true → t.isDir p = true) ∧ (s.isFile p = true → t.isFile p = true)
  refl _ _ := ⟨fun h => h, fun h => h⟩
  trans h h' p := ⟨fun hp => (h' p).1 ((h p).1 hp), fun hp => (h' p).2 ((h p).2 hp)⟩

/-- A directory at `r` stays one. -/
def dirStays (r : Path) : Frame FileTree where
  rel s t := s.isDir r = true → t.isDir r = true
  refl _ h := h
  trans h h' hr := h' (h hr)

theorem dirStays_of_kindsStay {α : Type} {r : Path} {x : Prog FileTree α}
    (h : Keeps kindsStay x) : Keeps (dirStays r) x :=
  h.mono fun _ _ hrel => (hrel r).1

section Stays

variable {cwd p : Str} {q r : Path} {now : UInt64}

theorem kindsStay_put {s t : FileTree} {e : Entry} (h : put e s q = some t)
    (hfile : s.isFile q = true → t.isFile q = true) : kindsStay.rel s t := by
  intro p
  by_cases hp : p = q
  · subst hp
    refine ⟨fun hdir => ?_, hfile⟩
    rw [(put_eq_some_iff.mp h).1.2.2.1] at hdir
    cases hdir
  · have hsame : t.get? p = s.get? p := by rw [get?_of_put h, if_neg hp]
    have hdir : t.isDir p = s.isDir p := by rw [FileTree.isDir, FileTree.isDir, hsame]
    have hfile : t.isFile p = s.isFile p := by rw [FileTree.isFile, FileTree.isFile, hsame]
    rw [hdir, hfile]
    exact ⟨fun h => h, fun h => h⟩

theorem kindsStay_mkdirAt {s t : FileTree} (h : mkdirAt now s q = some t) :
    kindsStay.rel s t := by
  obtain ⟨hnone, hput⟩ := put_of_mkdirAt h
  refine kindsStay_put hput fun hfile => ?_
  rw [FileTree.isFile, hnone] at hfile
  cases hfile

theorem keeps_update_any {F : Frame FileTree} {f : FileTree → Path → Option FileTree}
    (h : ∀ s t q, f s q = some t → F.rel s t) : Keeps F (update cwd f p) :=
  keeps_bind (keeps_reads _) fun q => keeps_updateAt fun s t hf => h s t q hf

/-- An update changes what its normalised path names, or nothing. -/
theorem keeps_update_abspath {F : Frame FileTree} {f : FileTree → Path → Option FileTree}
    (hcwd : isabs cwd) (hplain : ∀ c ∈ comps cwd, Plain c)
    (h : ∀ s t, f s (comps (abspath cwd p)) = some t → F.rel s t) : Keeps F (update cwd f p) := by
  intro s
  refine final_of_wp (P := F.rel s) (wp_update (fun q t hq hf => ?_) fun _ => F.refl s)
  rw [eq_comps_abspath_of_resolve hcwd hplain hq] at hf
  exact h s t hf

theorem kindsStay_writeFile {data : Bytes} : Keeps kindsStay (writeFile cwd now p data) :=
  keeps_update_any fun _ _ _ h => kindsStay_put h fun _ => isFile_of_put h

theorem kindsStay_mkdir : Keeps kindsStay (mkdir cwd now p) :=
  keeps_update_any fun _ _ _ h => kindsStay_mkdirAt h

/-- What making one directory keeps, making several keeps. -/
theorem keeps_makedirs_of {F : Frame FileTree} (h : ∀ s t q, mkdirAt now s q = some t → F.rel s t) :
    Keeps F (makedirs cwd now p) := by
  have hat : ∀ names, Keeps F (makedirsAt now names) := by
    intro names
    induction names with
    | nil => exact keeps_pure _
    | cons name head ih =>
        refine keeps_bind (keeps_reads _) fun _ => keeps_bind (keeps_when fun _ => ih) fun _ => ?_
        exact keeps_bind (keeps_reads _) fun _ =>
          keeps_when fun _ => keeps_updateAt fun s t ht => h s t _ ht
  exact keeps_bind (keeps_reads _) fun _ => hat _

theorem kindsStay_makedirs : Keeps kindsStay (makedirs cwd now p) :=
  keeps_makedirs_of fun _ _ _ h => kindsStay_mkdirAt h

/-- Removing a tree that does not hold `r`. -/
theorem dirStays_removeTree {t : FileTree} (hq : q ≠ []) (hqr : ¬ q <+: r) :
    (dirStays r).rel t (t.removeTree q) := by
  intro hr
  rw [FileTree.isDir, FileTree.get?_removeTree hq, if_neg hqr]
  exact hr

theorem dirStays_remove (hp : Spells p q) (hqr : ¬ q <+: r) :
    Keeps (dirStays r) (remove cwd p) := by
  refine keeps_update hp fun s t h => ?_
  split at h
  · next hfile =>
      cases h
      refine dirStays_removeTree ?_ hqr
      rintro rfl
      cases hfile
  · cases h

theorem dirStays_rmtree (hp : Spells p q) (hqr : ¬ q <+: r) :
    Keeps (dirStays r) (rmtree cwd p) := by
  refine keeps_update hp fun s t h => ?_
  split at h
  · next hdir =>
      cases h
      exact dirStays_removeTree hdir.2 hqr
  · cases h

variable (hcwd : isabs cwd = true) (hplain : ∀ c ∈ comps cwd, Plain c)
include hcwd hplain

/-- What a test found at a path is where `abspath` says. -/
theorem of_query_true {f : FileTree → Path → Bool} {s s' : FileTree}
    (h : query cwd f p s = .ok true s') : resolve cwd s p = .ok (comps (abspath cwd p)) ∧
      f s (comps (abspath cwd p)) = true ∧ s' = s := by
  unfold query reads at h
  cases hres : resolve cwd s p with
  | error e => simp [hres] at h
  | ok q =>
      simp only [hres, EStateM.Result.ok.injEq] at h
      rw [← eq_comps_abspath_of_resolve hcwd hplain hres]
      exact ⟨rfl, h.1, h.2.symm⟩

end Stays

-- ============================================================================
-- Two trees that agree below a path
-- ============================================================================

/-- The trees agree at and below `r`, which lies in a directory in both. -/
structure Agree (r : Path) (s t : FileTree) : Prop where
  below : s.below r = t.below r
  left : s.isDir r.dropLast = true
  right : t.isDir r.dropLast = true

section Agree

variable {q r : Path}

theorem Agree.removeTree {s t : FileTree} (h : Agree r s t) (hr : r <+: q) (hq : q ≠ []) :
    Agree r (s.removeTree q) (t.removeTree q) where
  below := by rw [FileTree.below_removeTree, FileTree.below_removeTree, h.below]
  left := isDir_dropLast_of_outside (confined_removeTree hr hq h.left) h.left
  right := isDir_dropLast_of_outside (confined_removeTree hr hq h.right) h.right

/-- Whether an entry can be put at or below `r` is decided there. -/
theorem Agree.creatable {s t : FileTree} (h : Agree r s t) (hr : r <+: q)
    (hc : s.Creatable q) : t.Creatable q := by
  obtain ⟨hne, hparent, hdir, hnames⟩ := hc
  refine ⟨hne, ?_, ?_, hnames⟩
  · by_cases hrq : r <+: q.dropLast
    · rw [← FileTree.isDir_congr h.below hrq]
      exact hparent
    · have hqr : q = r := by
        obtain ⟨ds, d, rfl⟩ := (List.eq_nil_or_concat' q).resolve_left hne
        rw [List.dropLast_concat] at hrq
        exact ((List.prefix_concat_iff.mp hr).resolve_right hrq).symm
      rw [hqr]
      exact h.right
  · rw [← FileTree.isDir_congr h.below hr]
    exact hdir

theorem Agree.symm {s t : FileTree} (h : Agree r s t) : Agree r t s :=
  ⟨h.below.symm, h.right, h.left⟩

theorem Agree.put {s t : FileTree} (e : Entry) (h : Agree r s t) (hr : r <+: q) :
    (∃ s' t', put e s q = some s' ∧ put e t q = some t' ∧ Agree r s' t') ∨
      (put e s q = none ∧ put e t q = none) := by
  unfold Os.put
  by_cases hs : s.Creatable q
  · have ht := h.creatable hr hs
    rw [dif_pos hs, dif_pos ht]
    refine Or.inl ⟨_, _, rfl, rfl, ?_, ?_, ?_⟩
    · rw [FileTree.below_insert hs hr, FileTree.below_insert ht hr, h.below]
    · exact isDir_dropLast_of_outside
        (confined_put (e := e) hr (by rw [Os.put, dif_pos hs]) h.left) h.left
    · exact isDir_dropLast_of_outside
        (confined_put (e := e) hr (by rw [Os.put, dif_pos ht]) h.right) h.right
  · have ht : ¬ t.Creatable q := fun ht => hs (h.symm.creatable hr ht)
    exact Or.inr ⟨dif_neg hs, dif_neg ht⟩

end Agree

/-- A relation between trees that makes them agree below `r` and that the changes at and
    below `r` keep. -/
class Couples (r : Path) (E : FileTree → FileTree → Prop) : Prop where
  agree : ∀ {s t}, E s t → Agree r s t
  removeTree : ∀ {s t q}, E s t → r <+: q → q ≠ [] → E (s.removeTree q) (t.removeTree q)
  put : ∀ {s t s' t' q e}, E s t → r <+: q → Os.put e s q = some s' → Os.put e t q = some t' →
    E s' t'

instance (r : Path) : Couples r (Agree r) where
  agree h := h
  removeTree h := h.removeTree
  put h hr hs ht := by
    rcases h.put _ hr with ⟨s', t', hs', ht', hE⟩ | ⟨hnone, -⟩
    · rw [hs, Option.some_inj] at hs'
      rw [ht, Option.some_inj] at ht'
      rw [hs', ht']
      exact hE
    · rw [hs] at hnone
      cases hnone

section Coupled

variable {E : FileTree → FileTree → Prop} {cwd : Str} {p : Str} {q r : Path} {now : UInt64}
  [hE : Couples r E]

/-- Putting an entry at or below `r` succeeds on both sides or on none. -/
theorem Couples.put_both {s t : FileTree} (e : Entry) (h : E s t) (hr : r <+: q) :
    (∃ s' t', Os.put e s q = some s' ∧ Os.put e t q = some t' ∧ E s' t') ∨
      (Os.put e s q = none ∧ Os.put e t q = none) := by
  rcases (hE.agree h).put e hr with ⟨s', t', hs, ht, -⟩ | hnone
  · exact Or.inl ⟨s', t', hs, ht, hE.put h hr hs ht⟩
  · exact Or.inr hnone

theorem Couples.mkdir_both {s t : FileTree} (h : E s t) (hr : r <+: q) :
    (∃ s' t', mkdirAt now s q = some s' ∧ mkdirAt now t q = some t' ∧ E s' t') ∨
      (mkdirAt now s q = none ∧ mkdirAt now t q = none) := by
  unfold mkdirAt
  rw [FileTree.get?_congr (hE.agree h).below hr]
  split
  · exact Or.inr ⟨rfl, rfl⟩
  · exact Couples.put_both _ h hr

/-- A path that leads to the same place in both trees. -/
theorem coupled_query_of {f : FileTree → Path → Bool}
    (hres : ∀ s t, E s t → resolve cwd s p = .ok q ∧ resolve cwd t p = .ok q)
    (h : ∀ s t, E s t → f s q = f t q) : Coupled E (query cwd f p) (query cwd f p) := by
  refine coupled_reads fun s t hst => ?_
  simp only [(hres s t hst).1, (hres s t hst).2, h s t hst]

theorem coupled_fetch_of {f : FileTree → Path → Option α}
    (hres : ∀ s t, E s t → resolve cwd s p = .ok q ∧ resolve cwd t p = .ok q)
    (h : ∀ s t, E s t → f s q = f t q) : Coupled E (fetch cwd f p) (fetch cwd f p) := by
  refine coupled_reads fun s t hst => ?_
  simp only [(hres s t hst).1, (hres s t hst).2, h s t hst]

theorem coupled_query {f : FileTree → Path → Bool} (hp : Spells p q)
    (h : ∀ s t, E s t → f s q = f t q) : Coupled E (query cwd f p) (query cwd f p) :=
  coupled_query_of (fun s t _ => ⟨resolve_of_spells cwd s hp, resolve_of_spells cwd t hp⟩) h

theorem coupled_fetch {f : FileTree → Path → Option α} (hp : Spells p q)
    (h : ∀ s t, E s t → f s q = f t q) : Coupled E (fetch cwd f p) (fetch cwd f p) :=
  coupled_fetch_of (fun s t _ => ⟨resolve_of_spells cwd s hp, resolve_of_spells cwd t hp⟩) h

theorem coupled_isfile (hp : Spells p q) (hr : r <+: q) :
    Coupled E (isfile cwd p) (isfile cwd p) :=
  coupled_query hp fun _ _ h => FileTree.isFile_congr (hE.agree h).below hr

theorem coupled_isdir (hp : Spells p q) (hr : r <+: q) :
    Coupled E (isdir cwd p) (isdir cwd p) :=
  coupled_query hp fun _ _ h => FileTree.isDir_congr (hE.agree h).below hr

theorem isSome_get?_of_isDir {t : FileTree} (h : t.isDir q = true) : (t.get? q).isSome = true := by
  obtain ⟨u, hu⟩ := FileTree.isDir_iff.mp h
  simp [hu]

theorem coupled_readFile (hp : Spells p q) (hr : r <+: q) :
    Coupled E (readFile cwd p) (readFile cwd p) :=
  coupled_fetch hp fun _ _ h => by simp only [FileTree.get?_congr (hE.agree h).below hr]

theorem coupled_getmtime (hp : Spells p q) (hr : r <+: q) :
    Coupled E (getmtime cwd p) (getmtime cwd p) :=
  coupled_fetch hp fun _ _ h => by simp only [FileTree.get?_congr (hE.agree h).below hr]

theorem coupled_fileSize (hp : Spells p q) (hr : r <+: q) :
    Coupled E (fileSize cwd p) (fileSize cwd p) :=
  coupled_fetch hp fun _ _ h => by simp only [FileTree.get?_congr (hE.agree h).below hr]

theorem coupled_listdir (hp : Spells p q) (hr : r <+: q) :
    Coupled E (listdir cwd p) (listdir cwd p) :=
  coupled_fetch hp fun _ _ h => by
    simp only [FileTree.isDir_congr (hE.agree h).below hr, FileTree.listdir_congr (hE.agree h).below hr]

/-- A listed name is a plain component. -/
theorem plain_of_listdir {s s' : FileTree} {names : List Str}
    (h : listdir cwd p s = .ok names s') : ∀ name ∈ names, Plain name := by
  obtain ⟨q, -, hlist, -⟩ := fetch_ok_iff.mp h
  split at hlist
  · cases hlist
    exact FileTree.plain_of_mem_listdir
  · cases hlist

theorem coupled_walkFiles {fuel : Nat} {top : Str} (hp : Spells top q) (hr : r <+: q) :
    Coupled E (walkFiles cwd fuel top) (walkFiles cwd fuel top) := by
  induction fuel generalizing top q with
  | zero => exact coupled_throw _
  | succ fuel ih =>
      refine coupled_bind_of (fun names => ∀ name ∈ names, Plain name) (coupled_listdir hp hr)
        (fun _ _ _ h => plain_of_listdir h) fun names hnames => ?_
      have hchild : ∀ name ∈ names, Spells (join top name) (q ++ [name]) := fun name hname =>
        hp.spells_join_plain (hnames name hname)
      have hbelow : ∀ name : Str, r <+: q ++ [name] := fun name =>
        hr.trans (List.prefix_append _ _)
      refine coupled_bind_of (fun dirs => ∀ name ∈ dirs, name ∈ names)
        (coupled_select fun name hname => coupled_isdir (hchild name hname) (hbelow name))
        (fun _ _ _ h => mem_of_mem_select h) fun dirs hdirs => ?_
      refine coupled_bind (coupled_select fun name hname =>
        coupled_bind (coupled_isdir (hchild name hname) (hbelow name)) fun _ =>
          coupled_pure _) fun files => ?_
      exact coupled_bind (coupled_collect fun name hname =>
        ih (hchild name (hdirs name hname)) (hbelow name)) fun rest => coupled_pure _

/-- What `os.walk` gives: directories at or below the top, with names of entries. -/
theorem spells_of_walkFiles {fuel : Nat} {top : Str} {dirs : List (Str × List Str)}
    {s s' : FileTree} (hp : Spells top q) (h : walkFiles cwd fuel top s = .ok dirs s') :
    ∀ d ∈ dirs, ∃ q', q <+: q' ∧ Spells d.1 q' ∧ ∀ name ∈ d.2, Plain name := by
  induction fuel generalizing top q dirs s s' with
  | zero => cases h
  | succ fuel ih =>
      obtain ⟨names, _, hnames, h⟩ := bind_ok_iff.mp h
      obtain ⟨subdirs, _, hsubdirs, h⟩ := bind_ok_iff.mp h
      obtain ⟨files, _, hfiles, h⟩ := bind_ok_iff.mp h
      obtain ⟨rest, _, hrest, h⟩ := bind_ok_iff.mp h
      cases h
      have hplain := plain_of_listdir hnames
      intro d hd
      rcases List.mem_cons.mp hd with rfl | hd
      · exact ⟨q, List.prefix_rfl, hp, fun name hname =>
          hplain name (mem_of_mem_select hfiles name hname)⟩
      · obtain ⟨ds, hds, hd⟩ := List.mem_flatten.mp hd
        obtain ⟨name, hname, t, t', hwalk⟩ := mem_of_mem_collect hrest ds hds
        have hchild := hp.spells_join_plain (hplain name (mem_of_mem_select hsubdirs name hname))
        obtain ⟨q', hq', hspells⟩ := ih hchild hwalk d hd
        exact ⟨q', (List.prefix_append _ _).trans hq', hspells⟩

theorem coupled_depthBound (hp : Spells p q) (hr : r <+: q) :
    Coupled E (depthBound cwd p) (depthBound cwd p) := by
  refine coupled_reads fun s t hst => ?_
  simp only [resolve_of_spells cwd _ hp, FileTree.below_congr (hE.agree hst).below hr]

/-- Changes at one place that answer the same on both sides and keep the
    agreement. -/
theorem coupled_updateAt {f : FileTree → Path → Option FileTree}
    (h : ∀ s t, E s t → (∃ s' t', f s q = some s' ∧ f t q = some t' ∧ E s' t') ∨
      (f s q = none ∧ f t q = none)) :
    Coupled E (updateAt f q) (updateAt f q) := by
  refine coupled_writes fun s t hst => ?_
  rcases h s t hst with ⟨s', t', hs, ht, hE⟩ | ⟨hs, ht⟩
  · exact Or.inl ⟨s', t', by rw [hs], by rw [ht], hE⟩
  · exact Or.inr ⟨pathError q, by rw [hs], by rw [ht]⟩

theorem coupled_update_of {f : FileTree → Path → Option FileTree}
    (hres : ∀ s t, E s t → resolve cwd s p = .ok q ∧ resolve cwd t p = .ok q)
    (h : ∀ s t, E s t → (∃ s' t', f s q = some s' ∧ f t q = some t' ∧ E s' t') ∨
      (f s q = none ∧ f t q = none)) : Coupled E (update cwd f p) (update cwd f p) := by
  intro s t hst
  obtain ⟨hs, ht⟩ := hres s t hst
  have hread : ∀ u, resolve cwd u p = .ok q → reads (fun t => resolve cwd t p) u = .ok q u :=
    fun u hu => by simp only [reads, hu]
  rw [update, bind_of_ok (hread s hs), bind_of_ok (hread t ht)]
  exact coupled_updateAt h s t hst

theorem coupled_update {f : FileTree → Path → Option FileTree} (hp : Spells p q)
    (h : ∀ s t, E s t → (∃ s' t', f s q = some s' ∧ f t q = some t' ∧ E s' t') ∨
      (f s q = none ∧ f t q = none)) : Coupled E (update cwd f p) (update cwd f p) :=
  coupled_update_of (fun s t _ => ⟨resolve_of_spells cwd s hp, resolve_of_spells cwd t hp⟩) h

theorem coupled_remove (hp : Spells p q) (hr : r <+: q) :
    Coupled E (remove cwd p) (remove cwd p) := by
  refine coupled_update hp fun s t h => ?_
  rw [FileTree.isFile_congr (hE.agree h).below hr]
  split
  · next hfile =>
      have hq : q ≠ [] := by
        rintro rfl
        cases hfile
      exact Or.inl ⟨_, _, rfl, rfl, hE.removeTree h hr hq⟩
  · exact Or.inr ⟨rfl, rfl⟩

theorem coupled_rmtree (hp : Spells p q) (hr : r <+: q) :
    Coupled E (rmtree cwd p) (rmtree cwd p) := by
  refine coupled_update hp fun s t h => ?_
  rw [FileTree.isDir_congr (hE.agree h).below hr]
  split
  · next hdir => exact Or.inl ⟨_, _, rfl, rfl, hE.removeTree h hr hdir.2⟩
  · exact Or.inr ⟨rfl, rfl⟩

theorem coupled_writeFile {data : Bytes} (hp : Spells p q) (hr : r <+: q) :
    Coupled E (writeFile cwd now p data) (writeFile cwd now p data) :=
  coupled_update hp fun _ _ h => Couples.put_both _ h hr

theorem coupled_mkdir (hp : Spells p q) (hr : r <+: q) :
    Coupled E (mkdir cwd now p) (mkdir cwd now p) :=
  coupled_update hp fun _ _ h => Couples.mkdir_both h hr

theorem coupled_makedirsAt {names : List Str} (hr : r <+: names.reverse) :
    Coupled E (makedirsAt now names) (makedirsAt now names) := by
  induction names with
  | nil => exact coupled_pure _
  | cons name head ih =>
      have hmk : ∀ b : Bool, Coupled E
          (when (!b) (updateAt (Os.mkdirAt now) (name :: head).reverse))
          (when (!b) (updateAt (Os.mkdirAt now) (name :: head).reverse)) :=
        fun b => coupled_when fun _ => coupled_updateAt fun _ _ h => Couples.mkdir_both h hr
      have hdir : Coupled E (reads fun t => .ok (t.isDir (name :: head).reverse))
          (reads fun t => .ok (t.isDir (name :: head).reverse)) :=
        coupled_reads fun _ _ h => by rw [FileTree.isDir_congr (hE.agree h).below hr]
      by_cases hhead : r <+: head.reverse
      · refine coupled_bind (coupled_reads fun s t h => ?_) fun above => ?_
        · rw [FileTree.get?_congr (hE.agree h).below hhead]
        · exact coupled_bind (coupled_when fun _ => ih hhead) fun _ => coupled_bind hdir hmk
      · -- `r` itself: the directory that holds it is there in both
        have hdrop : r.dropLast = head.reverse := by
          rw [List.reverse_cons, List.prefix_concat_iff] at hr
          rw [hr.resolve_right hhead, List.dropLast_concat]
        intro s t h
        have habove : ∀ u : FileTree, u.isDir r.dropLast = true →
            reads (fun t => .ok (t.get? head.reverse).isSome) u = .ok true u := fun u hu => by
          rw [hdrop] at hu
          simp [reads, isSome_get?_of_isDir hu]
        have hskip : ∀ u, when (!true) (makedirsAt now head) u = .ok () u := fun _ => rfl
        rw [makedirsAt, bind_of_ok (habove s (hE.agree h).left), bind_of_ok (habove t (hE.agree h).right),
          bind_of_ok (hskip s), bind_of_ok (hskip t)]
        exact coupled_bind hdir hmk s t h

theorem coupled_makedirs (hp : Spells p q) (hr : r <+: q) :
    Coupled E (makedirs cwd now p) (makedirs cwd now p) := by
  intro s t h
  have hres : ∀ u, reads (fun t => resolve cwd t p) u = .ok q u := fun u => by
    simp [reads, resolve_of_spells cwd u hp]
  rw [makedirs, bind_of_ok (hres s), bind_of_ok (hres t)]
  exact coupled_makedirsAt (by simpa using hr) s t h

theorem coupled_makedirs_unless {f : FileTree → Path → Bool} (hp : Spells p q)
    (hr : r <+: q ∨ q = r.dropLast) (hf : ∀ t, t.isDir q = true → f t q = true)
    (hcongr : r <+: q → ∀ s t, E s t → f s q = f t q) :
    Coupled E (query cwd f p >>= fun b => when (!b) (makedirs cwd now p))
      (query cwd f p >>= fun b => when (!b) (makedirs cwd now p)) := by
  rcases hr with hr | rfl
  · exact coupled_bind (coupled_query hp (hcongr hr)) fun _ =>
      coupled_when fun _ => coupled_makedirs hp hr
  · intro s t h
    have hq : ∀ u : FileTree, u.isDir r.dropLast = true → query cwd f p u = .ok true u :=
      fun u hu => by simp [query, reads, resolve_of_spells cwd u hp, hf u hu]
    rw [bind_of_ok (hq s (hE.agree h).left), bind_of_ok (hq t (hE.agree h).right)]
    exact ⟨rfl, h⟩

end Coupled

end Os
end Py
end NetworkingFinal
