/-
  NetworkingFinal.Lib.Store

  Values at the places of a tree, under changes that each replace what lies at and
  below one place.

  - `putAll`: the value at a place after a log of changes.
  - `putAll_eq_last`: it is what the last change that covers the place put there.
  - `exec_refines`: a system whose steps change its view as their observations say
    has, after a run, the view that the observed log leaves.
-/
import NetworkingFinal.Lib.Runs

namespace NetworkingFinal
namespace Lib

-- ============================================================================
-- Changes
-- ============================================================================

/-- What lies at and below `place` is replaced by `content`. -/
structure Change (κ β : Type) where
  place : List κ
  content : List κ → Option β

section Changes

variable {κ β : Type} [DecidableEq κ]

/-- The value at `p` after a change of the value `old`. -/
def Change.put (p : List κ) (old : Option β) (c : Change κ β) : Option β :=
  if c.place <+: p then c.content p else old

/-- The value at `p` after a log of changes. -/
def putAll (p : List κ) (old : Option β) (log : List (Change κ β)) : Option β :=
  log.foldl (Change.put p) old

@[simp] theorem putAll_nil (p : List κ) (old : Option β) : putAll p old [] = old := rfl

theorem putAll_singleton (p : List κ) (old : Option β) (c : Change κ β) :
    putAll p old [c] = if c.place <+: p then c.content p else old := rfl

theorem putAll_append (p : List κ) (old : Option β) (log log' : List (Change κ β)) :
    putAll p old (log ++ log') = putAll p (putAll p old log) log' := by
  rw [putAll, putAll, putAll, List.foldl_append]

/-- Changes elsewhere leave the value alone. -/
theorem putAll_of_uncovered {p : List κ} {old : Option β} {log : List (Change κ β)}
    (h : ∀ c ∈ log, ¬ c.place <+: p) : putAll p old log = old := by
  induction log generalizing old with
  | nil => rfl
  | cons c log ih =>
      have hc : Change.put p old c = old := if_neg (h c List.mem_cons_self)
      rw [putAll, List.foldl_cons, hc]
      exact ih fun d hd => h d (List.mem_cons_of_mem _ hd)

/-- The last change that covers the place decides. -/
theorem putAll_eq_last {p : List κ} {old : Option β} {log post : List (Change κ β)}
    {c : Change κ β} (hc : c.place <+: p) (hpost : ∀ d ∈ post, ¬ d.place <+: p) :
    putAll p old (log ++ c :: post) = c.content p := by
  have hlast : Change.put p (putAll p old log) c = c.content p := if_pos hc
  rw [putAll_append, putAll, List.foldl_cons, hlast]
  exact putAll_of_uncovered hpost

end Changes

-- ============================================================================
-- Refinement
-- ============================================================================

/-- When every step that ends in `P` came from a state in `P` and changes the view by what
    is observed of it, a run that ends in `P` changes the view by what is observed of
    the run. -/
theorem exec_refines {σ ε α ω : Type} {step : σ → ε → Option σ} {obs : σ → ε → List ω}
    {change : α → ω → α} {P : σ → Prop} (view : σ → α)
    (hstep : ∀ s e t, step s e = some t → P t → P s ∧ view t = (obs s e).foldl change (view s))
    {s t : σ} {es : List ε} (h : exec step s es = some t) (hP : P t) :
    view t = (observed step obs s es).foldl change (view s) := by
  induction es using List.reverseRecOn generalizing t with
  | nil =>
      rw [exec_nil, Option.some_inj] at h
      rw [h, observed, List.foldl_nil]
  | append_singleton es e ih =>
      obtain ⟨u, hsu, hut⟩ := exec_concat_iff.mp h
      obtain ⟨hPu, hview⟩ := hstep u e t hut hP
      rw [observed_concat hsu, List.foldl_append, ← ih hsu hPu, hview]

/-- When every step that meets `C` changes the view by what is observed of it, a run of such
    steps changes the view by what is observed of the run. -/
theorem exec_refines_of {σ ε α ω : Type} {step : σ → ε → Option σ} {obs : σ → ε → List ω}
    {change : α → ω → α} {C : σ → ε → Prop} (view : σ → α)
    (hstep : ∀ s e t, C s e → step s e = some t → view t = (obs s e).foldl change (view s))
    {s t : σ} {es : List ε} (hC : AllSteps step C s es) (h : exec step s es = some t) :
    view t = (observed step obs s es).foldl change (view s) := by
  induction es using List.reverseRecOn generalizing t with
  | nil =>
      rw [exec_nil, Option.some_inj] at h
      rw [h, observed, List.foldl_nil]
  | append_singleton es e ih =>
      obtain ⟨u, hsu, hut⟩ := exec_concat_iff.mp h
      rw [observed_concat hsu, List.foldl_append, ← ih hC.of_concat hsu,
        hstep u e t (hC.last hsu) hut]

end Lib
end NetworkingFinal
