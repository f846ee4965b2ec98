/-
  NetworkingFinal.Lib.Progress

  What a system can still come to: `CanReach step C P s` says that some run from `s`,
  all of whose steps meet `C`, ends in `P`.

  The progress rule (`canReach_of_measure`): when every state with the invariant leads to
  the goal, or back to the invariant with less of a measure, it leads to the goal.
-/
import NetworkingFinal.Lib.Runs

namespace NetworkingFinal
namespace Lib

variable {σ ε : Type} {step : σ → ε → Option σ} {C : σ → ε → Prop} {P Q : σ → Prop} {s t : σ}

/-- A run whose steps meet `C` leads from `s` into `P`. -/
def CanReach (step : σ → ε → Option σ) (C : σ → ε → Prop) (P : σ → Prop) (s : σ) : Prop :=
  ∃ es t, AllSteps step C s es ∧ exec step s es = some t ∧ P t

theorem canReach_here (h : P s) : CanReach step C P s := ⟨[], s, allSteps_nil, rfl, h⟩

theorem canReach_step {e : ε} (hC : C s e) (hstep : step s e = some t)
    (h : CanReach step C P t) : CanReach step C P s := by
  obtain ⟨es, u, hes, hexec, hu⟩ := h
  refine ⟨e :: es, u, allSteps_cons hC fun t' ht' => ?_, exec_cons_iff.mpr ⟨t, hstep, hexec⟩, hu⟩
  rw [hstep, Option.some_inj] at ht'
  exact ht' ▸ hes

theorem CanReach.trans (h : CanReach step C P s) (hP : ∀ t, P t → CanReach step C Q t) :
    CanReach step C Q s := by
  obtain ⟨es, t, hes, hexec, ht⟩ := h
  induction es generalizing s with
  | nil =>
      rw [exec_nil, Option.some_inj] at hexec
      exact hexec ▸ hP t ht
  | cons e es ih =>
      obtain ⟨he, hrest⟩ := allSteps_cons_iff.mp hes
      obtain ⟨u, hu, hut⟩ := exec_cons_iff.mp hexec
      exact canReach_step he hu (ih (hrest u hu) hut)

/-- The progress rule. -/
theorem canReach_of_measure {I : σ → Prop} (m : σ → Nat)
    (h : ∀ s, I s → CanReach step C (fun t => P t ∨ I t ∧ m t < m s) s) (hs : I s) :
    CanReach step C P s := by
  induction hm : m s using Nat.strongRecOn generalizing s with
  | ind n ih =>
      refine (h s hs).trans fun t ht => ?_
      rcases ht with hP | ⟨hI, hless⟩
      · exact canReach_here hP
      · exact ih (m t) (hm ▸ hless) hI rfl

end Lib
end NetworkingFinal
