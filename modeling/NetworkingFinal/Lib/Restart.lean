/-
  NetworkingFinal.Lib.Restart

  Runs of a system that may end and be started again between its steps.

  A restart takes the state to what a new process makes of what the old one left
  behind.  When restarts do not change a view of the state, the view after a run is
  that of its events alone (`exec_life_refines`).  What it leaves in a file goes through
  a `Format`.
-/
import Mathlib.Logic.Equiv.List
import NetworkingFinal.Lib.Runs

namespace NetworkingFinal
namespace Lib

/-- How a process writes a value to a file, and the next one reads it; reading back what was
    written loses nothing. -/
structure Format (δ τ : Type) where
  write : δ → τ
  read : τ → Option δ
  read_write : ∀ d, read (write d) = some d

/-- The format that writes one value as the text, and every other one as its number of
    blanks. -/
def Format.ofText {δ β : Type} [DecidableEq δ] [Encodable δ] [DecidableEq β] (d₀ : δ)
    (text : List β) (blank : β) (h : blank ∉ text) : Format δ (List β) where
  write d := if d = d₀ then text else List.replicate (Encodable.encode d + 1) blank
  read content := if content = text then some d₀ else Encodable.decode (content.length - 1)
  read_write d := by
    by_cases hd : d = d₀
    · rw [if_pos hd, if_pos rfl, hd]
    · have hblank : List.replicate (Encodable.encode d + 1) blank ≠ text := by
        rintro rfl
        exact h (List.mem_replicate.mpr ⟨Nat.succ_ne_zero _, rfl⟩)
      rw [if_neg hd, if_neg hblank, List.length_replicate, Nat.add_sub_cancel, Encodable.encodek]

/-- What can happen to a process that is started again when it has ended: a step, or a
    restart, which may find its surroundings as `r` says. -/
inductive Life (ε ρ : Type) where
  | event (e : ε)
  | restart (r : ρ)

variable {σ ε ρ α ω : Type}

/-- The steps of a system together with its restarts. -/
def life (step : σ → ε → Option σ) (restart : ρ → σ → σ) (s : σ) : Life ε ρ → Option σ
  | .event e => step s e
  | .restart r => some (restart r s)

/-- What happened besides the restarts. -/
def Life.events : List (Life ε ρ) → List ε
  | [] => []
  | .event e :: ls => e :: Life.events ls
  | .restart _ :: ls => Life.events ls

/-- A condition on steps, and none on restarts. -/
def Life.Meets (C : σ → ε → Prop) (s : σ) : Life ε ρ → Prop
  | .event e => C s e
  | .restart _ => True

instance Life.decidableMeets {C : σ → ε → Prop} [∀ s e, Decidable (C s e)] (s : σ) :
    (l : Life ε ρ) → Decidable (l.Meets C s)
  | .event e => inferInstanceAs (Decidable (C s e))
  | .restart _ => isTrue trivial

/-- What is observed of the steps; nothing is of restarts. -/
def Life.seen (obs : σ → ε → List ω) (s : σ) : Life ε ρ → List ω
  | .event e => obs s e
  | .restart _ => []

section NoRestart

variable {step : σ → ε → Option σ} {restart : ρ → σ → σ}

/-- Without restarts the conditions are those of the run. -/
theorem AllSteps.map_event {C : σ → ε → Prop} {s : σ} {es : List ε} (h : AllSteps step C s es) :
    AllSteps (life step restart) (Life.Meets C) s (es.map .event) := by
  induction es generalizing s with
  | nil => exact allSteps_nil
  | cons e es ih =>
      obtain ⟨he, hes⟩ := allSteps_cons_iff.mp h
      exact allSteps_cons he fun t ht => ih (hes t ht)

end NoRestart

theorem events_append (ls ls' : List (Life ε ρ)) :
    Life.events (ls ++ ls') = Life.events ls ++ Life.events ls' := by
  induction ls with
  | nil => rfl
  | cons l ls ih =>
      cases l with
      | event e => rw [List.cons_append, Life.events, ih, Life.events, List.cons_append]
      | restart r => rw [List.cons_append, Life.events, ih, Life.events]

/-- The run rule for a view that every step changes as `turn` says, and no restart. -/
theorem exec_life_refines {step : σ → ε → Option σ} {restart : ρ → σ → σ} {I : σ → Prop}
    {turn : α → ε → α} (view : σ → α)
    (hstep : ∀ s e t, I s → step s e = some t → I t ∧ view t = turn (view s) e)
    (hrestart : ∀ r s, I s → I (restart r s) ∧ view (restart r s) = view s)
    {s t : σ} {ls : List (Life ε ρ)} (hs : I s) (h : exec (life step restart) s ls = some t) :
    I t ∧ view t = (Life.events ls).foldl turn (view s) := by
  refine exec_history (fun ls t => I t ∧ view t = (Life.events ls).foldl turn (view s))
    ⟨hs, rfl⟩ (fun ls t l u _ ht hu => ?_) h
  rw [events_append, List.foldl_append, ← ht.2]
  cases l with
  | event e => exact hstep t e u ht.1 hu
  | restart r =>
      cases hu
      exact hrestart r t ht.1

end Lib
end NetworkingFinal
