/-
  NetworkingFinal.Lib.Runs

  Runs of a system that takes events: `step s e` is the state after the event
  `e`, or `none` when `e` cannot happen in `s`.

  The run rules: what every step keeps holds after every run, also when it speaks
  about the events so far, and also when only steps that meet a condition are
  looked at.
-/
import Mathlib.Data.List.Induction

namespace NetworkingFinal
namespace Lib

variable {σ ε : Type} (step : σ → ε → Option σ)

/-- The state after a sequence of events. -/
def exec (s : σ) : List ε → Option σ
  | [] => some s
  | e :: es => (step s e).bind fun t => exec t es

variable {step}

@[simp] theorem exec_nil (s : σ) : exec step s [] = some s := rfl

theorem exec_cons_iff {s u : σ} {e : ε} {es : List ε} :
    exec step s (e :: es) = some u ↔ ∃ t, step s e = some t ∧ exec step t es = some u := by
  rw [exec, Option.bind_eq_some_iff]

theorem exec_append_iff {s u : σ} {es fs : List ε} :
    exec step s (es ++ fs) = some u ↔
      ∃ t, exec step s es = some t ∧ exec step t fs = some u := by
  induction es generalizing s with
  | nil => simp
  | cons e es ih =>
      rw [List.cons_append, exec_cons_iff]
      constructor
      · rintro ⟨t, hst, htu⟩
        obtain ⟨v, htv, hvu⟩ := ih.mp htu
        exact ⟨v, exec_cons_iff.mpr ⟨t, hst, htv⟩, hvu⟩
      · rintro ⟨v, hsv, hvu⟩
        obtain ⟨t, hst, htv⟩ := exec_cons_iff.mp hsv
        exact ⟨t, hst, ih.mpr ⟨v, htv, hvu⟩⟩

/-- The last step of a run. -/
theorem exec_concat_iff {s u : σ} {es : List ε} {e : ε} :
    exec step s (es ++ [e]) = some u ↔
      ∃ t, exec step s es = some t ∧ step t e = some u := by
  simp only [exec_append_iff, exec_cons_iff, exec_nil, Option.some_inj]
  constructor
  · rintro ⟨t, hst, v, htv, rfl⟩
    exact ⟨t, hst, htv⟩
  · rintro ⟨t, hst, htu⟩
    exact ⟨t, hst, u, htu, rfl⟩

/-- The run rule for a property of the state and the events that led to it. -/
theorem exec_history {s t : σ} {es : List ε} (I : List ε → σ → Prop) (hinit : I [] s)
    (hstep : ∀ es t e u, exec step s es = some t → I es t → step t e = some u →
      I (es ++ [e]) u) (h : exec step s es = some t) : I es t := by
  induction es using List.reverseRecOn generalizing t with
  | nil =>
      rw [exec_nil, Option.some_inj] at h
      exact h ▸ hinit
  | append_singleton es e ih =>
      obtain ⟨u, hsu, hut⟩ := exec_concat_iff.mp h
      exact hstep es u e t hsu (ih hsu) hut

/-- The run rule for an invariant. -/
theorem exec_invariant {s t : σ} {es : List ε} (I : σ → Prop) (hinit : I s)
    (hstep : ∀ t e u, I t → step t e = some u → I u) (h : exec step s es = some t) : I t :=
  exec_history (fun _ => I) hinit (fun _ t e u _ => hstep t e u) h

/-- What an observer of the steps collects along a run. -/
def observed {ω : Type} (step : σ → ε → Option σ) (obs : σ → ε → List ω) (s : σ) :
    List ε → List ω
  | [] => []
  | e :: es => obs s e ++ match step s e with
      | some t => observed step obs t es
      | none => []

theorem observed_append {ω : Type} {obs : σ → ε → List ω} {s t : σ} {es : List ε}
    (h : exec step s es = some t) (fs : List ε) :
    observed step obs s (es ++ fs) = observed step obs s es ++ observed step obs t fs := by
  induction es generalizing s with
  | nil =>
      rw [exec_nil, Option.some_inj] at h
      rw [h, List.nil_append, observed, List.nil_append]
  | cons e es ih =>
      obtain ⟨u, hu, hut⟩ := exec_cons_iff.mp h
      simp only [List.cons_append, observed, hu]
      rw [ih hut, List.append_assoc]

/-- The observation of the last step comes last. -/
theorem observed_concat {ω : Type} {obs : σ → ε → List ω} {s t : σ} {es : List ε}
    (h : exec step s es = some t) (e : ε) :
    observed step obs s (es ++ [e]) = observed step obs s es ++ obs t e := by
  rw [observed_append h, observed]
  split <;> simp [observed]

/-- Every step of the run from `s` meets the condition `C`. -/
def AllSteps (step : σ → ε → Option σ) (C : σ → ε → Prop) (s : σ) (es : List ε) : Prop :=
  ∀ es₁ e es₂ t, es = es₁ ++ e :: es₂ → exec step s es₁ = some t → C t e

theorem allSteps_nil {C : σ → ε → Prop} {s : σ} : AllSteps step C s [] := by
  intro es₁ e es₂ t hes _
  have hlen := congrArg List.length hes
  simp at hlen

/-- The first step of a run meets the condition, and so do the others. -/
theorem allSteps_cons {C : σ → ε → Prop} {s : σ} {e : ε} {es : List ε} (he : C s e)
    (hes : ∀ t, step s e = some t → AllSteps step C t es) : AllSteps step C s (e :: es) := by
  intro es₁ e' es₂ u heq hu
  cases es₁ with
  | nil =>
      rw [exec_nil, Option.some_inj] at hu
      rw [List.nil_append, List.cons.injEq] at heq
      rw [← hu, ← heq.1]
      exact he
  | cons x es₁ =>
      rw [List.cons_append, List.cons.injEq] at heq
      obtain ⟨t, ht, htu⟩ := exec_cons_iff.mp hu
      exact hes t (heq.1 ▸ ht) es₁ e' es₂ u heq.2 htu

theorem allSteps_cons_iff {C : σ → ε → Prop} {s : σ} {e : ε} {es : List ε} :
    AllSteps step C s (e :: es) ↔ C s e ∧ ∀ t, step s e = some t → AllSteps step C t es := by
  constructor
  · intro h
    refine ⟨h [] e es s rfl rfl, fun t ht es₁ e' es₂ u hes hu => ?_⟩
    exact h (e :: es₁) e' es₂ u (by rw [hes, List.cons_append]) (exec_cons_iff.mpr ⟨t, ht, hu⟩)
  · rintro ⟨he, hes⟩
    exact allSteps_cons he hes

/-- Running the events tells whether every step meets a decidable condition. -/
instance decidableAllSteps {C : σ → ε → Prop} [∀ s e, Decidable (C s e)] (s : σ) :
    (es : List ε) → Decidable (AllSteps step C s es)
  | [] => isTrue allSteps_nil
  | e :: es =>
      match hst : step s e with
      | none => decidable_of_iff (C s e) <| by
          rw [allSteps_cons_iff]
          exact ⟨fun he => ⟨he, fun t ht => by rw [hst] at ht; cases ht⟩, fun h => h.1⟩
      | some t =>
          have := decidableAllSteps (C := C) t es
          decidable_of_iff (C s e ∧ AllSteps step C t es) <| by
            rw [allSteps_cons_iff]
            exact ⟨fun h => ⟨h.1, fun u hu => Option.some.inj (hst.symm.trans hu) ▸ h.2⟩,
              fun h => ⟨h.1, h.2 t hst⟩⟩

theorem AllSteps.of_concat {C : σ → ε → Prop} {s : σ} {es : List ε} {e : ε}
    (h : AllSteps step C s (es ++ [e])) : AllSteps step C s es := by
  intro es₁ e' es₂ t hes ht
  exact h es₁ e' (es₂ ++ [e]) t (by simp [hes]) ht

theorem AllSteps.last {C : σ → ε → Prop} {s t : σ} {es : List ε} {e : ε}
    (h : AllSteps step C s (es ++ [e])) (ht : exec step s es = some t) : C t e :=
  h es e [] t rfl ht

theorem AllSteps.concat {C : σ → ε → Prop} {s t : σ} {es : List ε} {e : ε}
    (h : AllSteps step C s es) (ht : exec step s es = some t) (he : C t e) :
    AllSteps step C s (es ++ [e]) := by
  induction es generalizing s with
  | nil =>
      rw [exec_nil, Option.some_inj] at ht
      exact allSteps_cons (ht ▸ he) fun _ _ => allSteps_nil
  | cons e' es ih =>
      obtain ⟨u, hu, hut⟩ := exec_cons_iff.mp ht
      obtain ⟨he', hes⟩ := allSteps_cons_iff.mp h
      refine allSteps_cons he' fun v hv => ?_
      obtain rfl : u = v := Option.some.inj (hu.symm.trans hv)
      exact ih (hes u hu) hut

/-- A log to which a step that meets a condition adds what is observed of its event, and
    any other step adds more, holds what is observed of a run exactly when all its steps
    meet the condition. -/
theorem exec_log_iff {ω : Type} (log : σ → List ω) (obs : ε → List ω) {C : σ → ε → Prop}
    (hmeets : ∀ s e t, C s e → step s e = some t → log t = log s ++ obs e)
    (hmore : ∀ s e t, ¬ C s e → step s e = some t →
      (log s).length + (obs e).length < (log t).length)
    {s t : σ} {es : List ε} (h : exec step s es = some t) :
    log t = log s ++ es.flatMap obs ↔ AllSteps step C s es := by
  have hgrows : ∀ {es t}, exec step s es = some t →
      (log s).length + (es.flatMap obs).length ≤ (log t).length := by
    intro es t h
    refine exec_history (fun es t => (log s).length + (es.flatMap obs).length ≤ (log t).length)
      (Nat.le_refl _) (fun es u e v _ hu hv => ?_) h
    have hstep : (log u).length + (obs e).length ≤ (log v).length := by
      by_cases hC : C u e
      · exact Nat.le_of_eq (by rw [hmeets u e v hC hv, List.length_append])
      · exact Nat.le_of_lt (hmore u e v hC hv)
    rw [List.flatMap_append, List.length_append, List.flatMap_singleton]
    omega
  induction es using List.reverseRecOn generalizing t with
  | nil =>
      rw [exec_nil, Option.some_inj] at h
      exact iff_of_true (by rw [h, List.flatMap_nil, List.append_nil]) allSteps_nil
  | append_singleton es e ih =>
      obtain ⟨u, hu, hstep⟩ := exec_concat_iff.mp h
      rw [List.flatMap_append, List.flatMap_singleton, ← List.append_assoc]
      constructor
      · intro heq
        by_cases hC : C u e
        · rw [hmeets u e t hC hstep, List.append_cancel_right_eq] at heq
          exact ((ih hu).mp heq).concat hu hC
        · -- the log would be too long
          have hlen := congrArg List.length heq
          have hlong := hmore u e t hC hstep
          have hbefore := hgrows hu
          rw [List.length_append, List.length_append] at hlen
          omega
      · intro hall
        rw [hmeets u e t (hall.last hu) hstep, (ih hu).mpr hall.of_concat]

/-- The run rule for an invariant that only steps meeting a condition keep. -/
theorem exec_invariant_of {s t : σ} {es : List ε} (I : σ → Prop) (C : σ → ε → Prop)
    (hinit : I s) (hstep : ∀ t e u, I t → C t e → step t e = some u → I u)
    (hC : AllSteps step C s es) (h : exec step s es = some t) : I t := by
  induction es using List.reverseRecOn generalizing t with
  | nil =>
      rw [exec_nil, Option.some_inj] at h
      exact h ▸ hinit
  | append_singleton es e ih =>
      obtain ⟨u, hsu, hut⟩ := exec_concat_iff.mp h
      exact hstep u e t (ih hC.of_concat hsu) (hC.last hsu) hut

/-- The run rule for a simulation that only steps meeting a condition keep. -/
theorem exec_simulates {τ : Type} {step' : τ → ε → Option τ} {R : σ → τ → Prop}
    {C : σ → ε → Prop} (hstep : ∀ s s' e t, R s s' → C s e → step s e = some t →
      ∃ t', step' s' e = some t' ∧ R t t')
    {s t : σ} {s' : τ} {es : List ε} (hR : R s s') (hC : AllSteps step C s es)
    (h : exec step s es = some t) : ∃ t', exec step' s' es = some t' ∧ R t t' := by
  induction es using List.reverseRecOn generalizing t with
  | nil =>
      rw [exec_nil, Option.some_inj] at h
      exact ⟨s', rfl, h ▸ hR⟩
  | append_singleton es e ih =>
      obtain ⟨u, hsu, hut⟩ := exec_concat_iff.mp h
      obtain ⟨u', hsu', hRu⟩ := ih hC.of_concat hsu
      obtain ⟨t', hut', hRt⟩ := hstep u u' e t hRu (hC.last hsu) hut
      exact ⟨t', exec_concat_iff.mpr ⟨u', hsu', hut'⟩, hRt⟩

/-- When a condition on the event decides whether a step keeps `I`, the states of a run
    all have `I` exactly when all its events meet the condition. -/
theorem exec_invariant_iff {s w : σ} {es : List ε} (I : σ → Prop) (C : ε → Prop) (hinit : I s)
    (hstep : ∀ t e u, I t → step t e = some u → (I u ↔ C e)) (h : exec step s es = some w) :
    (∀ es₁ es₂ t, es = es₁ ++ es₂ → exec step s es₁ = some t → I t) ↔ ∀ e ∈ es, C e := by
  constructor
  · intro hI e he
    obtain ⟨es₁, es₂, rfl⟩ := List.append_of_mem he
    obtain ⟨t, ht, hrest⟩ := exec_append_iff.mp h
    obtain ⟨u, hu, -⟩ := exec_cons_iff.mp hrest
    have hafter : I u := hI (es₁ ++ [e]) es₂ u (by simp) (exec_concat_iff.mpr ⟨t, ht, hu⟩)
    exact (hstep t e u (hI es₁ (e :: es₂) t rfl ht) hu).mp hafter
  · intro hC es₁ es₂ t hes ht
    have hsteps : AllSteps step (fun _ => C) s es₁ := by
      intro xs e ys _ hxs _
      exact hC e (by simp [hes, hxs])
    exact exec_invariant_of I (fun _ => C) hinit (fun t e u hI he hu => (hstep t e u hI hu).mpr he)
      hsteps ht

end Lib
end NetworkingFinal
