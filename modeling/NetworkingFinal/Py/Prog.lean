/-
  NetworkingFinal.Py.Prog

  Python code with a mutable state and exceptions, as programs of
  `EStateM Exn σ`: an exception leaves the state as it was when it was raised.

  - `bind_ok_iff` / `bind_error_iff` take a run of a sequence apart.
  - `wp x Q R s`: from `s`, `x` ends in `Q` when it returns and in `R` when it
    raises; `wp_bind` and its companions walk through a program.
  - `Keeps F x`: the frame `F`, a preorder on states, holds between the state
    before and after `x`, whether `x` returns or raises.
  - `Coupled E x y`: from states related by `E` the two programs end the same
    way, with the same value or exception, in states related by `E`.
  - `zoom L x` runs a program on the part of the state that the lens `L` selects.
-/
import NetworkingFinal.Py.Basic
import Mathlib.Data.List.Forall2

namespace NetworkingFinal
namespace Py

/-- A program over the state `σ` that returns an `α` or raises. -/
abbrev Prog (σ α : Type) := EStateM Exn σ α

namespace Prog

variable {σ τ α β : Type}

/-- The state at the end of a run, returned or raised. -/
def final : EStateM.Result Exn σ α → σ
  | .ok _ s => s
  | .error _ s => s

@[simp] theorem final_ok (a : α) (s : σ) :
    final (.ok a s : EStateM.Result Exn σ α) = s := rfl

@[simp] theorem final_error (e : Exn) (s : σ) :
    final (.error e s : EStateM.Result Exn σ α) = s := rfl

/-- A result computed from the state, which stays. -/
def reads (f : σ → Except Exn α) : Prog σ α := fun s =>
  match f s with
  | .ok a => .ok a s
  | .error e => .error e s

/-- A result that may be an exception. -/
def lift (x : Except Exn α) : Prog σ α := reads fun _ => x

/-- A change of the state that may be refused. -/
def writes (f : σ → Except Exn σ) : Prog σ Unit := fun s =>
  match f s with
  | .ok t => .ok () t
  | .error e => .error e s

/-- `if c: x` -/
def when (c : Bool) (x : Prog σ Unit) : Prog σ Unit := if c then x else return ()

/-- `[f(x) for x in xs]` -/
def collect (f : α → Prog σ β) : List α → Prog σ (List β)
  | [] => return []
  | x :: xs => do
      let y ← f x
      let ys ← collect f xs
      return y :: ys

/-- `[x for x in xs if f(x)]` -/
def select (f : α → Prog σ Bool) : List α → Prog σ (List α)
  | [] => return []
  | x :: xs => do
      let keep ← f x
      let ys ← select f xs
      return if keep then x :: ys else ys

/-- `for x in xs: f(x)` -/
def each (f : α → Prog σ Unit) : List α → Prog σ Unit
  | [] => return ()
  | x :: xs => do
      f x
      each f xs

-- ============================================================================
-- Taking runs apart
-- ============================================================================

@[simp] theorem pure_apply (a : α) (s : σ) : (pure a : Prog σ α) s = .ok a s := rfl

@[simp] theorem throw_apply (e : Exn) (s : σ) :
    (throw e : Prog σ α) s = .error e s := rfl

/-- The value of a run that returns. -/
theorem run'_of_ok {m : Prog σ α} {s t : σ} {a : α} (h : m s = .ok a t) : m.run' s = some a := by
  delta EStateM.run' EStateM.run
  rw [h]

@[simp] theorem get_apply (s : σ) : (get : Prog σ σ) s = .ok s s := rfl

@[simp] theorem set_apply (t s : σ) : (set t : Prog σ PUnit) s = .ok ⟨⟩ t := rfl

@[simp] theorem modify_apply (f : σ → σ) (s : σ) :
    (modify f : Prog σ PUnit) s = .ok ⟨⟩ (f s) := rfl

theorem bind_apply (x : Prog σ α) (f : α → Prog σ β) (s : σ) :
    (x >>= f) s = match x s with
      | .ok a t => f a t
      | .error e t => .error e t := by
  simp only [bind, EStateM.bind]
  cases x s <;> rfl

/-- A sequence returns when both of its parts do. -/
theorem bind_ok_iff {x : Prog σ α} {f : α → Prog σ β} {s s' : σ} {b : β} :
    (x >>= f) s = .ok b s' ↔ ∃ a t, x s = .ok a t ∧ f a t = .ok b s' := by
  rw [bind_apply]
  cases h : x s with
  | ok a t =>
      constructor
      · intro hf
        exact ⟨a, t, rfl, hf⟩
      · rintro ⟨a', t', hx, hf⟩
        cases hx
        exact hf
  | error e t => simp

/-- A sequence raises when its first part does, or when the first part
    returns and the second raises. -/
theorem bind_error_iff {x : Prog σ α} {f : α → Prog σ β} {s s' : σ} {e : Exn} :
    (x >>= f) s = .error e s' ↔
      x s = .error e s' ∨ ∃ a t, x s = .ok a t ∧ f a t = .error e s' := by
  rw [bind_apply]
  cases h : x s with
  | ok a t =>
      constructor
      · intro hf
        exact Or.inr ⟨a, t, rfl, hf⟩
      · rintro (hx | ⟨a', t', hx, hf⟩)
        · cases hx
        · cases hx
          exact hf
  | error e' t => simp

/-- The result of a sequence, when the result of its first part is known. -/
theorem bind_of_ok {x : Prog σ α} {f : α → Prog σ β} {s t : σ} {a : α}
    (h : x s = .ok a t) : (x >>= f) s = f a t := by
  rw [bind_apply, h]

/-- A computed result is known. -/
theorem lift_ok_bind {x : Except Exn α} {a : α} (hx : x = .ok a) (f : α → Prog σ β) :
    (lift x >>= f) = f a := by
  rw [hx]
  rfl

theorem reads_ok_iff {f : σ → Except Exn α} {s s' : σ} {a : α} :
    reads f s = .ok a s' ↔ f s = .ok a ∧ s' = s := by
  unfold reads
  cases f s <;> simp [eq_comm]

/-- A selected element was one of the elements. -/
theorem mem_of_mem_select {f : α → Prog σ Bool} {xs ys : List α} {s s' : σ}
    (h : select f xs s = .ok ys s') : ∀ y ∈ ys, y ∈ xs := by
  induction xs generalizing ys s with
  | nil =>
      cases h
      simp
  | cons x xs ih =>
      obtain ⟨keep, t, -, h⟩ := bind_ok_iff.mp h
      obtain ⟨zs, u, hzs, h⟩ := bind_ok_iff.mp h
      cases h
      intro y hy
      split at hy
      · rcases List.mem_cons.mp hy with rfl | hy
        · exact List.mem_cons_self
        · exact List.mem_cons_of_mem _ (ih hzs y hy)
      · exact List.mem_cons_of_mem _ (ih hzs y hy)

/-- A collected value came from one of the elements. -/
theorem mem_of_mem_collect {f : α → Prog σ β} {xs : List α} {ys : List β} {s s' : σ}
    (h : collect f xs s = .ok ys s') : ∀ y ∈ ys, ∃ x ∈ xs, ∃ t t', f x t = .ok y t' := by
  induction xs generalizing ys s with
  | nil =>
      cases h
      intro y hy
      cases hy
  | cons x xs ih =>
      obtain ⟨y₀, t, hy₀, h⟩ := bind_ok_iff.mp h
      obtain ⟨zs, u, hzs, h⟩ := bind_ok_iff.mp h
      cases h
      intro y hy
      rcases List.mem_cons.mp hy with rfl | hy
      · exact ⟨x, List.mem_cons_self, s, t, hy₀⟩
      · obtain ⟨x', hx', hrest⟩ := ih hzs y hy
        exact ⟨x', List.mem_cons_of_mem _ hx', hrest⟩

-- ============================================================================
-- Weakest preconditions
-- ============================================================================

/-- From `s`, the program ends in `Q` when it returns, and in `R` when it raises. -/
def wp (x : Prog σ α) (Q : α → σ → Prop) (R : Exn → σ → Prop) (s : σ) : Prop :=
  match x s with
  | .ok a t => Q a t
  | .error e t => R e t

section Wp

variable {Q Q' : α → σ → Prop} {R R' : Exn → σ → Prop} {s : σ}

@[simp] theorem wp_pure (a : α) : wp (pure a : Prog σ α) Q R s ↔ Q a s := Iff.rfl

@[simp] theorem wp_throw (e : Exn) : wp (throw e : Prog σ α) Q R s ↔ R e s := Iff.rfl

@[simp] theorem wp_get {Q : σ → σ → Prop} : wp (get : Prog σ σ) Q R s ↔ Q s s := Iff.rfl

@[simp] theorem wp_modify {Q : PUnit → σ → Prop} (f : σ → σ) :
    wp (modify f : Prog σ PUnit) Q R s ↔ Q ⟨⟩ (f s) := Iff.rfl

theorem wp_bind {Q : β → σ → Prop} {x : Prog σ α} {f : α → Prog σ β} :
    wp (x >>= f) Q R s ↔ wp x (fun a t => wp (f a) Q R t) R s := by
  simp only [wp, bind_apply]
  cases x s <;> rfl

/-- The rule of a sequence whose first part is known to return. -/
theorem wp_bind_of_ok {Q : β → σ → Prop} {x : Prog σ α} {f : α → Prog σ β} {a : α} {t : σ}
    (h : x s = .ok a t) : wp (x >>= f) Q R s ↔ wp (f a) Q R t := by
  rw [wp_bind, wp, h]

theorem wp_ite {c : Prop} [Decidable c] {x y : Prog σ α} :
    wp (if c then x else y) Q R s ↔ (c → wp x Q R s) ∧ (¬ c → wp y Q R s) := by
  by_cases hc : c <;> simp [hc]

theorem wp_when {Q : Unit → σ → Prop} {c : Bool} {x : Prog σ Unit} :
    wp (when c x) Q R s ↔ (c = true → wp x Q R s) ∧ (c = false → Q () s) := by
  cases c <;> simp [when]

theorem wp_reads {f : σ → Except Exn α} :
    wp (reads f) Q R s ↔ (∀ a, f s = .ok a → Q a s) ∧ (∀ e, f s = .error e → R e s) := by
  cases h : f s <;> simp [wp, reads, h]

theorem wp_lift {x : Except Exn α} :
    wp (lift x) Q R s ↔ (∀ a, x = .ok a → Q a s) ∧ (∀ e, x = .error e → R e s) :=
  wp_reads

theorem wp_writes {Q : Unit → σ → Prop} {f : σ → Except Exn σ} :
    wp (writes f) Q R s ↔ (∀ t, f s = .ok t → Q () t) ∧ (∀ e, f s = .error e → R e s) := by
  cases h : f s <;> simp [wp, writes, h]

theorem wp_mono {x : Prog σ α} (h : wp x Q R s) (hQ : ∀ a t, Q a t → Q' a t)
    (hR : ∀ e t, R e t → R' e t) : wp x Q' R' s := by
  unfold wp at h ⊢
  cases hx : x s with
  | ok a t => rw [hx] at h; exact hQ a t h
  | error e t => rw [hx] at h; exact hR e t h

theorem wp_of_ok {x : Prog σ α} {a : α} {t : σ} (h : wp x Q R s) (hx : x s = .ok a t) :
    Q a t := by
  rwa [wp, hx] at h

/-- The rule for a program whose runs are looked at as they are. -/
theorem wp_of_runs {x : Prog σ α} (hQ : ∀ a t, x s = .ok a t → Q a t)
    (hR : ∀ e t, x s = .error e t → R e t) : wp x Q R s := by
  unfold wp
  split
  · next a t h => exact hQ a t h
  · next e t h => exact hR e t h

/-- The state at the end, however the program ends. -/
theorem final_of_wp {x : Prog σ α} {P : σ → Prop}
    (h : wp x (fun _ t => P t) (fun _ t => P t) s) : P (final (x s)) := by
  rw [wp] at h
  cases hx : x s with
  | ok a t => rwa [hx] at h
  | error e t => rwa [hx] at h

/-- A property of the outcome, with what was returned or raised. -/
theorem outcome_of_wp {x : Prog σ α} {P : EStateM.Result Exn σ α → Prop}
    (h : wp x (fun a t => P (.ok a t)) (fun e t => P (.error e t)) s) : P (x s) := by
  rw [wp] at h
  cases hx : x s with
  | ok a t => rwa [hx] at h
  | error e t => rwa [hx] at h

/-- A loop keeps an invariant when its body does. -/
theorem wp_each {I : σ → Prop} {f : α → Prog σ Unit} {xs : List α}
    (h : ∀ x ∈ xs, ∀ s, I s → wp (f x) (fun _ t => I t) R s) (hs : I s) :
    wp (each f xs) (fun _ t => I t) R s := by
  induction xs generalizing s with
  | nil => exact hs
  | cons x xs ih =>
      rw [each, wp_bind]
      refine wp_mono (h x List.mem_cons_self s hs) (fun _ t ht => ?_) fun _ _ hR => hR
      exact ih (fun y hy => h y (List.mem_cons_of_mem _ hy)) ht

end Wp

/-- The exceptions `x` may raise satisfy `P`. -/
def Raises (P : Exn → Prop) (x : Prog σ α) : Prop := ∀ s e t, x s = .error e t → P e

section Raises

variable {P : Exn → Prop}

theorem raises_pure (a : α) : Raises P (pure a : Prog σ α) := fun _ _ _ h => by cases h

theorem raises_throw {e : Exn} (h : P e) : Raises P (throw e : Prog σ α) :=
  fun _ _ _ hx => by cases hx; exact h

theorem raises_reads {f : σ → Except Exn α} (h : ∀ s e, f s = .error e → P e) :
    Raises P (reads f) := by
  intro s e t hx
  unfold reads at hx
  split at hx
  · cases hx
  · next e' he => cases hx; exact h s e he

theorem raises_writes {f : σ → Except Exn σ} (h : ∀ s e, f s = .error e → P e) :
    Raises P (writes f) := by
  intro s e t hx
  unfold writes at hx
  split at hx
  · cases hx
  · next e' he => cases hx; exact h s e he

theorem raises_bind {x : Prog σ α} {f : α → Prog σ β} (hx : Raises P x)
    (hf : ∀ a, Raises P (f a)) : Raises P (x >>= f) := by
  intro s e t h
  rcases bind_error_iff.mp h with h | ⟨a, u, -, h⟩
  · exact hx s e t h
  · exact hf a u e t h

theorem raises_ite {c : Prop} [Decidable c] {x y : Prog σ α} (hx : Raises P x)
    (hy : Raises P y) : Raises P (if c then x else y) := by
  split
  · exact hx
  · exact hy

theorem raises_when {c : Bool} {x : Prog σ Unit} (hx : Raises P x) : Raises P (when c x) :=
  raises_ite hx (raises_pure _)

theorem raises_collect {f : α → Prog σ β} {xs : List α} (h : ∀ x, Raises P (f x)) :
    Raises P (collect f xs) := by
  induction xs with
  | nil => exact raises_pure _
  | cons x xs ih => exact raises_bind (h x) fun _ => raises_bind ih fun _ => raises_pure _

theorem raises_select {f : α → Prog σ Bool} {xs : List α} (h : ∀ x, Raises P (f x)) :
    Raises P (select f xs) := by
  induction xs with
  | nil => exact raises_pure _
  | cons x xs ih => exact raises_bind (h x) fun _ => raises_bind ih fun _ => raises_pure _

theorem raises_each {f : α → Prog σ Unit} {xs : List α} (h : ∀ x, Raises P (f x)) :
    Raises P (each f xs) := by
  induction xs with
  | nil => exact raises_pure _
  | cons x xs ih => exact raises_bind (h x) fun _ => ih

end Raises

-- ============================================================================
-- Frames
-- ============================================================================

/-- What a program leaves alone: a preorder between the state before and the
    state after. -/
structure Frame (σ : Type) where
  rel : σ → σ → Prop
  refl : ∀ s, rel s s
  trans : ∀ {s t u}, rel s t → rel t u → rel s u

/-- Every run of `x` respects the frame, also one that raises. -/
def Keeps (F : Frame σ) (x : Prog σ α) : Prop := ∀ s, F.rel s (final (x s))

section Keeps

variable {F : Frame σ}

theorem Keeps.of_ok {x : Prog σ α} (h : Keeps F x) {s s' : σ} {a : α}
    (hx : x s = .ok a s') : F.rel s s' := by
  have := h s
  rwa [hx] at this

theorem Keeps.of_error {x : Prog σ α} (h : Keeps F x) {s s' : σ} {e : Exn}
    (hx : x s = .error e s') : F.rel s s' := by
  have := h s
  rwa [hx] at this

/-- What the frame gives of the state afterwards. -/
theorem wp_of_keeps {x : Prog σ α} {P : σ → Prop} {s : σ} (h : Keeps F x)
    (hP : ∀ t, F.rel s t → P t) : wp x (fun _ t => P t) (fun _ t => P t) s := by
  have hrel := h s
  unfold wp
  cases hx : x s with
  | ok a t =>
      rw [hx] at hrel
      exact hP t hrel
  | error e t =>
      rw [hx] at hrel
      exact hP t hrel

theorem Keeps.mono {G : Frame σ} {x : Prog σ α} (h : Keeps F x)
    (hFG : ∀ s t, F.rel s t → G.rel s t) : Keeps G x :=
  fun s => hFG _ _ (h s)

theorem keeps_pure (a : α) : Keeps F (pure a : Prog σ α) := fun s => F.refl s

theorem keeps_get : Keeps F (get : Prog σ σ) := fun s => F.refl s

theorem keeps_throw (e : Exn) : Keeps F (throw e : Prog σ α) := fun s => F.refl s

theorem keeps_modify {f : σ → σ} (h : ∀ s, F.rel s (f s)) :
    Keeps F (modify f : Prog σ PUnit) := fun s => h s

theorem keeps_reads (f : σ → Except Exn α) : Keeps F (reads f) := by
  intro s
  unfold reads
  split <;> exact F.refl s

theorem keeps_writes {f : σ → Except Exn σ} (h : ∀ s t, f s = .ok t → F.rel s t) :
    Keeps F (writes f) := by
  intro s
  unfold writes
  split
  · next t ht => exact h s t ht
  · exact F.refl s

/-- From one state: the second part is looked at where the first part led. -/
theorem rel_bind {x : Prog σ α} {f : α → Prog σ β} {s : σ} (hx : F.rel s (final (x s)))
    (hf : ∀ a t, x s = .ok a t → F.rel t (final (f a t))) : F.rel s (final ((x >>= f) s)) := by
  rw [bind_apply]
  cases hrun : x s with
  | ok a t =>
      rw [hrun] at hx
      exact F.trans hx (hf a t hrun)
  | error e t =>
      rw [hrun] at hx
      exact hx

/-- The second part only needs to keep the frame on what the first part returns. -/
theorem keeps_bind_of {x : Prog σ α} {f : α → Prog σ β} (P : α → Prop) (hx : Keeps F x)
    (hP : ∀ s a s', x s = .ok a s' → P a) (hf : ∀ a, P a → Keeps F (f a)) :
    Keeps F (x >>= f) :=
  fun s => rel_bind (hx s) fun a t hrun => hf a (hP s a t hrun) t

theorem keeps_bind {x : Prog σ α} {f : α → Prog σ β} (hx : Keeps F x)
    (hf : ∀ a, Keeps F (f a)) : Keeps F (x >>= f) :=
  keeps_bind_of (fun _ => True) hx (fun _ _ _ _ => trivial) fun a _ => hf a

theorem keeps_ite {c : Prop} [Decidable c] {x y : Prog σ α} (hx : c → Keeps F x)
    (hy : ¬ c → Keeps F y) : Keeps F (if c then x else y) := by
  split
  · next hc => exact hx hc
  · next hc => exact hy hc

theorem keeps_when {c : Bool} {x : Prog σ Unit} (hx : c = true → Keeps F x) :
    Keeps F (when c x) :=
  keeps_ite hx fun _ => keeps_pure _

theorem keeps_collect {f : α → Prog σ β} {xs : List α} (h : ∀ x ∈ xs, Keeps F (f x)) :
    Keeps F (collect f xs) := by
  induction xs with
  | nil => exact keeps_pure _
  | cons x xs ih =>
      refine keeps_bind (h x List.mem_cons_self) fun y => ?_
      exact keeps_bind (ih fun z hz => h z (List.mem_cons_of_mem _ hz)) fun ys => keeps_pure _

theorem keeps_select {f : α → Prog σ Bool} {xs : List α} (h : ∀ x ∈ xs, Keeps F (f x)) :
    Keeps F (select f xs) := by
  induction xs with
  | nil => exact keeps_pure _
  | cons x xs ih =>
      refine keeps_bind (h x List.mem_cons_self) fun y => ?_
      exact keeps_bind (ih fun z hz => h z (List.mem_cons_of_mem _ hz)) fun ys => keeps_pure _

theorem keeps_each {f : α → Prog σ Unit} {xs : List α} (h : ∀ x ∈ xs, Keeps F (f x)) :
    Keeps F (each f xs) := by
  induction xs with
  | nil => exact keeps_pure _
  | cons x xs ih =>
      refine keeps_bind (h x List.mem_cons_self) fun _ => ?_
      exact ih fun z hz => h z (List.mem_cons_of_mem _ hz)

/-- Nothing changes. -/
def unchanged : Frame σ where
  rel s t := t = s
  refl _ := rfl
  trans h h' := h'.trans h

/-- The elements `select` keeps, of a test that answers and changes nothing. -/
theorem select_of_tests {f : α → Prog σ Bool} {g : α → Bool} {xs : List α} {s : σ}
    (h : ∀ x ∈ xs, f x s = .ok (g x) s) : select f xs s = .ok (xs.filter g) s := by
  induction xs with
  | nil => rfl
  | cons x xs ih =>
      rw [select, bind_of_ok (h x List.mem_cons_self),
        bind_of_ok (ih fun y hy => h y (List.mem_cons_of_mem _ hy)), List.filter_cons]
      rfl

/-- The results of `collect`, of a program that changes nothing. -/
theorem of_collect {f : α → Prog σ β} {xs : List α} {ys : List β} {s s' : σ}
    (hf : ∀ x ∈ xs, Keeps unchanged (f x)) (h : collect f xs s = .ok ys s') :
    s' = s ∧ (∀ x ∈ xs, ∃ y ∈ ys, f x s = .ok y s) ∧ ∀ y ∈ ys, ∃ x ∈ xs, f x s = .ok y s := by
  induction xs generalizing ys with
  | nil =>
      cases h
      simp
  | cons x xs ih =>
      obtain ⟨y, t, hx, h⟩ := bind_ok_iff.mp h
      obtain ⟨zs, u, hxs, h⟩ := bind_ok_iff.mp h
      cases h
      obtain rfl : t = s := (hf x List.mem_cons_self).of_ok hx
      obtain ⟨rfl, hleft, hright⟩ := ih (fun z hz => hf z (List.mem_cons_of_mem _ hz)) hxs
      simp only [List.forall_mem_cons, List.exists_mem_cons_iff]
      exact ⟨trivial, ⟨Or.inl hx, fun z hz => Or.inr (hleft z hz)⟩, Or.inl hx,
        fun z hz => Or.inr (hright z hz)⟩

/-- What `collect` returns, of a program whose results are known. -/
theorem collect_ok_iff {f : α → Prog σ β} {P : α → β → Prop} {xs : List α} {ys : List β}
    {s s' : σ} (h : ∀ x ∈ xs, ∀ y t, f x s = .ok y t ↔ t = s ∧ P x y) :
    collect f xs s = .ok ys s' ↔ s' = s ∧ List.Forall₂ P xs ys := by
  induction xs generalizing ys with
  | nil =>
      rw [List.forall₂_nil_left_iff]
      constructor
      · intro hnil
        cases hnil
        exact ⟨rfl, rfl⟩
      · rintro ⟨rfl, rfl⟩
        rfl
  | cons x xs ih =>
      have hx := h x List.mem_cons_self
      rw [List.forall₂_cons_left_iff]
      constructor
      · intro hcons
        obtain ⟨y, t, hy, htail⟩ := bind_ok_iff.mp hcons
        obtain ⟨zs, u, hzs, hend⟩ := bind_ok_iff.mp htail
        cases hend
        obtain ⟨rfl, hP⟩ := (hx y t).mp hy
        obtain ⟨hsame, hrest⟩ := (ih fun z hz => h z (List.mem_cons_of_mem _ hz)).mp hzs
        exact ⟨hsame, y, zs, hP, hrest, rfl⟩
      · rintro ⟨rfl, y, zs, hP, hrest, rfl⟩
        rw [collect, bind_of_ok ((hx y s').mpr ⟨rfl, hP⟩), bind_of_ok
          ((ih fun z hz => h z (List.mem_cons_of_mem _ hz)).mpr ⟨rfl, hrest⟩)]
        rfl

end Keeps

-- ============================================================================
-- Two runs side by side
-- ============================================================================

/-- Two runs end the same way: with the same value, or the same exception,
    in states related by `E`. -/
def SameEnd (E : σ → τ → Prop) : EStateM.Result Exn σ α → EStateM.Result Exn τ α → Prop
  | .ok a s, .ok b t => a = b ∧ E s t
  | .error e s, .error e' t => e = e' ∧ E s t
  | _, _ => False

theorem SameEnd.mono {E E' : σ → τ → Prop} {x : EStateM.Result Exn σ α}
    {y : EStateM.Result Exn τ α} (h : SameEnd E x y) (hE : ∀ s t, E s t → E' s t) :
    SameEnd E' x y := by
  cases x <;> cases y
  · exact ⟨h.1, hE _ _ h.2⟩
  · exact h.elim
  · exact h.elim
  · exact ⟨h.1, hE _ _ h.2⟩

theorem SameEnd.final {E : σ → τ → Prop} {x : EStateM.Result Exn σ α} {y : EStateM.Result Exn τ α}
    (h : SameEnd E x y) : E (Prog.final x) (Prog.final y) := by
  cases x <;> cases y
  · exact h.2
  · exact h.elim
  · exact h.elim
  · exact h.2

/-- From states related by `E`, runs of `x` and `y` end the same way. -/
def Coupled (E : σ → τ → Prop) (x : Prog σ α) (y : Prog τ α) : Prop :=
  ∀ s t, E s t → SameEnd E (x s) (y t)

section Coupled

variable {E : σ → τ → Prop}

/-- The second parts only need to end the same way where the first parts led. -/
theorem sameEnd_bind {x : Prog σ α} {y : Prog τ α} {f : α → Prog σ β} {g : α → Prog τ β} {s : σ}
    {t : τ} (hx : SameEnd E (x s) (y t))
    (hf : ∀ a s' t', x s = .ok a s' → y t = .ok a t' → E s' t' → SameEnd E (f a s') (g a t')) :
    SameEnd E ((x >>= f) s) ((y >>= g) t) := by
  rw [bind_apply, bind_apply]
  cases hxs : x s with
  | ok a s' =>
      cases hyt : y t with
      | ok b t' =>
          rw [hxs, hyt] at hx
          obtain ⟨rfl, h'⟩ := hx
          exact hf a s' t' hxs hyt h'
      | error e t' => rw [hxs, hyt] at hx; exact hx.elim
  | error e s' =>
      cases hyt : y t with
      | ok b t' => rw [hxs, hyt] at hx; exact hx.elim
      | error e' t' => rw [hxs, hyt] at hx; exact hx

theorem coupled_pure (a : α) : Coupled E (pure a) (pure a) := fun _ _ h => ⟨rfl, h⟩

theorem coupled_throw (e : Exn) :
    Coupled E (throw e : Prog σ α) (throw e : Prog τ α) := fun _ _ h => ⟨rfl, h⟩

theorem coupled_modify {f : σ → σ} {g : τ → τ} (h : ∀ s t, E s t → E (f s) (g t)) :
    Coupled E (modify f : Prog σ PUnit) (modify g : Prog τ PUnit) :=
  fun s t hst => ⟨rfl, h s t hst⟩

/-- Programs that read the whole state first. -/
theorem sameEnd_get_bind {f : σ → Prog σ α} {g : τ → Prog τ α} {s : σ} {t : τ}
    (h : SameEnd E (f s s) (g t t)) : SameEnd E ((get >>= f) s) ((get >>= g) t) := h

theorem coupled_reads {f : σ → Except Exn α} {g : τ → Except Exn α}
    (h : ∀ s t, E s t → f s = g t) : Coupled E (reads f) (reads g) := by
  intro s t hst
  unfold reads
  rw [h s t hst]
  split
  · exact ⟨rfl, hst⟩
  · exact ⟨rfl, hst⟩

theorem coupled_lift (x : Except Exn α) : Coupled E (lift x) (lift x) :=
  coupled_reads fun _ _ _ => rfl

theorem coupled_writes {f : σ → Except Exn σ} {g : τ → Except Exn τ}
    (h : ∀ s t, E s t →
      (∃ s' t', f s = .ok s' ∧ g t = .ok t' ∧ E s' t') ∨
      (∃ e, f s = .error e ∧ g t = .error e)) : Coupled E (writes f) (writes g) := by
  intro s t hst
  unfold writes
  rcases h s t hst with ⟨s', t', hs, ht, hE⟩ | ⟨e, hs, ht⟩
  · rw [hs, ht]
    exact ⟨rfl, hE⟩
  · rw [hs, ht]
    exact ⟨rfl, hst⟩

theorem coupled_ite {c : Prop} [Decidable c] {x x' : Prog σ α} {y y' : Prog τ α}
    (hx : c → Coupled E x y) (hy : ¬ c → Coupled E x' y') :
    Coupled E (if c then x else x') (if c then y else y') := by
  split
  · next hc => exact hx hc
  · next hc => exact hy hc

theorem coupled_when {c : Bool} {x : Prog σ Unit} {y : Prog τ Unit}
    (hx : c = true → Coupled E x y) : Coupled E (when c x) (when c y) :=
  coupled_ite hx fun _ => coupled_pure _

/-- The second parts only need to be coupled on what the first part returns
    from related states. -/
theorem coupled_bind_of {x : Prog σ α} {y : Prog τ α} {f : α → Prog σ β} {g : α → Prog τ β}
    (P : α → Prop) (hx : Coupled E x y) (hP : ∀ s a s', x s = .ok a s' → P a)
    (hf : ∀ a, P a → Coupled E (f a) (g a)) : Coupled E (x >>= f) (y >>= g) :=
  fun s t hst => sameEnd_bind (hx s t hst) fun a s' t' hxs _ h => hf a (hP s a s' hxs) s' t' h

theorem coupled_bind {x : Prog σ α} {y : Prog τ α} {f : α → Prog σ β} {g : α → Prog τ β}
    (hx : Coupled E x y) (hf : ∀ a, Coupled E (f a) (g a)) :
    Coupled E (x >>= f) (y >>= g) :=
  coupled_bind_of (fun _ => True) hx (fun _ _ _ _ => trivial) fun a _ => hf a

theorem coupled_collect {f : α → Prog σ β} {g : α → Prog τ β} {xs : List α}
    (h : ∀ x ∈ xs, Coupled E (f x) (g x)) : Coupled E (collect f xs) (collect g xs) := by
  induction xs with
  | nil => exact coupled_pure _
  | cons x xs ih =>
      refine coupled_bind (h x List.mem_cons_self) fun y => ?_
      exact coupled_bind (ih fun z hz => h z (List.mem_cons_of_mem _ hz)) fun ys =>
        coupled_pure _

theorem coupled_select {f : α → Prog σ Bool} {g : α → Prog τ Bool} {xs : List α}
    (h : ∀ x ∈ xs, Coupled E (f x) (g x)) : Coupled E (select f xs) (select g xs) := by
  induction xs with
  | nil => exact coupled_pure _
  | cons x xs ih =>
      refine coupled_bind (h x List.mem_cons_self) fun y => ?_
      exact coupled_bind (ih fun z hz => h z (List.mem_cons_of_mem _ hz)) fun ys =>
        coupled_pure _

theorem coupled_each {f : α → Prog σ Unit} {g : α → Prog τ Unit} {xs : List α}
    (h : ∀ x ∈ xs, Coupled E (f x) (g x)) : Coupled E (each f xs) (each g xs) := by
  induction xs with
  | nil => exact coupled_pure _
  | cons x xs ih =>
      refine coupled_bind (h x List.mem_cons_self) fun _ => ?_
      exact ih fun z hz => h z (List.mem_cons_of_mem _ hz)

end Coupled

-- ============================================================================
-- Programs on a part of the state
-- ============================================================================

/-- A part of type `τ` of a state of type `σ`. -/
structure Lens (σ τ : Type) where
  get : σ → τ
  put : τ → σ → σ
  get_put : ∀ t s, get (put t s) = t

/-- Run a program on the selected part of the state. -/
def zoom (L : Lens σ τ) (x : Prog τ α) : Prog σ α := fun s =>
  match x (L.get s) with
  | .ok a t => .ok a (L.put t s)
  | .error e t => .error e (L.put t s)

theorem wp_zoom {L : Lens σ τ} {x : Prog τ α} {Q : α → σ → Prop} {R : Exn → σ → Prop} {s : σ} :
    wp (zoom L x) Q R s ↔
      wp x (fun a t => Q a (L.put t s)) (fun e t => R e (L.put t s)) (L.get s) := by
  simp only [wp, zoom]
  cases x (L.get s) <;> rfl

theorem zoom_ok_iff {L : Lens σ τ} {x : Prog τ α} {s s' : σ} {a : α} :
    zoom L x s = .ok a s' ↔ ∃ t, x (L.get s) = .ok a t ∧ s' = L.put t s := by
  unfold zoom
  cases h : x (L.get s) with
  | ok b t =>
      constructor
      · intro he
        cases he
        exact ⟨t, rfl, rfl⟩
      · rintro ⟨t', ht, rfl⟩
        cases ht
        rfl
  | error e t => simp

theorem zoom_error_iff {L : Lens σ τ} {x : Prog τ α} {s s' : σ} {e : Exn} :
    zoom L x s = .error e s' ↔ ∃ t, x (L.get s) = .error e t ∧ s' = L.put t s := by
  unfold zoom
  cases h : x (L.get s) with
  | ok b t => simp
  | error e' t =>
      constructor
      · intro he
        cases he
        exact ⟨t, rfl, rfl⟩
      · rintro ⟨t', ht, rfl⟩
        cases ht
        rfl

/-- A frame of the part lifts to a frame of the whole. -/
theorem keeps_zoom {L : Lens σ τ} {F : Frame σ} {G : Frame τ} {x : Prog τ α}
    (hx : Keeps G x) (h : ∀ s t, G.rel (L.get s) t → F.rel s (L.put t s)) :
    Keeps F (zoom L x) := by
  intro s
  have hs := hx (L.get s)
  unfold zoom
  cases hr : x (L.get s) with
  | ok a t => rw [hr] at hs; exact h s t hs
  | error e t => rw [hr] at hs; exact h s t hs

/-- Programs that end the same way on the parts do so on the wholes. -/
theorem sameEnd_zoom {σ' τ' : Type} {L : Lens σ σ'} {M : Lens τ τ'} {E : σ → τ → Prop}
    {D : σ' → τ' → Prop} {x : Prog σ' α} {y : Prog τ' α} {s : σ} {t : τ}
    (h : SameEnd D (x (L.get s)) (y (M.get t)))
    (hput : ∀ s' t', D s' t' → E (L.put s' s) (M.put t' t)) :
    SameEnd E (zoom L x s) (zoom M y t) := by
  unfold zoom
  cases hxs : x (L.get s) <;> cases hyt : y (M.get t) <;> rw [hxs, hyt] at h
  · exact ⟨h.1, hput _ _ h.2⟩
  · exact h.elim
  · exact h.elim
  · exact ⟨h.1, hput _ _ h.2⟩

/-- Coupled programs on the parts are coupled on the wholes. -/
theorem coupled_zoom {σ' τ' : Type} {L : Lens σ σ'} {M : Lens τ τ'} {E : σ → τ → Prop}
    {D : σ' → τ' → Prop} {x : Prog σ' α} {y : Prog τ' α} (hx : Coupled D x y)
    (hget : ∀ s t, E s t → D (L.get s) (M.get t))
    (hput : ∀ s t s' t', E s t → D s' t' → E (L.put s' s) (M.put t' t)) :
    Coupled E (zoom L x) (zoom M y) :=
  fun s t hst => sameEnd_zoom (hx _ _ (hget s t hst)) fun s' t' => hput s t s' t' hst

end Prog
end Py
end NetworkingFinal
