/-
  NetworkingFinal.Lib.Placed

  Pieces of a sequence at known offsets: what a decoder finds where an encoder put it,
  with no word about what stands before and after.
-/
import Mathlib.Data.List.Infix

namespace NetworkingFinal
namespace Lib

variable {α : Type}

/-- The piece stands in the data from the offset on. -/
def Placed (data : List α) (offset : Nat) (piece : List α) : Prop :=
  piece <+: data.drop offset

instance [DecidableEq α] (data : List α) (offset : Nat) (piece : List α) :
    Decidable (Placed data offset piece) :=
  inferInstanceAs (Decidable (piece <+: data.drop offset))

namespace Placed

variable {data piece : List α} {offset : Nat}

theorem take_drop (h : Placed data offset piece) :
    (data.drop offset).take piece.length = piece :=
  (List.prefix_iff_eq_take.mp h).symm

theorem offset_add_length_le (h : Placed data offset piece) (hne : piece ≠ []) :
    offset + piece.length ≤ data.length := by
  have hle := h.length_le
  have hpos := List.length_pos_iff.mpr hne
  rw [List.length_drop] at hle
  omega

theorem head {x : α} {xs : List α} (h : Placed data offset (x :: xs)) :
    data[offset]? = some x := by
  obtain ⟨rest, hrest⟩ := h
  have := congrArg List.head? hrest
  rw [List.head?_drop] at this
  simpa using this.symm

/-- Two pieces side by side. -/
theorem append_iff {xs ys : List α} :
    Placed data offset (xs ++ ys) ↔
      Placed data offset xs ∧ Placed data (offset + xs.length) ys := by
  unfold Placed
  rw [← List.drop_drop]
  constructor
  · rintro ⟨rest, hrest⟩
    rw [← hrest, List.append_assoc, List.drop_left]
    exact ⟨List.prefix_append _ _, List.prefix_append _ _⟩
  · rintro ⟨⟨rest, hrest⟩, hys⟩
    rw [← hrest, List.drop_left] at hys
    rw [← hrest]
    exact (List.prefix_append_right_inj xs).mpr hys

theorem left {xs ys : List α} (h : Placed data offset (xs ++ ys)) : Placed data offset xs :=
  (append_iff.mp h).1

theorem right {xs ys : List α} (h : Placed data offset (xs ++ ys)) :
    Placed data (offset + xs.length) ys :=
  (append_iff.mp h).2

theorem tail {x : α} {xs : List α} (h : Placed data offset (x :: xs)) :
    Placed data (offset + 1) xs := by
  have hone : Placed data offset ([x] ++ xs) := h
  exact hone.right

/-- One piece of a length stands at an offset. -/
theorem unique {piece' : List α} (h : Placed data offset piece) (h' : Placed data offset piece')
    (hlength : piece.length = piece'.length) : piece = piece' :=
  (List.prefix_of_prefix_length_le h h' hlength.le).eq_of_length hlength

/-- A piece of a piece. -/
theorem trans {inner : List α} {start : Nat} (h : Placed data start piece)
    (hinner : Placed piece offset inner) : Placed data (start + offset) inner := by
  unfold Placed at *
  rw [← List.drop_drop]
  exact hinner.trans (h.drop offset)

/-- A piece stands in every sequence that begins the same way, after what they may
    differ in. -/
theorem of_begins {data' : List α} {start : Nat} (h : Placed data offset piece)
    (hsame : data.drop start <+: data'.drop start) (hstart : start ≤ offset) :
    Placed data' offset piece := by
  have hdrop : ∀ xs : List α, xs.drop offset = (xs.drop start).drop (offset - start) := by
    intro xs
    rw [List.drop_drop, Nat.add_sub_cancel' hstart]
  unfold Placed at *
  rw [hdrop] at h ⊢
  exact h.trans (hsame.drop _)

end Placed

end Lib
end NetworkingFinal
