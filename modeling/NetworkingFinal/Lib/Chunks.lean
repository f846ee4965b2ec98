/-
  NetworkingFinal.Lib.Chunks

  A list cut into chunks of one size, and put together again from chunks that
  were collected in any order, of each the first one.
-/
import Mathlib.Data.List.Sort
import Mathlib.Data.List.Nodup
import Mathlib.Data.Nat.Basic

namespace NetworkingFinal
namespace Lib

variable {α : Type}

/-- The elements from `k * size` on, at most `size` of them. -/
def chunk (xs : List α) (size k : Nat) : List α := (xs.drop (k * size)).take size

/-- The first `n` chunks are the first `n * size` elements. -/
theorem flatMap_range_chunk (xs : List α) (size n : Nat) :
    (List.range n).flatMap (chunk xs size) = xs.take (n * size) := by
  induction n with
  | zero => simp
  | succ n ih =>
      rw [List.range_succ, List.flatMap_append, ih, List.flatMap_singleton, chunk, ← List.take_add,
        Nat.succ_mul]

/-- Enough chunks are the whole list. -/
theorem flatMap_range_chunk_of_le {xs : List α} {size n : Nat} (h : xs.length ≤ n * size) :
    (List.range n).flatMap (chunk xs size) = xs := by
  rw [flatMap_range_chunk, List.take_of_length_le h]

/-- `n` distinct numbers below `n` are all of them. -/
theorem perm_range_of_nodup {ks : List Nat} {n : Nat} (hnd : ks.Nodup) (hlt : ∀ k ∈ ks, k < n)
    (hlen : ks.length = n) : ks.Perm (List.range n) := by
  have hsub : ks ⊆ List.range n := fun k hk => List.mem_range.mpr (hlt k hk)
  apply (List.subperm_of_subset hnd hsub).perm_of_length_le
  rw [List.length_range, hlen]

theorem insertionSort_eq_range {ks : List Nat} {n : Nat} (hnd : ks.Nodup)
    (hlt : ∀ k ∈ ks, k < n) (hlen : ks.length = n) :
    ks.insertionSort (· ≤ ·) = List.range n := by
  have hperm : (ks.insertionSort (· ≤ ·)).Perm (List.range n) :=
    (List.perm_insertionSort (· ≤ ·) ks).trans (perm_range_of_nodup hnd hlt hlen)
  have hsorted : (ks.insertionSort (· ≤ ·)).Pairwise (· ≤ ·) :=
    List.pairwise_insertionSort (· ≤ ·) ks
  exact hperm.eq_of_pairwise' hsorted List.pairwise_le_range

-- ============================================================================
-- Collected pieces
-- ============================================================================

section Firsts

variable {κ : Type} [DecidableEq κ]

/-- The first element of every key that is not in `seen`. -/
def firsts (key : α → κ) : List κ → List α → List α
  | _, [] => []
  | seen, x :: xs =>
      if key x ∈ seen then firsts key seen xs else x :: firsts key (seen ++ [key x]) xs

theorem firsts_cons_of_mem {key : α → κ} {seen : List κ} {x : α} (xs : List α)
    (h : key x ∈ seen) : firsts key seen (x :: xs) = firsts key seen xs := by
  rw [firsts, if_pos h]

theorem firsts_cons_of_notMem {key : α → κ} {seen : List κ} {x : α} (xs : List α)
    (h : key x ∉ seen) : firsts key seen (x :: xs) = x :: firsts key (seen ++ [key x]) xs := by
  rw [firsts, if_neg h]

end Firsts

end Lib
end NetworkingFinal
