/-
  NetworkingFinal.Lib.Window

  The two windows of a sender that works through a list of ids: what is in flight
  and what waits.  Sending moves the first waiting id to the end of the ids in
  flight, an acknowledgement takes an id out of both, and a requeue puts the ids in
  flight back in front.

  In any order of these the two windows together are the ids that are not
  acknowledged, in the order of the list.
-/
import Mathlib.Data.List.Nodup

namespace NetworkingFinal
namespace Lib

variable {α : Type} [DecidableEq α]

/-- The elements of `xs` that are not acknowledged. -/
def unacked (xs acked : List α) : List α := xs.filter (· ∉ acked)

@[simp] theorem unacked_nil (xs : List α) : unacked xs [] = xs := by
  simp [unacked]

theorem mem_unacked {xs acked : List α} {x : α} : x ∈ unacked xs acked ↔ x ∈ xs ∧ x ∉ acked := by
  rw [unacked, List.mem_filter, decide_eq_true_iff]

theorem unacked_concat {xs : List α} (hnd : xs.Nodup) (acked : List α) (x : α) :
    unacked xs (acked ++ [x]) = (unacked xs acked).erase x := by
  have hrest : (unacked xs acked).Nodup := hnd.filter _
  rw [hrest.erase_eq_filter, unacked, unacked, List.filter_filter]
  refine List.filter_congr fun y _ => ?_
  rw [Bool.eq_iff_iff]
  simp [and_comm]

/-- Taking an element out of both halves takes it out of the whole. -/
theorem erase_append_erase {ys zs : List α} (hnd : (ys ++ zs).Nodup) (x : α) :
    ys.erase x ++ zs.erase x = (ys ++ zs).erase x := by
  rw [List.erase_append]
  split
  · next hmem => rw [List.erase_of_not_mem (List.disjoint_of_nodup_append hnd hmem)]
  · next hmem => rw [List.erase_of_not_mem hmem]

/-- The windows over the ids `xs`, with at most `limit` ids in flight. -/
structure WindowInv (xs acked : List α) (limit : Nat) (sending toSend : List α) : Prop where
  ids : sending ++ toSend = unacked xs acked
  room : sending.length ≤ limit

namespace WindowInv

variable {xs acked sending toSend : List α} {limit limit' : Nat} {x : α}

theorem start (xs : List α) (limit : Nat) : WindowInv xs [] limit [] xs where
  ids := (unacked_nil xs).symm
  room := Nat.zero_le _

theorem send (h : WindowInv xs acked limit sending (x :: toSend)) (hroom : sending.length < limit) :
    WindowInv xs acked limit (sending ++ [x]) toSend where
  ids := by rw [List.append_assoc, List.singleton_append, h.ids]
  room := by
    rw [List.length_append]
    exact hroom

theorem ack (h : WindowInv xs acked limit sending toSend) (hnd : xs.Nodup) (x : α) :
    WindowInv xs (acked ++ [x]) limit (sending.erase x) (toSend.erase x) where
  ids := by
    have hboth : (sending ++ toSend).Nodup := h.ids ▸ hnd.filter _
    rw [erase_append_erase hboth, h.ids, unacked_concat hnd]
  room := Nat.le_trans List.erase_sublist.length_le h.room

theorem requeue (h : WindowInv xs acked limit sending toSend) :
    WindowInv xs acked limit' [] (sending ++ toSend) where
  ids := h.ids
  room := Nat.zero_le _

theorem mem_of_toSend (h : WindowInv xs acked limit sending toSend) (hx : x ∈ toSend) :
    x ∈ xs := by
  have hmem : x ∈ sending ++ toSend := List.mem_append_right _ hx
  rw [h.ids, mem_unacked] at hmem
  exact hmem.1

/-- The windows keep the order of the ids. -/
theorem pairwise {R : α → α → Prop} (h : WindowInv xs acked limit sending toSend)
    (hxs : xs.Pairwise R) : (sending ++ toSend).Pairwise R := by
  rw [h.ids]
  exact hxs.filter _

end WindowInv

end Lib
end NetworkingFinal
