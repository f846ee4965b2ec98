/-
  NetworkingFinal.Client.Window

  The windows of `upload_data` over a run: together they hold the ids whose ACK it
  has not handled, in order, with at most `cwnd` of them in flight.
-/
import NetworkingFinal.Client.Upload
import NetworkingFinal.Lib.Runs
import NetworkingFinal.Lib.Window

namespace NetworkingFinal
namespace Client

open Py Ftp Lib

namespace Upload

/-- The ids a datagram makes `upload_data` drop. -/
def acksOf (data : Bytes) : List Nat :=
  match Pocket.fromBytes data with
  | .ok pocket => acknowledged .close pocket
  | .error _ => []

/-- The ids whose ACK a move makes `upload_data` handle: of the datagram received,
    or, on a timeout that does not end the round, of the last datagram. -/
def acks (u : Upload) : Move → List Nat
  | .receive (.datagram data) _ => acksOf data
  | .receive .timeout clk =>
      if u.last + u.rtt < clk.now then [] else (u.data.map acksOf).getD []
  | .receive .osError _ => []
  | .proceed _ => []

/-- The windows and the datagrams sent, after the ACKs of `acked`. -/
structure Windowed (acked : List Nat) (u : Upload) : Prop where
  window : WindowInv (List.range u.segmentsAmount) acked u.cwnd u.windowSending u.windowToSend
  sent : ∀ bs ∈ u.sent, ∃ k < u.segmentsAmount, (u.segmentPocket k).toBytes = .ok bs

section Steps

variable {u u' : Upload} {acked : List Nat} {clk : Readings} {growth : Int → Nat → Nat}

theorem Windowed.leaveRefresh (h : Windowed acked u) :
    Windowed acked (leaveRefresh growth clk u) where
  window := h.window.requeue
  sent := h.sent

theorem Windowed.handlePocket (h : Windowed acked u) (p : Pocket) :
    Windowed (acked ++ acknowledged .close p) (handlePocket growth clk u p) := by
  unfold Upload.handlePocket acknowledged
  split
  · rw [List.append_nil]
    exact (⟨h.window, h.sent⟩ : Windowed acked { u with uploading := false }).leaveRefresh
  · cases p.akcLayer with
    | none =>
        rw [Option.map_none, Option.toList_none, List.append_nil]
        exact h
    | some layer =>
        exact ⟨h.window.ack List.nodup_range layer.segmentID, h.sent⟩

theorem Windowed.handleData (h : Windowed acked u) :
    Windowed (acked ++ (u.data.map acksOf).getD []) (handleData growth clk u) := by
  have hsame : Windowed acked { u with decoded := u.decoded ++ [u.data] } := ⟨h.window, h.sent⟩
  rw [Upload.handleData]
  split
  · next hnone =>
      have hnothing : (u.data.map acksOf).getD [] = [] := by rw [hnone]; rfl
      rw [hnothing, List.append_nil]
      exact ⟨h.window, h.sent⟩
  · next bs hbs =>
      have hacks : (u.data.map acksOf).getD [] = acksOf bs := by rw [hbs]; rfl
      rw [hacks, acksOf]
      cases Pocket.fromBytes bs with
      | ok p => exact hsame.handlePocket p
      | error e =>
          rw [List.append_nil]
          exact ⟨h.window, h.sent⟩

theorem Windowed.head (h : Windowed acked u) (now : Int) : Windowed acked (head now u) := by
  have hpaused : Windowed acked { u with phase := .refresh } := ⟨h.window, h.sent⟩
  unfold Upload.head
  split
  · exact ⟨h.window, h.sent⟩
  · split
    · next segmentID windowToSend hwindow =>
        split
        · next hroom =>
            have hfirst := h.window
            rw [hwindow] at hfirst
            have hid : segmentID < u.segmentsAmount :=
              List.mem_range.mp (hfirst.mem_of_toSend List.mem_cons_self)
            have hsend := hfirst.send hroom.2
            unfold sendto
            split
            · next bs hbs =>
                refine ⟨hsend, fun bs' hbs' => ?_⟩
                rcases List.mem_append.mp hbs' with hold | hnew
                · exact h.sent bs' hold
                · exact ⟨segmentID, hid, List.mem_singleton.mp hnew ▸ hbs⟩
            · exact ⟨hsend, h.sent⟩
        · exact hpaused
    · exact hpaused

theorem Windowed.step (h : Windowed acked u) {m : Move} (hstep : step growth u m = some u') :
    Windowed (acked ++ u.acks m) u' := by
  cases m with
  | proceed now =>
      simp only [Upload.step, Option.ite_none_right_eq_some, Option.some_inj] at hstep
      rw [← hstep.2, acks, List.append_nil]
      exact h.head now
  | receive input clk =>
      simp only [Upload.step, Option.ite_none_right_eq_some, Option.some_inj] at hstep
      obtain ⟨-, rfl⟩ := hstep
      have hfailed : ∀ e, Windowed (acked ++ []) { u with phase := .failed e } := by
        intro e
        rw [List.append_nil]
        exact ⟨h.window, h.sent⟩
      cases input with
      | datagram data =>
          exact (⟨h.window, h.sent⟩ : Windowed acked { u with data := some data }).handleData
      | osError => exact hfailed _
      | timeout =>
          simp only [acks, receive]
          split
          · rw [List.append_nil]
            exact h.leaveRefresh
          · exact h.handleData

end Steps

/-- The fresh upload has every id in its second window. -/
theorem windowed_start {resPocket : Pocket} {body : Bytes} {now : Int} {u : Upload}
    (h : start resPocket body now = .ok u) : Windowed [] u := by
  unfold start at h
  split at h
  · cases h
  · next layer hlayer =>
      cases h
      exact ⟨WindowInv.start _ _, fun bs hbs => by cases hbs⟩

theorem sameJob_of_exec {growth : Int → Nat → Nat} {u u' : Upload} {ms : List Move}
    (h : exec (step growth) u ms = some u') : SameJob u u' :=
  exec_invariant (SameJob u) ⟨rfl, rfl, rfl, rfl⟩ (fun _ _ _ hjob hstep =>
    have hs := (stepped_of_step hstep).job
    ⟨hs.requestID.trans hjob.requestID, hs.singleSegmentSize.trans hjob.singleSegmentSize,
      hs.segmentsAmount.trans hjob.segmentsAmount, hs.body.trans hjob.body⟩) h

/-- After any run the windows hold what the handled ACKs left. -/
theorem windowed_of_exec {growth : Int → Nat → Nat} {resPocket : Pocket} {body : Bytes}
    {now : Int} {u u' : Upload} {ms : List Move} (hstart : start resPocket body now = .ok u)
    (h : exec (step growth) u ms = some u') :
    Windowed (observed (step growth) acks u ms) u' := by
  refine exec_history (fun ms v => Windowed (observed (step growth) acks u ms) v)
    (windowed_start hstart) (fun ms v m w hv hwin hstep => ?_) h
  rw [observed_concat hv]
  exact hwin.step hstep

end Upload

end Client
end NetworkingFinal
