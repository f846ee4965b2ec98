/-
  NetworkingFinal.Client.Decoding

  Which data `upload_data` decodes.

  A timeout in its inner loop is meant to end the round.  It does so only when the
  round trip time of the last round is over; otherwise the loop decodes the variable
  `data`: the last datagram once more or, before the first one, an unbound variable.
  `decoded_eq_received_iff` says when the decoded data are the datagrams received.
-/
import NetworkingFinal.Client.Rudp
import NetworkingFinal.Lib.Runs

namespace NetworkingFinal
namespace Client

open Py Ftp Lib

/-- The datagram a move hands over. -/
def Move.received : Move → List Bytes
  | .receive (.datagram data) _ => [data]
  | _ => []

namespace Upload

/-- A timeout comes when the round trip time is over. -/
def RoundOver (u : Upload) : Move → Prop
  | .receive .timeout clk => u.last + u.rtt < clk.now
  | _ => True

instance (u : Upload) : (m : Move) → Decidable (RoundOver u m)
  | .receive .timeout clk => inferInstanceAs (Decidable (u.last + u.rtt < clk.now))
  | .receive (.datagram _) _ => isTrue trivial
  | .receive .osError _ => isTrue trivial
  | .proceed _ => isTrue trivial

section Steps

variable {growth : Int → Nat → Nat} {u u' : Upload} {clk : Readings} {m : Move}

@[simp] theorem decoded_head (now : Int) : (head now u).decoded = u.decoded := by
  unfold head sendto
  split
  · rfl
  · split
    · split
      · split <;> rfl
      · rfl
    · rfl

@[simp] theorem decoded_handlePocket (p : Pocket) :
    (handlePocket growth clk u p).decoded = u.decoded := by
  unfold handlePocket
  split
  · rfl
  · split <;> rfl

/-- The variable is decoded once, whatever it holds. -/
@[simp] theorem decoded_handleData :
    (handleData growth clk u).decoded = u.decoded ++ [u.data] := by
  unfold handleData
  split
  · rfl
  · split
    · rw [decoded_handlePocket]
    · rfl

/-- What a step decodes: the datagram it receives, and on a timeout that does not end the
    round the variable as it is. -/
theorem decoded_of_step (h : step growth u m = some u') :
    (u.RoundOver m → u'.decoded = u.decoded ++ m.received.map some) ∧
      (¬ u.RoundOver m → u'.decoded = u.decoded ++ [u.data] ∧ m.received = []) := by
  cases m with
  | proceed now =>
      simp only [step, Option.ite_none_right_eq_some, Option.some_inj] at h
      obtain ⟨-, rfl⟩ := h
      exact ⟨fun _ => by simp [Move.received], fun hover => absurd trivial hover⟩
  | receive input clk =>
      simp only [step, Option.ite_none_right_eq_some, Option.some_inj] at h
      obtain ⟨-, rfl⟩ := h
      cases input with
      | datagram data =>
          exact ⟨fun _ => decoded_handleData, fun hover => absurd trivial hover⟩
      | osError =>
          exact ⟨fun _ => (List.append_nil _).symm, fun hover => absurd trivial hover⟩
      | timeout =>
          refine ⟨fun hover => ?_, fun hearly => ⟨?_, rfl⟩⟩
          · have hover : u.last + u.rtt < clk.now := hover
            rw [receive, if_pos hover]
            exact (List.append_nil _).symm
          · have hearly : ¬ u.last + u.rtt < clk.now := hearly
            rw [receive, if_neg hearly, decoded_handleData]

end Steps

/-- **What is decoded is what was received**: along a run `upload_data` decodes the
    datagrams received, each once and in their order, and nothing else, exactly when
    every timeout comes after the round trip time of its round. -/
theorem decoded_eq_received_iff {resPocket : Pocket} {body : Bytes} {now : Int} {u w : Upload}
    {growth : Int → Nat → Nat} {ms : List Move} (hstart : start resPocket body now = .ok u)
    (hrun : exec (step growth) u ms = some w) :
    w.decoded = (ms.flatMap Move.received).map some ↔ AllSteps (step growth) RoundOver u ms := by
  have hnone : u.decoded = [] := by
    unfold start at hstart
    split at hstart
    · cases hstart
    · cases hstart
      rfl
  have hlog := exec_log_iff decoded (fun m => m.received.map some)
    (fun _ _ _ hover hstep => (decoded_of_step hstep).1 hover) (fun u m u' hearly hstep => ?_) hrun
  · rw [hnone, List.nil_append] at hlog
    rw [List.map_flatMap, hlog]
  · obtain ⟨hmore, hnothing⟩ := (decoded_of_step hstep).2 hearly
    rw [hmore, hnothing, List.length_append]
    exact Nat.lt_succ_self _

/-- The Response to an upload of one segment. -/
def oneSegment : Pocket :=
  { basicLayer := ⟨1, .response, .upload⟩, responseLayer := some ⟨true, [], 1, 1, 1500⟩ }

/-- A segment is sent, its round ends with a timeout, and its ACK comes in the next one. -/
def lateRun : List Move :=
  [.proceed 0, .proceed 1, .receive .timeout ⟨100001, 100001, 100001⟩, .proceed 100001,
    .proceed 100002, .receive (.datagram (akcPocket 1 0).datagram) ⟨200002, 200002, 200002⟩]

theorem decoded_eq_received_lateRun :
    ∃ u w, start oneSegment [7] 0 = .ok u ∧
      exec (step fun _ cwndMax => cwndMax) u lateRun = some w ∧
      w.decoded = [some (akcPocket 1 0).datagram] := by
  obtain ⟨u, hu⟩ : ∃ u, start oneSegment [7] 0 = .ok u := ⟨_, rfl⟩
  have hcheck : (exec (step fun _ cwndMax => cwndMax) u lateRun).isSome = true ∧
      AllSteps (step fun _ cwndMax => cwndMax) RoundOver u lateRun := by
    cases hu
    decide
  obtain ⟨w, hw⟩ := Option.isSome_iff_exists.mp hcheck.1
  exact ⟨u, w, hu, hw, (decoded_eq_received_iff hu hw).mpr hcheck.2⟩

-- ============================================================================
-- Clocks
-- ============================================================================

/-- The clock never goes back along the moves, from the reading `t` on, and a timeout
    comes at least `SOCKET_TIMEOUT` after the reading before it. -/
def Timely : Int → List Move → Prop
  | _, [] => True
  | t, .proceed now :: ms => t ≤ now ∧ Timely now ms
  | t, .receive input clk :: ms =>
      t ≤ clk.now ∧ clk.now ≤ clk.rttEnd ∧ clk.rttEnd ≤ clk.lastEnd ∧
        (input = .timeout → t + SOCKET_TIMEOUT ≤ clk.now) ∧ Timely clk.lastEnd ms

/-- The segment is lost twice.  The first round ends with a timeout and takes a little
    longer than `SOCKET_TIMEOUT`, so that the timeout of the second comes too early. -/
def lostRun : List Move :=
  [.proceed 0, .proceed 1, .receive .timeout ⟨100001, 100001, 100001⟩,
    .proceed 100001, .proceed 100002, .receive .timeout ⟨200002, 200002, 200002⟩]

/-- `upload_data` decodes a variable that is not bound, and fails. -/
theorem not_decoded_eq_received_lostRun :
    (∃ u w, start oneSegment [7] 0 = .ok u ∧ Timely 0 lostRun ∧
      exec (step fun _ cwndMax => cwndMax) u lostRun = some w ∧
      w.phase = .failed .unboundLocalError ∧ w.decoded = [none] ∧
      lostRun.flatMap Move.received = []) ∧
    ¬ ∀ (resPocket : Pocket) (body : Bytes) (now : Int) (u w : Upload) (growth : Int → Nat → Nat)
      (ms : List Move), start resPocket body now = .ok u → Timely now ms →
      exec (step growth) u ms = some w → w.decoded = (ms.flatMap Move.received).map some := by
  have hlost : ∃ u w, start oneSegment [7] 0 = .ok u ∧ Timely 0 lostRun ∧
      exec (step fun _ cwndMax => cwndMax) u lostRun = some w ∧
      w.phase = .failed .unboundLocalError ∧ w.decoded = [none] ∧
      lostRun.flatMap Move.received = [] := by
    obtain ⟨u, hu⟩ : ∃ u, start oneSegment [7] 0 = .ok u := ⟨_, rfl⟩
    have htimely : Timely 0 lostRun := by
      simp [Timely, lostRun, SOCKET_TIMEOUT]
    have hcheck : (exec (step fun _ cwndMax => cwndMax) u lostRun).map
        (fun w => (w.phase, w.decoded)) = some (.failed .unboundLocalError, [none]) := by
      cases hu
      decide
    obtain ⟨w, hw, hfacts⟩ := Option.map_eq_some_iff.mp hcheck
    obtain ⟨hphase, hdecoded⟩ := Prod.mk.inj hfacts
    exact ⟨u, w, hu, htimely, hw, hphase, hdecoded, rfl⟩
  refine ⟨hlost, fun hall => ?_⟩
  obtain ⟨u, w, hu, htimely, hw, -, hdecoded, hnothing⟩ := hlost
  have heq := hall oneSegment [7] 0 u w _ lostRun hu htimely hw
  rw [hdecoded, hnothing] at heq
  cases heq

end Upload

end Client
end NetworkingFinal
