/-
  NetworkingFinal.Client.Rounds

  The rounds of `upload_data`: what it does when a round ends, when it may send, and
  when its pocket is acknowledged or the upload closed.  Then those of `download_data`:
  what it sends, and what it does with a segment and a Close.

  Without an unacknowledged segment there is nothing left to send, so that it goes on
  until a Close arrives, and not longer (`silent_of_step`).
-/
import NetworkingFinal.Client.Download
import NetworkingFinal.Client.Upload
import NetworkingFinal.Ftp.Wire

namespace NetworkingFinal
namespace Client

open Py Ftp

namespace Upload

variable {growth : Int → Nat → Nat} {u u' : Upload} {clk : Readings} {now : Int}

-- ============================================================================
-- One step
-- ============================================================================

/-- The round is over: on to `recvfrom`. -/
theorem step_pause (hphase : u.phase = .head) (hgoing : u.uploading = true)
    (hnow : u.last + u.rtt ≤ now) :
    step growth u (.proceed now) = some { u with phase := .refresh } := by
  rw [step, if_pos hphase, head, if_neg (by simp [hgoing])]
  split
  · rw [if_neg (by omega)]
  · rfl

/-- A timeout after the round trip time ends the refresh. -/
theorem step_timeout (hphase : u.phase = .refresh) (hnow : u.last + u.rtt < clk.now) :
    step growth u (.receive .timeout clk) = some (leaveRefresh growth clk u) := by
  rw [step, if_pos hphase, receive, if_pos hnow]

/-- The window has room again after a refresh. -/
theorem cwnd_leaveRefresh : 0 < (leaveRefresh growth clk u).cwnd := by
  by_cases hempty : u.windowSending = [] <;> simp [leaveRefresh, hempty]

/-- In a round, and with room in the window, the first segment is sent. -/
theorem step_send {k : Nat} {windowToSend : List Nat} {bs : Bytes} (hphase : u.phase = .head)
    (hgoing : u.uploading = true) (hwindow : u.windowToSend = k :: windowToSend)
    (hnow : now < u.last + u.rtt) (hroom : u.windowSending.length < u.cwnd)
    (hbs : (u.segmentPocket k).toBytes = .ok bs) :
    step growth u (.proceed now) = some
      { u with
        windowToSend, windowSending := u.windowSending ++ [k], sent := u.sent ++ [bs] } := by
  have hencodes : ({ u with windowToSend, windowSending := u.windowSending ++ [k] } :
      Upload).segmentPocket k = u.segmentPocket k := rfl
  rw [step, if_pos hphase, head, if_neg (by simp [hgoing]), hwindow]
  dsimp only
  rw [if_pos ⟨hnow, hroom⟩, sendto, hbs]

/-- An ACK takes its id out of the windows. -/
theorem step_akc {data : Bytes} {r k : Nat} (hphase : u.phase = .refresh)
    (hdata : Pocket.fromBytes data = .ok (akcPocket r k)) :
    step growth u (.receive (.datagram data) clk) = some
      { u with
        data := some data, decoded := u.decoded ++ [some data]
        windowToSend := u.windowToSend.erase k, windowSending := u.windowSending.erase k } := by
  rw [step, if_pos hphase, receive, handleData]
  dsimp only
  rw [hdata]
  rfl

/-- A Close ends the upload. -/
theorem step_close {data : Bytes} (hphase : u.phase = .refresh)
    (hdata : Pocket.fromBytes data = .ok closePocket) :
    step growth u (.receive (.datagram data) clk) = some
      (leaveRefresh growth clk
        { u with data := some data, decoded := u.decoded ++ [some data], uploading := false }) := by
  rw [step, if_pos hphase, receive, handleData]
  dsimp only
  rw [hdata]
  rfl

theorem step_return (hphase : u.phase = .head) (hover : u.uploading = false) :
    step growth u (.proceed now) = some { u with phase := .returned } := by
  rw [step, if_pos hphase, head, if_pos hover]

-- ============================================================================
-- The end of an upload
-- ============================================================================

/-- While the upload goes on, the datagram it looked at last was no Close. -/
structure Open (u : Upload) : Prop where
  returned : u.phase = .returned → u.uploading = false
  data : u.uploading = true → ∀ bs, u.data = some bs → ∀ p, Pocket.fromBytes bs = .ok p →
    p.basicLayer.pocketType ≠ .close

theorem open_start {requestID singleSegmentSize segmentsAmount : Nat} {body : Bytes}
    {windowToSend : List Nat} {last : Int} :
    Open { requestID, singleSegmentSize, segmentsAmount, body, windowToSend, last } :=
  ⟨fun hret => (by cases hret), fun _ bs hbs => (by cases hbs)⟩

theorem head_same (now : Int) (u : Upload) :
    (head now u).data = u.data ∧ (head now u).uploading = u.uploading := by
  unfold head
  split
  · exact ⟨rfl, rfl⟩
  · split
    · split
      · unfold sendto
        split <;> exact ⟨rfl, rfl⟩
      · exact ⟨rfl, rfl⟩
    · exact ⟨rfl, rfl⟩

theorem handleData_data : (handleData growth clk u).data = u.data := by
  unfold handleData handlePocket
  split
  · rfl
  · split
    · split
      · rfl
      · split <;> rfl
    · rfl

theorem open_handleData (hgoing : (handleData growth clk u).uploading = true) {bs : Bytes}
    (hbs : (handleData growth clk u).data = some bs) {p : Pocket}
    (hp : Pocket.fromBytes bs = .ok p) : p.basicLayer.pocketType ≠ .close := by
  rw [handleData_data] at hbs
  intro hclose
  simp [handleData, hbs, hp, handlePocket, hclose, leaveRefresh] at hgoing

theorem Open.step (h : Open u) {m : Move} (hstep : step growth u m = some u') : Open u' := by
  refine ⟨(stepped_of_step hstep).returned, fun hgoing bs hbs p hp => ?_⟩
  cases m with
  | proceed now =>
      simp only [Upload.step, Option.ite_none_right_eq_some, Option.some_inj] at hstep
      obtain ⟨-, rfl⟩ := hstep
      obtain ⟨hdata, huploading⟩ := head_same now u
      exact h.data (huploading ▸ hgoing) bs (hdata ▸ hbs) p hp
  | receive input clk =>
      simp only [Upload.step, Option.ite_none_right_eq_some, Option.some_inj] at hstep
      obtain ⟨-, rfl⟩ := hstep
      cases input with
      | osError => exact h.data hgoing bs hbs p hp
      | datagram data => exact open_handleData hgoing hbs hp
      | timeout =>
          unfold receive at hgoing hbs
          simp only at hgoing hbs
          split at hgoing
          · next hover =>
              rw [if_pos hover] at hbs
              exact h.data hgoing bs hbs p hp
          · next hearly =>
              rw [if_neg hearly] at hbs
              exact open_handleData hgoing hbs hp

/-- With every id acknowledged, nothing is sent any more. -/
theorem silent_of_step {m : Move} (hwindow : u.window = []) (hstep : step growth u m = some u') :
    u'.window = [] ∧ u'.sent = u.sent := by
  have hs := stepped_of_step hstep
  refine ⟨List.eq_nil_iff_forall_not_mem.mpr fun k hk => ?_, ?_⟩
  · have hmem := hs.window k hk
    rw [hwindow] at hmem
    cases hmem
  · rcases hs.sent with hsame | ⟨k, hk, -⟩
    · exact hsame
    · rw [hwindow] at hk
      cases hk

end Upload

namespace Download

variable {d : Download}

-- ============================================================================
-- The loops of download_data
-- ============================================================================

theorem start_phase {resPocket : Pocket} (h : start resPocket = .ok d) : d.phase = .sendReady := by
  unfold start at h
  split at h
  · cases h
  · cases h
    rfl

theorem step_ready (hphase : d.phase = .sendReady) {bs : Bytes}
    (hbs : (readyPocket d.requestID).toBytes = .ok bs) (now : Int) :
    d.step (.proceed now) = some { d with sent := d.sent ++ [bs], phase := .awaitFirst } := by
  simp only [step, hphase, sendto, hbs]

/-- The wait for the first segment is over. -/
theorem step_unanswered (hphase : d.phase = .awaitFirst) (clk : Readings) :
    d.step (.receive .timeout clk) = some { d with phase := .sendReady } := by
  simp only [step, hphase, receive]

/-- The wait for the Close is over. -/
theorem step_again (hphase : d.phase = .awaitClose) (clk : Readings) :
    d.step (.receive .timeout clk) = some { d with phase := .sendComplited } := by
  simp only [step, hphase, receive]

theorem step_complited (hphase : d.phase = .sendComplited) {bs : Bytes}
    (hbs : (complitedPocket d.requestID).toBytes = .ok bs) (now : Int) :
    d.step (.proceed now) = some { d with sent := d.sent ++ [bs], phase := .awaitClose } := by
  simp only [step, hphase, sendto, hbs]

theorem step_close (hphase : d.phase = .awaitClose) (clk : Readings) :
    d.step (.receive (.datagram closePocket.datagram) clk) =
      some { d with phase := .returned } := by
  have hdecode : Pocket.fromBytes closePocket.datagram = .ok closePocket := by rfl
  simp only [step, hphase, receive, hdecode]
  rfl

/-- A segment is kept and acknowledged. -/
theorem step_segment (hphase : d.phase = .awaitFirst ∨ d.phase = .collect)
    (hmissing : d.neededSegments ≠ []) {r k : Nat} {data bs akc : Bytes}
    (hbs : (segmentPocket r k data).toBytes = .ok bs)
    (hakc : (akcPocket d.requestID k).toBytes = .ok akc) (clk : Readings) :
    d.step (.receive (.datagram bs) clk) =
      some { d.keep ⟨k, data⟩ with
        sent := d.sent ++ [akc], phase := (d.keep ⟨k, data⟩).collecting } := by
  have hdecode := Pocket.fromBytes_segmentPocket hbs
  have hhandle : d.handlePocket (segmentPocket r k data) =
      { d.keep ⟨k, data⟩ with
        sent := d.sent ++ [akc], phase := (d.keep ⟨k, data⟩).collecting } := by
    show (d.keep ⟨k, data⟩).sendto (akcPocket (d.keep ⟨k, data⟩).requestID k)
      (d.keep ⟨k, data⟩).collecting = _
    rw [keep_requestID, sendto, hakc, keep_sent]
  rcases hphase with hphase | hphase
  · have htype : (segmentPocket r k data).basicLayer.pocketType = .segment := rfl
    simp only [step, hphase, receive, hdecode]
    rw [handleFirst, if_pos htype, if_neg hmissing, hhandle]
  · simp only [step, hphase, receive, hdecode, hhandle]

/-- No segment has arrived yet. -/
def Early (d : Download) : Prop := d.phase = .sendReady ∨ d.phase = .awaitFirst

theorem not_early (hready : d.phase ≠ .sendReady) (hfirst : d.phase ≠ .awaitFirst) : ¬ d.Early :=
  fun hearly => hearly.elim hready hfirst

theorem not_early_collecting {c : Download} (hphase : d.phase = c.collecting) : ¬ d.Early := by
  unfold collecting at hphase
  split at hphase
  · exact not_early (hphase ▸ DownloadPhase.noConfusion) (hphase ▸ DownloadPhase.noConfusion)
  · exact not_early (hphase ▸ DownloadPhase.noConfusion) (hphase ▸ DownloadPhase.noConfusion)

theorem not_early_handlePocket {p : Pocket} : ¬ (d.handlePocket p).Early := by
  unfold handlePocket
  split
  · exact not_early_collecting (c := d) rfl
  · next segment hsegment =>
      split
      · exact not_early_collecting (c := d) rfl
      · dsimp only
        unfold sendto
        split
        · exact not_early_collecting (c := d.keep segment) rfl
        · exact not_early DownloadPhase.noConfusion DownloadPhase.noConfusion

section Receive

variable {handle : Download → Pocket → Download} {again : DownloadPhase} {input : Input}

/-- A `recvfrom` of the first loop keeps nothing. -/
theorem needed_of_receive (hearly : (d.receive handle again input).Early)
    (hhandle : ∀ p, (handle d p).Early → (handle d p).neededSegments = d.neededSegments) :
    (d.receive handle again input).neededSegments = d.neededSegments := by
  cases input with
  | timeout => rfl
  | osError => rfl
  | datagram data =>
      cases hdecode : Pocket.fromBytes data with
      | error e => simp only [receive, hdecode]
      | ok p =>
          simp only [receive, hdecode] at hearly ⊢
          exact hhandle p hearly

/-- The other loops do not lead back to it. -/
theorem not_early_receive (hhandle : ∀ p, ¬ (handle d p).Early) (hready : again ≠ .sendReady)
    (hfirst : again ≠ .awaitFirst) : ¬ (d.receive handle again input).Early := by
  cases input with
  | timeout => exact not_early hready hfirst
  | osError => exact not_early hready hfirst
  | datagram data =>
      cases hdecode : Pocket.fromBytes data with
      | error e =>
          simp only [receive, hdecode]
          exact not_early DownloadPhase.noConfusion DownloadPhase.noConfusion
      | ok p =>
          simp only [receive, hdecode]
          exact hhandle p

end Receive

/-- Nothing is kept before the first segment. -/
theorem early_of_step {d' : Download} {m : Move} (hstep : d.step m = some d') (hearly : d'.Early) :
    d.Early ∧ d'.neededSegments = d.neededSegments := by
  cases hphase : d.phase with
  | sendReady =>
      cases m with
      | proceed now =>
          simp only [step, hphase, Option.some_inj] at hstep
          subst hstep
          refine ⟨Or.inl hphase, ?_⟩
          unfold sendto
          split <;> rfl
      | receive input clk => simp [step, hphase] at hstep
  | awaitFirst =>
      cases m with
      | proceed now => simp [step, hphase] at hstep
      | receive input clk =>
          simp only [step, hphase, Option.some_inj] at hstep
          subst hstep
          refine ⟨Or.inr hphase, needed_of_receive hearly fun p hp => ?_⟩
          unfold handleFirst at hp ⊢
          by_cases htype : p.basicLayer.pocketType = .segment
          · by_cases hneeded : d.neededSegments = []
            · rw [if_pos htype, if_pos hneeded]
            · rw [if_pos htype, if_neg hneeded] at hp
              exact absurd hp not_early_handlePocket
          · rw [if_neg htype]
  | collect =>
      cases m with
      | proceed now => simp [step, hphase] at hstep
      | receive input clk =>
          simp only [step, hphase, Option.some_inj] at hstep
          subst hstep
          exact absurd hearly (not_early_receive (fun _ => not_early_handlePocket)
            DownloadPhase.noConfusion DownloadPhase.noConfusion)
  | sendComplited =>
      cases m with
      | proceed now =>
          simp only [step, hphase, Option.some_inj] at hstep
          subst hstep
          unfold sendto at hearly
          split at hearly
          · exact absurd hearly (not_early DownloadPhase.noConfusion DownloadPhase.noConfusion)
          · exact absurd hearly (not_early DownloadPhase.noConfusion DownloadPhase.noConfusion)
      | receive input clk => simp [step, hphase] at hstep
  | awaitClose =>
      cases m with
      | proceed now => simp [step, hphase] at hstep
      | receive input clk =>
          simp only [step, hphase, Option.some_inj] at hstep
          subst hstep
          refine absurd hearly (not_early_receive (fun p => ?_) DownloadPhase.noConfusion
            DownloadPhase.noConfusion)
          unfold handleClose
          split
          · exact not_early DownloadPhase.noConfusion DownloadPhase.noConfusion
          · exact not_early DownloadPhase.noConfusion DownloadPhase.noConfusion
  | returned => cases m <;> simp [step, hphase] at hstep
  | failed e => cases m <;> simp [step, hphase] at hstep

end Download

end Client
end NetworkingFinal
