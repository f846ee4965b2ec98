/-
  NetworkingFinal.App.TaskEffect

  Everything one step of a download worker can do.

  A step changes at most the handler stored under the task's key, and does at
  most one action.  `TaskEffect` has one constructor for each way a step can go;
  a step that fails leaves no task (`none`).
-/
import NetworkingFinal.App.Effect

namespace NetworkingFinal
namespace App

open Py Py.Prog Ftp

variable {env : Env} {clk : Readings}

/-- The process with other handlers and more actions. -/
def Server.advanced (s : Server) (handlers : Dict Nat Handler) (new : List Action) : Server :=
  { s with handlers, app := { s.app with log := s.app.log ++ new } }

/-- The handler after a segment id moved from the first window to the second. -/
def DownloadRequestHandler.shift (h : DownloadRequestHandler) (segmentID : Nat)
    (windowToSend : List Nat) : DownloadRequestHandler :=
  { h with windowToSend, windowSending := h.windowSending ++ [segmentID] }

/-- The Segment a task sends for an id. -/
def taskPocket (h : DownloadRequestHandler) (t : Task) (segmentID : Nat) : Pocket :=
  segmentPocket h.requestID segmentID (segmentOf h.data t.dataSize t.singleSegmentSize segmentID)

/-- What a step of the task `t` leads to: the task after it, the handlers after it,
    and its actions. -/
inductive TaskEffect (clk : Readings) (s : Server) (t : Task) :
    Option Task → Dict Nat Handler → List Action → Prop
  | failed : TaskEffect clk s t none s.handlers []
  | began {h : DownloadRequestHandler} {res : Pocket} {layer : ResponseLayer} {last : Int}
      (phase : t.phase = .start)
      (found : s.handlers.get? t.key = some (.download h))
      (response : h.response = some res)
      (sizes : res.responseLayer = some layer) :
      TaskEffect clk s t
        (some { t with
          phase := .head, singleSegmentSize := layer.singleSegmentSize,
          segmentsAmount := layer.segmentsAmount, dataSize := h.data.length, last })
        s.handlers []
  | finished (phase : t.phase = .head) (ended : t.downloading = false) :
      TaskEffect clk s t (some { t with phase := .closing }) s.handlers []
  | sent {h : DownloadRequestHandler} {segmentID : Nat} {windowToSend : List Nat} {a : Addr}
      (phase : t.phase = .head) (going : t.downloading = true)
      (found : s.handlers.get? t.key = some (.download h))
      (window : h.windowToSend = segmentID :: windowToSend)
      (room : t.last + t.rtt > clk.now ∧ h.windowSending.length < t.cwnd)
      (address : s.clientAddress = some a)
      (encoded : ∃ bs, (taskPocket h t segmentID).toBytes = .ok bs) :
      TaskEffect clk s t (some t)
        (s.handlers.set t.key (.download (h.shift segmentID windowToSend)))
        [.sent (taskPocket h t segmentID) a]
  /-- the segment could not be sent -/
  | dropped {h : DownloadRequestHandler} {segmentID : Nat} {windowToSend : List Nat}
      (phase : t.phase = .head) (going : t.downloading = true)
      (found : s.handlers.get? t.key = some (.download h))
      (window : h.windowToSend = segmentID :: windowToSend) :
      TaskEffect clk s t none
        (s.handlers.set t.key (.download (h.shift segmentID windowToSend))) []
  | paused (phase : t.phase = .head) (going : t.downloading = true) :
      TaskEffect clk s t (some { t with phase := .refresh }) s.handlers []
  | received {h : DownloadRequestHandler} {pocket : Pocket} {pockets : List Pocket}
      (phase : t.phase = .refresh)
      (found : s.handlers.get? t.key = some (.download h))
      (queue : h.pockets = pocket :: pockets) :
      TaskEffect clk s t (some (t.afterPocket pocket))
        (s.handlers.set t.key (.download (receivePocket { h with pockets } pocket))) []
  | requeued {h : DownloadRequestHandler} {cwnd cwndMax : Nat} {rtt last : Int}
      (phase : t.phase = .refresh)
      (found : s.handlers.get? t.key = some (.download h))
      (queue : h.pockets = []) :
      TaskEffect clk s t (some { t with phase := .head, cwnd, cwndMax, rtt, last })
        (s.handlers.set t.key (.download (requeue h))) []
  | waiting (phase : t.phase = .refresh) : TaskEffect clk s t (some t) s.handlers []
  | closed {h : DownloadRequestHandler}
      (phase : t.phase = .closing)
      (found : s.handlers.get? t.key = some (.download h)) :
      TaskEffect clk s t (some { t with phase := .leaving }) s.handlers
        [.sent closePocket h.clientAddress]
  | left {h : DownloadRequestHandler}
      (phase : t.phase = .leaving)
      (found : s.handlers.get? t.key = some (.download h)) :
      TaskEffect clk s t (some { t with phase := .ended }) (s.handlers.erase h.requestID) []
  | halted (dead : t.live = false) : TaskEffect clk s t (some t) s.handlers []

/-- A lookup of the step that would fail. -/
def TaskLookupFails (s : Server) (t : Task) : Prop :=
  s.handlers.get? t.key = none ∨
    ∃ h, s.handlers.get? t.key = some (.download h) ∧ h.requestID ≠ t.key

def TaskReturned (clk : Readings) (s : Server) (t t' : Task) (u : Server) : Prop :=
  ∃ hs new, TaskEffect clk s t (some t') hs new ∧ u = s.advanced hs new

def TaskFailed (clk : Readings) (s : Server) (t : Task) (e : Exn) (u : Server) : Prop :=
  (∃ hs new, TaskEffect clk s t none hs new ∧ u = s.advanced hs new) ∧
    (e = .keyError → TaskLookupFails s t)

theorem Server.advanced_self (s : Server) : s.advanced s.handlers [] = s := by
  simp [advanced]

/-- A step that changes nothing and fails. -/
theorem taskFailed_of {s : Server} {t : Task} {e : Exn}
    (h : e = .keyError → TaskLookupFails s t) : TaskFailed clk s t e s :=
  ⟨⟨s.handlers, [], .failed, s.advanced_self.symm⟩, h⟩

theorem wp_getDownload {Q : DownloadRequestHandler → Server → Prop} {s : Server} {t : Task}
    (hQ : ∀ h, s.handlers.get? t.key = some (.download h) → Q h s) :
    wp (getDownload t.key) Q (TaskFailed clk s t) s := by
  rw [getDownload, wp_bind, wp_getHandler]
  refine ⟨fun h hh => ?_, fun hnone => taskFailed_of fun _ => Or.inl hnone⟩
  cases h with
  | upload h => exact taskFailed_of fun hk => absurd hk Exn.noConfusion
  | download h => exact hQ h hh

section Phases

variable {s : Server} {t : Task}

theorem wp_taskStart (hphase : t.phase = .start) :
    wp (taskStart clk t) (TaskReturned clk s t) (TaskFailed clk s t) s := by
  rw [taskStart, wp_bind]
  refine wp_getDownload fun h hh => ?_
  split
  · exact taskFailed_of fun hk => absurd hk Exn.noConfusion
  · next layer hlayer =>
      obtain ⟨res, hres, hsizes⟩ := Option.bind_eq_some_iff.mp hlayer
      exact ⟨_, _, .began hphase hh hres hsizes, s.advanced_self.symm⟩

theorem wp_taskHead (hphase : t.phase = .head) :
    wp (taskHead clk t) (TaskReturned clk s t) (TaskFailed clk s t) s := by
  refine wp_ite.mpr ⟨fun hover => ⟨_, _, .finished hphase hover, s.advanced_self.symm⟩,
    fun hgoing => ?_⟩
  rw [Bool.not_eq_false] at hgoing
  have hpaused : TaskReturned clk s t { t with phase := .refresh } s :=
    ⟨_, _, .paused hphase hgoing, s.advanced_self.symm⟩
  rw [wp_bind]
  refine wp_getDownload fun h hh => ?_
  split
  · next segmentID windowToSend hwindow =>
      refine wp_ite.mpr ⟨fun hroom => ?_, fun _ => hpaused⟩
      have hdropped : ∀ e, NotKeyError e → TaskFailed clk s t e (s.advanced
          (s.handlers.set t.key (.download (h.shift segmentID windowToSend))) []) :=
        fun e he => ⟨⟨_, _, .dropped hphase hgoing hh hwindow, rfl⟩, fun hk => absurd hk he⟩
      rw [wp_bind, wp_setHandler, wp_bind, wp_get]
      split
      · simpa [Server.advanced, DownloadRequestHandler.shift] using
          hdropped .unboundLocalError Exn.noConfusion
      · next a ha =>
          rw [wp_bind, wp_onApp, wp_sendto]
          refine ⟨fun bs hbs => ?_, fun e he => ?_⟩
          · exact ⟨_, _, .sent hphase hgoing hh hwindow hroom ha ⟨bs, hbs⟩, rfl⟩
          · simpa [Server.advanced, DownloadRequestHandler.shift] using
              hdropped e (Pocket.fails_toBytes notKeyError_of_codec _ e he)
  · exact hpaused

theorem wp_taskRefresh (hphase : t.phase = .refresh) :
    wp (taskRefresh env clk t) (TaskReturned clk s t) (TaskFailed clk s t) s := by
  rw [taskRefresh, wp_bind]
  refine wp_getDownload fun h hh => ?_
  split
  · next pocket pockets hqueue =>
      refine ⟨_, _, .received hphase hh hqueue, ?_⟩
      simp [Server.advanced]
  · next hqueue =>
      refine wp_ite.mpr ⟨fun _ => ?_, fun _ => ⟨_, _, .waiting hphase, s.advanced_self.symm⟩⟩
      refine ⟨_, _, .requeued hphase hh hqueue, ?_⟩
      simp [Server.advanced]

theorem wp_taskClose (hphase : t.phase = .closing) :
    wp (taskClose t) (TaskReturned clk s t) (TaskFailed clk s t) s := by
  rw [taskClose, wp_bind]
  refine wp_getDownload fun h hh => ?_
  rw [wp_bind]
  refine wp_serverSendto ⟨_, _, .closed hphase hh, rfl⟩ fun e he => ?_
  exact taskFailed_of fun hk => absurd hk he

theorem wp_taskLeave (hphase : t.phase = .leaving) :
    wp (taskLeave t) (TaskReturned clk s t) (TaskFailed clk s t) s := by
  rw [taskLeave, wp_bind]
  refine wp_getDownload fun h hh => ?_
  rw [wp_bind, wp_popHandler]
  refine ⟨fun g _ => ⟨_, _, .left hphase hh, ?_⟩, fun hnone => taskFailed_of fun _ => ?_⟩
  · simp [Server.advanced]
  · refine Or.inr ⟨h, hh, fun hk => ?_⟩
    rw [hk, hh] at hnone
    cases hnone

/-- Every step of a worker has one of the effects. -/
theorem wp_taskStep : wp (taskStep env clk t) (TaskReturned clk s t) (TaskFailed clk s t) s := by
  unfold taskStep
  split
  · next h => exact wp_taskStart h
  · next h => exact wp_taskHead h
  · next h => exact wp_taskRefresh h
  · next h => exact wp_taskClose h
  · next h => exact wp_taskLeave h
  · next h => exact ⟨_, _, .halted (by simp [Task.live, h]), s.advanced_self.symm⟩
  · next h => exact ⟨_, _, .halted (by simp [Task.live, h]), s.advanced_self.symm⟩

end Phases

end App
end NetworkingFinal
