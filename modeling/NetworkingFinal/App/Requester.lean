/-
  NetworkingFinal.App.Requester

  Where the segments of a download go.

  `downloading_task` is nested in `main_loop` and sends to the variable
  `clientAddress` it captures, which every datagram the loop receives assigns
  anew.  So a segment goes to whoever was heard from last
  (`clientAddress_eq_lastSource`), and to the client that opened the download
  exactly when that was the client itself (`toRequester_iff`).
-/
import NetworkingFinal.App.RequestTable

namespace NetworkingFinal
namespace App

open Py Py.Prog Ftp Lib

variable {env : Env}

-- ============================================================================
-- The captured variable
-- ============================================================================

/-- The address the last datagram of a history came from. -/
def lastSource (es : List Event) : Option Addr :=
  es.foldl (fun a e => match e with
    | .recv _ source _ => some source
    | _ => a) none

theorem lastSource_concat (es : List Event) (e : Event) :
    lastSource (es ++ [e]) = match e with
      | .recv _ source _ => some source
      | _ => lastSource es := by
  rw [lastSource, List.foldl_append]
  rfl

/-- The variable the tasks capture holds the last source. -/
theorem clientAddress_eq_lastSource {fs : FileTree} {es : List Event} {s : Server}
    (h : exec (step env) (Server.init fs) es = some s) : s.clientAddress = lastSource es := by
  apply exec_history (fun es s => s.clientAddress = lastSource es) rfl ?_ h
  intro es s e t _ hs hstep
  rw [lastSource_concat]
  cases e with
  | recv data a amb =>
      obtain ⟨-, hrecv⟩ := step_recv hstep
      cases hrecv with
      | quiet tables log clientAddress stopped => exact clientAddress
      | turn decoded effect log resent clientAddress returned raised => exact clientAddress
  | timeout =>
      rw [step_timeout hstep]
      exact hs
  | task i clk =>
      obtain ⟨task, task', result, hd, new, -, -, -, -, rfl⟩ := (step_task hstep).effect
      exact hs

-- ============================================================================
-- Sending a segment
-- ============================================================================

/-- The worker at position `i` is about to send the next segment of `h`: its task
    is at the top of the loop, within its round trip time and its window, and the
    segment encodes. -/
def Sending (s : Server) (i : Nat) (clk : Readings) (h : DownloadRequestHandler) : Prop :=
  ∃ t segmentID windowToSend, s.tasks[i]? = some t ∧ t.phase = .head ∧ t.downloading = true ∧
    s.handlers.get? t.key = some (.download h) ∧
    h.windowToSend = segmentID :: windowToSend ∧
    (t.last + t.rtt > clk.now ∧ h.windowSending.length < t.cwnd) ∧
    ∃ bs, (taskPocket h t segmentID).toBytes = .ok bs

/-- The actions of a step from `s` to `t`. -/
def newActions (s t : Server) : List Action := t.app.log.drop s.app.log.length

/-- The task at position `i` works on the download `h`. -/
def WorksOn (s : Server) (i : Nat) (h : DownloadRequestHandler) : Prop :=
  ∃ t, s.tasks[i]? = some t ∧ s.handlers.get? t.key = some (.download h)

theorem WorksOn.unique {s : Server} {i : Nat} {h h' : DownloadRequestHandler}
    (hw : WorksOn s i h) (hw' : WorksOn s i h') : h = h' := by
  obtain ⟨t, ht, hh⟩ := hw
  obtain ⟨t', ht', hh'⟩ := hw'
  rw [ht] at ht'
  cases ht'
  rw [hh] at hh'
  cases hh'
  rfl

theorem Sending.worksOn {s : Server} {i : Nat} {clk : Readings} {h : DownloadRequestHandler}
    (hs : Sending s i clk h) : WorksOn s i h := by
  obtain ⟨t, -, -, ht, -, -, hh, -⟩ := hs
  exact ⟨t, ht, hh⟩

theorem sendto_of_ok {p : Pocket} {a : Addr} {bs : Bytes} (h : p.toBytes = .ok bs) (s : State) :
    sendto p a s = .ok () { s with log := s.log ++ [.sent p a] } := by
  simp [sendto, lift, reads, record, bind_apply, h]

/-- What a worker sends while it is about to send a segment. -/
theorem Sending.sends {s t : Server} {i : Nat} {clk : Readings} {h : DownloadRequestHandler}
    {a : Addr} (hs : Sending s i clk h) (ha : s.clientAddress = some a)
    (hstep : step env s (.task i clk) = some t) :
    ∃ p, p.basicLayer.pocketType = .segment ∧ .sent p a ∈ newActions s t := by
  obtain ⟨task, segmentID, windowToSend, htask, hphase, hgoing, hh, hwindow, hroom, bs, hbs⟩ := hs
  have hrun : taskStep env clk task s = .ok task
      (s.advanced (s.handlers.set task.key (.download (h.shift segmentID windowToSend)))
        [.sent (taskPocket h task segmentID) a]) := by
    have hget : getDownload task.key s = .ok h s := by
      simp [getDownload, getHandler, reads, hh, bind_apply]
    have hsend : ∀ u : Server, onApp (sendto (taskPocket h task segmentID) a) u =
        .ok () (u.logged [.sent (taskPocket h task segmentID) a]) := by
      intro u
      rw [onApp, zoom, show sendto (taskPocket h task segmentID) a (appLens.get u) = _ from
        sendto_of_ok hbs _]
      rfl
    simp only [taskStep, hphase, taskHead, hgoing, Bool.true_eq_false, if_false]
    rw [bind_of_ok hget]
    simp only [hwindow, if_pos hroom, setHandler, bind_apply, modify_apply, get_apply, ha]
    rw [show segmentPocket h.requestID segmentID _ = taskPocket h task segmentID from rfl, hsend]
    simp [Server.logged, Server.advanced, DownloadRequestHandler.shift, ha]
  simp only [step, htask] at hstep
  split at hstep
  · rw [hrun, Option.some_inj] at hstep
    refine ⟨taskPocket h task segmentID, rfl, ?_⟩
    rw [← hstep]
    simp [newActions, afterTask, Server.advanced]
  · cases hstep

/-- A worker that sends a segment was about to, and sends it to the captured
    address. -/
theorem sending_of_segment {s t : Server} {i : Nat} {clk : Readings}
    {h : DownloadRequestHandler} {p : Pocket} {dest : Addr}
    (hstep : step env s (.task i clk) = some t) (hw : WorksOn s i h)
    (hp : p.basicLayer.pocketType = .segment) (hsent : .sent p dest ∈ newActions s t) :
    Sending s i clk h ∧ s.clientAddress = some dest := by
  obtain ⟨task, task', result, hd, new, -, htask, -, heff, rfl⟩ := (step_task hstep).effect
  have hnew : .sent p dest ∈ new := by
    simpa [newActions, Server.advanced] using hsent
  cases heff with
  | @sent g segmentID windowToSend a phase going found window room address encoded =>
      have hsending : Sending s i clk g :=
        ⟨task, segmentID, windowToSend, htask, phase, going, found, window, room, encoded⟩
      have hg : g = h := hsending.worksOn.unique hw
      have hdest := List.mem_singleton.mp hnew
      cases hdest
      rw [← hg]
      exact ⟨hsending, address⟩
  | closed phase found =>
      have hclose := List.mem_singleton.mp hnew
      cases hclose
      cases hp
  | _ => cases hnew

-- ============================================================================
-- Runs
-- ============================================================================

/-- In the run `es`, every Segment that the task of a download sends goes to the
    address that opened the download. -/
def ToRequester (env : Env) (fs : FileTree) (es : List Event) : Prop :=
  ∀ es₁ i clk es₂ s t, es = es₁ ++ .task i clk :: es₂ →
    exec (step env) (Server.init fs) es₁ = some s → step env s (.task i clk) = some t →
    ∀ h p dest, WorksOn s i h → p.basicLayer.pocketType = .segment →
      .sent p dest ∈ newActions s t → dest = h.clientAddress

/-- Whenever a worker is about to send a segment in the run `es`, the last datagram
    came from the client that opened the download. -/
def RequesterLast (env : Env) (fs : FileTree) (es : List Event) : Prop :=
  ∀ es₁ i clk es₂ s, es = es₁ ++ .task i clk :: es₂ →
    exec (step env) (Server.init fs) es₁ = some s →
    ∀ h a, Sending s i clk h → lastSource es₁ = some a → a = h.clientAddress

/-- **Where downloads go.**  In every run, the segments go to their requesters if
    and only if the requester was always the last one heard from. -/
theorem toRequester_iff {fs : FileTree} {es : List Event} {u : Server}
    (hrun : exec (step env) (Server.init fs) es = some u) :
    ToRequester env fs es ↔ RequesterLast env fs es := by
  constructor
  · intro h es₁ i clk es₂ s hes hs g a hsending hlast
    have ha : s.clientAddress = some a := by
      rw [clientAddress_eq_lastSource hs]
      exact hlast
    have hnext : ∃ t, step env s (.task i clk) = some t := by
      rw [hes, exec_append_iff] at hrun
      obtain ⟨s', hs', hrest⟩ := hrun
      rw [hs, Option.some_inj] at hs'
      obtain ⟨t, ht, -⟩ := exec_cons_iff.mp hrest
      exact ⟨t, hs' ▸ ht⟩
    obtain ⟨t, ht⟩ := hnext
    obtain ⟨p, hp, hsent⟩ := hsending.sends ha ht
    exact h es₁ i clk es₂ s t hes hs ht g p a hsending.worksOn hp hsent
  · intro h es₁ i clk es₂ s t hes hs ht g p dest hw hp hsent
    obtain ⟨hsending, ha⟩ := sending_of_segment ht hw hp hsent
    rw [clientAddress_eq_lastSource hs] at ha
    exact h es₁ i clk es₂ s hes hs g dest hsending ha

/-- The download of one client, whose task sends a segment in the end. -/
def sendingRun : List Event := downloadRun (['c'], 8001) ++ [.task 0 ⟨0, 0, 0⟩]

theorem requesterLast_sendingRun :
    RequesterLast default (installedWith default ['a'] [1, 2, 3]) sendingRun := by
  intro es₁ i clk es₂ s hes hs h a hsending hlast
  have hheld : ∀ es ∈ [sendingRun.take 2, sendingRun.take 3],
      ((exec (step default) (Server.init (installedWith default ['a'] [1, 2, 3])) es).all
        fun s => s.handlers.entries.all fun x => x.2.clientAddress = (['c'], 8001)) = true := by
    decide +kernel
  have hsplit : es₁ ∈ [sendingRun.take 2, sendingRun.take 3] ∧ a = (['c'], 8001) := by
    have htake : es₁ = sendingRun.take es₁.length := by
      rw [hes, List.take_left]
    have hlen : es₁.length < 4 := by
      have hfour : sendingRun.length = es₁.length + (es₂.length + 1) := by
        rw [hes, List.length_append, List.length_cons]
      have hcount : sendingRun.length = 4 := rfl
      omega
    have hevent : sendingRun[es₁.length]? = some (.task i clk) := by
      rw [hes, List.getElem?_append_right (Nat.le_refl _), Nat.sub_self]
      rfl
    generalize es₁.length = n at htake hlen hevent
    subst htake
    match n, hlen with
    | 0, _ => cases hevent
    | 1, _ => cases hevent
    | 2, _ => exact ⟨List.mem_cons_self, (Option.some_inj.mp hlast).symm⟩
    | 3, _ => exact ⟨List.mem_cons_of_mem _ List.mem_cons_self, (Option.some_inj.mp hlast).symm⟩
  obtain ⟨hmem, rfl⟩ := hsplit
  obtain ⟨t, -, -, -, -, -, hh, -⟩ := hsending
  have hall := hheld es₁ hmem
  rw [hs] at hall
  have hentry := List.all_eq_true.mp hall _ ((s.handlers.mem_entries_iff t.key _).mpr hh)
  exact (decide_eq_true_iff.mp hentry).symm

theorem toRequester_iff_sendingRun :
    ToRequester default (installedWith default ['a'] [1, 2, 3]) sendingRun := by
  have hrun : (exec (step default) (Server.init (installedWith default ['a'] [1, 2, 3]))
      sendingRun).isSome = true := by decide +kernel
  obtain ⟨s, hs⟩ := Option.isSome_iff_exists.mp hrun
  exact (toRequester_iff hs).mpr requesterLast_sendingRun

-- ============================================================================
-- A segment for another client
-- ============================================================================

/-- Whether the step of the task at position `i` from `s` to `t` sent a Segment to
    another address than the one that opened its download. -/
def strays (s t : Server) (i : Nat) : Bool :=
  match s.tasks[i]? with
  | none => false
  | some task =>
      match s.handlers.get? task.key with
      | some (.download h) => (newActions s t).any fun
          | .sent p dest => p.basicLayer.pocketType = .segment && dest ≠ h.clientAddress
          | .postUpload _ _ => false
      | _ => false

theorem exists_of_strays {s t : Server} {i : Nat} (h : strays s t i = true) :
    ∃ g p dest, WorksOn s i g ∧ p.basicLayer.pocketType = .segment ∧
      .sent p dest ∈ newActions s t ∧ dest ≠ g.clientAddress := by
  unfold strays at h
  split at h
  · cases h
  · next task htask =>
      split at h
      · next g hg =>
          obtain ⟨x, hx, hbad⟩ := List.any_eq_true.mp h
          cases x with
          | sent p dest =>
              simp only [Bool.and_eq_true, decide_eq_true_eq] at hbad
              exact ⟨g, p, dest, ⟨task, htask, hg⟩, hbad.1, hx, hbad.2⟩
          | postUpload r data => cases hbad
      · cases h

/-- While the download of one client runs, a datagram of another client arrives. -/
def crossedRun : List Event :=
  downloadRun (['c'], 8001) ++ [.recv (readyPocket 9).datagram (['d'], 8002) default]

/-- The next segment of the download goes to the other client. -/
theorem not_toRequester_crossedRun :
    ∃ s, exec (step default) (Server.init (installedWith default ['a'] [1, 2, 3]))
        (crossedRun ++ [.task 0 ⟨0, 0, 0⟩]) = some s ∧
      ¬ ToRequester default (installedWith default ['a'] [1, 2, 3])
        (crossedRun ++ [.task 0 ⟨0, 0, 0⟩]) := by
  have hrun : ((exec (step default) (Server.init (installedWith default ['a'] [1, 2, 3]))
      crossedRun).bind fun s => (step default s (.task 0 ⟨0, 0, 0⟩)).map fun t =>
        strays s t 0) = some true := by decide +kernel
  obtain ⟨s, hs, hmap⟩ := Option.bind_eq_some_iff.mp hrun
  obtain ⟨t, ht, hstray⟩ := Option.map_eq_some_iff.mp hmap
  obtain ⟨g, p, dest, hw, hp, hsent, hne⟩ := exists_of_strays hstray
  refine ⟨t, exec_concat_iff.mpr ⟨s, hs, ht⟩, fun h => hne ?_⟩
  exact h crossedRun 0 ⟨0, 0, 0⟩ [] s t rfl hs ht g p dest hw hp hsent

end App
end NetworkingFinal
