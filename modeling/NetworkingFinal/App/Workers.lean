/-
  NetworkingFinal.App.Workers

  The two worker threads over a run of the process.

  - `workers_go_on`: no worker ends with an exception.  What a worker sends has the
    sizes that the Response of its request announced, and that Response was encoded.
  - `start_of_behind`: a task behind two unfinished ones has not taken a step.
  - `served_of_exec`: a segment is sent by the task of its request, which has started.
  - `going_of_exec`: a download whose client never says that it is complete keeps its worker.
  - `downloads_starve`: two of them keep the server from sending a segment to anyone else.
-/
import NetworkingFinal.App.Window
import NetworkingFinal.Ftp.RoundTrip

namespace NetworkingFinal
namespace App

open Py Py.Prog Py.Struct Ftp Lib

variable {env : Env} {clk : Readings}

-- ============================================================================
-- Downloads in a step
-- ============================================================================

/-- The event brings the pocket to the request `k`. -/
def Delivers (e : Event) (k : Nat) (p : Pocket) : Prop :=
  ∃ data a amb, e = .recv data a amb ∧ Pocket.fromBytes data = .ok p ∧ p.requestID = k

/-- The download after a step: its queue has what it had and what the step brought. -/
structure Continues (e : Event) (k : Nat) (g g' : DownloadRequestHandler) : Prop where
  data : g'.data = g.data
  response : g'.response = g.response
  pockets : ∀ p ∈ g'.pockets, p ∈ g.pockets ∨ Delivers e k p

theorem continues_receivePocket {e : Event} {k : Nat} {g : DownloadRequestHandler}
    {pocket : Pocket} {pockets : List Pocket} (hqueue : g.pockets = pocket :: pockets) :
    Continues e k g (receivePocket { g with pockets } pocket) := by
  have hrest : ∀ p ∈ pockets, p ∈ g.pockets ∨ Delivers e k p := fun p hp =>
    Or.inl (hqueue ▸ List.mem_cons_of_mem _ hp)
  unfold receivePocket
  split
  · exact ⟨rfl, rfl, fun p hp => by cases hp⟩
  · split
    · exact ⟨rfl, rfl, hrest⟩
    · exact ⟨rfl, rfl, hrest⟩

/-- A download after a worker's step was there before. -/
theorem TaskEffect.download_cases {s : Server} {t : Task} {result : Option Task}
    {hs : Dict Nat Handler} {new : List Action} (h : TaskEffect clk s t result hs new)
    (hT : TableInv s.tables) (e : Event) {k : Nat} {g' : DownloadRequestHandler}
    (hg' : hs.get? k = some (.download g')) :
    ∃ g, s.handlers.get? k = some (.download g) ∧ Continues e k g g' := by
  by_cases hk : k = t.key
  · subst hk
    have hset : ∀ {g g₁ : DownloadRequestHandler}, s.handlers.get? t.key = some (.download g) →
        (s.handlers.set t.key (.download g₁)).get? t.key = some (.download g') →
        Continues e t.key g g₁ → ∃ g, s.handlers.get? t.key = some (.download g) ∧
          Continues e t.key g g' := by
      intro g g₁ hg hget hcontinues
      rw [Dict.get?_set_self, Option.some_inj, Handler.download.injEq] at hget
      exact ⟨g, hg, hget ▸ hcontinues⟩
    cases h with
    | sent phase going found window room address encoded =>
        exact hset found hg' ⟨rfl, rfl, fun p hp => Or.inl hp⟩
    | dropped phase going found window =>
        exact hset found hg' ⟨rfl, rfl, fun p hp => Or.inl hp⟩
    | received phase found queue => exact hset found hg' (continues_receivePocket queue)
    | requeued phase found queue => exact hset found hg' ⟨rfl, rfl, fun p hp => Or.inl hp⟩
    | @left g phase found =>
        have hid : g.requestID = t.key := (hT.id _ _ found).1
        rw [hid, Dict.get?_erase_self] at hg'
        cases hg'
    | _ => exact ⟨g', hg', rfl, rfl, fun p hp => Or.inl hp⟩
  · rw [h.get?_of_ne hT hk] at hg'
    exact ⟨g', hg', rfl, rfl, fun p hp => Or.inl hp⟩

/-- A download after a step was there before, or the step opened it. -/
theorem download_of_step {s t : Server} {e : Event} (hs : ServerInv s)
    (h : step env s e = some t) {k : Nat} {g' : DownloadRequestHandler}
    (hg' : t.handlers.get? k = some (.download g')) :
    (∃ g, s.handlers.get? k = some (.download g) ∧ Continues e k g g') ∨
      ∃ p a res, Opened env p a k (.download g') res := by
  have hsame : t.handlers = s.handlers →
      ∃ g, s.handlers.get? k = some (.download g) ∧ Continues e k g g' := fun heq =>
    ⟨g', heq ▸ hg', rfl, rfl, fun p hp => Or.inl hp⟩
  cases e with
  | timeout => exact Or.inl (hsame (congrArg Server.handlers (step_timeout h)))
  | recv data a amb =>
      obtain ⟨-, hrecv⟩ := step_recv h
      cases hrecv with
      | quiet tables log clientAddress stopped =>
          exact Or.inl (hsame (congrArg Tables.handlers tables))
      | @turn p ok pre new decoded effect log resent clientAddress returned raised =>
          rcases effect.download_cases hs.tables hg' with ⟨g, hg, htouched⟩ | ⟨-, -, res, hopened⟩
          · refine Or.inl ⟨g, hg, ?_⟩
            cases htouched with
            | same => exact ⟨rfl, rfl, fun p hp => Or.inl hp⟩
            | readied other own => exact ⟨rfl, rfl, fun p hp => Or.inl hp⟩
            | queued other own =>
                refine ⟨rfl, rfl, fun q hq => ?_⟩
                rcases List.mem_append.mp hq with hq | hq
                · exact Or.inl hq
                · cases List.mem_singleton.mp hq
                  exact Or.inr ⟨data, a, amb, rfl, decoded, own⟩
          · exact Or.inr ⟨p, a, res, hopened⟩
  | task i clk =>
      obtain ⟨task, task', result, hd, new, -, -, -, heff, rfl⟩ := (step_task h).effect
      exact Or.inl (heff.download_cases hs.tables _ hg')

-- ============================================================================
-- Workers do not fail
-- ============================================================================

theorem segmentPocket_encodes {r k : Nat} {data : Bytes} (hr : r < 2 ^ 64) (hk : k < 2 ^ 64)
    (hdata : data.length < 2 ^ 32) : ∃ bs, (segmentPocket r k data).toBytes = .ok bs := by
  obtain ⟨head, hhead, -⟩ := BasicLayer.measured (l := ⟨r, .segment, .unknown⟩) hr
  obtain ⟨tail, htail, -⟩ := SegmentLayer.measured (l := ⟨k, data⟩) hk hdata
  exact ⟨head ++ tail, Pocket.toBytes_ok_iff.mpr ⟨head, tail, hhead, htail, rfl⟩⟩

/-- The Response of the download was sent, so its numbers were encoded. -/
def Announced (k : Nat) (g : DownloadRequestHandler) : Prop :=
  ∃ res layer bs, g.response = some res ∧ res.responseLayer = some layer ∧
    res.requestLayer = none ∧ res.requestID = k ∧ res.toBytes = .ok bs

theorem Announced.fits {k : Nat} {g : DownloadRequestHandler} (h : Announced k g) :
    k < 2 ^ 64 ∧ ∃ res layer, g.response = some res ∧ res.responseLayer = some layer ∧
      layer.segmentsAmount < 2 ^ 64 := by
  obtain ⟨res, layer, bs, hres, hlayer, hplain, rfl, hbs⟩ := h
  obtain ⟨head, tail, hhead, htail, -⟩ := Pocket.toBytes_ok_iff.mp hbs
  rw [Pocket.layerBytes, hplain, hlayer] at htail
  obtain ⟨bytes, hbytes, -⟩ := except_bind_ok_iff.mp htail
  obtain ⟨_, sizes, -, hsizes, -⟩ := ResponseLayer.toBytes_ok_iff.mp hbytes
  have hid := fits_of_pack hhead
  have hfits := fits_of_pack hsizes
  simp only [List.forall₂_cons] at hid hfits
  exact ⟨hid.2.2.1, res, layer, hres, hlayer, hfits.2.1⟩

theorem Opened.announced {request res : Pocket} {a : Addr} {k : Nat}
    {g : DownloadRequestHandler} (h : Opened env request a k (.download g) res) :
    Announced k g := by
  obtain ⟨bs, hbs⟩ := h.sent
  obtain ⟨layer, storagePath, data, dataSize, -, -, -, hlayer, hg⟩ := h.shape
  unfold openedHandler at hg
  split at hg
  · cases hg
  · cases hg
    exact ⟨res, _, bs, rfl, hlayer, h.plain, by rw [Pocket.requestID, h.layer], hbs⟩

section Returns

variable {s : Server} {t : Task} {g : DownloadRequestHandler} {acked : List Nat}

theorem getDownload_of_found (hfound : s.handlers.get? t.key = some (.download g)) :
    getDownload t.key s = .ok g s := by
  have hhandler : getHandler t.key s = .ok (.download g) s := by
    rw [getHandler, reads, hfound]
  rw [getDownload, bind_of_ok hhandler]
  rfl

/-- The segment that a task at the top of its loop sends has sizes that were announced. -/
theorem taskPocket_encodes (hphase : t.phase = .head) (hmem : t ∈ s.tasks)
    (hid : g.requestID = t.key) (hannounced : Announced t.key g)
    (hwindowed : Windowed env acked s.tasks t.key g) {segmentID : Nat} {windowToSend : List Nat}
    (hwindow : g.windowToSend = segmentID :: windowToSend) :
    ∃ bs, (taskPocket g t segmentID).toBytes = .ok bs := by
  obtain ⟨hkey, res, layer, hres, hlayer, hamount⟩ := hannounced.fits
  rw [(hwindowed.sizes res layer hres hlayer).2] at hamount
  have hids := hwindowed.window
  rw [hwindow] at hids
  have hlt := List.mem_range.mp (hids.mem_of_toSend List.mem_cons_self)
  obtain ⟨hdata, hsize, -⟩ := (hwindowed.works t hmem rfl).sizes (Or.inl hphase)
  rw [taskPocket, hid, hdata, hsize, segmentOf_eq_chunk]
  refine segmentPocket_encodes hkey (Nat.lt_trans hlt hamount) ?_
  have hlength : (chunk g.data (g.segmentSize env) segmentID).length ≤ g.segmentSize env :=
    List.length_take_le _ _
  have hbound : g.segmentSize env ≤ 60000 :=
    Nat.le_trans (Nat.min_le_left _ _) env.config.max_le
  omega

/-- A step of a live task returns. -/
theorem taskStep_returns (hlive : t.live = true) (hmem : t ∈ s.tasks)
    (hfound : s.handlers.get? t.key = some (.download g)) (hid : g.requestID = t.key)
    (hannounced : Announced t.key g) (hwindowed : Windowed env acked s.tasks t.key g)
    (haddress : s.clientAddress ≠ none) :
    wp (taskStep env clk t) (fun _ _ => True) (fun _ _ => False) s := by
  have hget := getDownload_of_found hfound
  unfold taskStep
  split
  · obtain ⟨-, res, layer, hres, hlayer, -⟩ := hannounced.fits
    rw [taskStart, wp_bind_of_ok hget, hres, Option.bind_some, hlayer]
    trivial
  · next hphase =>
      refine wp_ite.mpr ⟨fun _ => trivial, fun _ => ?_⟩
      rw [wp_bind_of_ok hget]
      split
      · next segmentID windowToSend hwindow =>
          refine wp_ite.mpr ⟨fun _ => ?_, fun _ => trivial⟩
          obtain ⟨a, ha⟩ := Option.ne_none_iff_exists'.mp haddress
          obtain ⟨bs, hbs⟩ := taskPocket_encodes hphase hmem hid hannounced hwindowed hwindow
          rw [wp_bind, wp_setHandler, wp_bind, wp_get, ha]
          dsimp only
          rw [wp_bind, wp_onApp, wp_sendto]
          refine ⟨fun _ _ => trivial, fun e he => ?_⟩
          rw [show (segmentPocket g.requestID segmentID (segmentOf g.data t.dataSize
            t.singleSegmentSize segmentID)).toBytes = .ok bs from hbs] at he
          cases he
      · trivial
  · rw [taskRefresh, wp_bind_of_ok hget]
    split
    · trivial
    · exact wp_ite.mpr ⟨fun _ => trivial, fun _ => trivial⟩
  · rw [taskClose, wp_bind_of_ok hget, wp_bind, wp_onApp, sendClose, wp_sendto]
    refine ⟨fun _ _ => trivial, fun e he => ?_⟩
    cases he
  · rw [taskLeave, wp_bind_of_ok hget, wp_bind, wp_popHandler, hid]
    exact ⟨fun _ _ => trivial, fun hnone => by rw [hfound] at hnone; cases hnone⟩
  · next hphase =>
      rw [Task.live, hphase] at hlive
      cases hlive
  · next hphase =>
      rw [Task.live, hphase] at hlive
      cases hlive

end Returns

/-- What a worker relies on. -/
structure Supplied (s : Server) : Prop where
  announced : ∀ k g, s.handlers.get? k = some (.download g) → Announced k g
  address : s.tasks ≠ [] → s.clientAddress ≠ none

theorem Supplied.step {s t : Server} {e : Event} (h : Supplied s) (hs : ServerInv s)
    (hstep : App.step env s e = some t) : Supplied t := by
  refine ⟨fun k g' hg' => ?_, fun htasks => ?_⟩
  · rcases download_of_step hs hstep hg' with ⟨g, hg, hcontinues⟩ | ⟨p, a, res, hopened⟩
    · obtain ⟨res, layer, bs, hres, hrest⟩ := h.announced k g hg
      exact ⟨res, layer, bs, hcontinues.response.trans hres, hrest⟩
    · exact hopened.announced
  · cases e with
    | timeout =>
        rw [step_timeout hstep] at htasks ⊢
        exact h.address htasks
    | recv data a amb =>
        have hknown : t.clientAddress = some a := by
          obtain ⟨-, hrecv⟩ := step_recv hstep
          cases hrecv with
          | quiet tables log clientAddress stopped => exact clientAddress
          | turn decoded effect log resent clientAddress returned raised => exact clientAddress
        rw [hknown]
        exact Option.some_ne_none a
    | task i clk =>
        obtain ⟨task, task', result, hd, new, hmem, -, -, -, rfl⟩ := (step_task hstep).effect
        exact h.address (List.ne_nil_of_mem hmem)

theorem supplied_of_exec {fs : FileTree} {es : List Event} {s : Server}
    (h : exec (App.step env) (Server.init fs) es = some s) : Supplied s := by
  refine exec_history (fun _ => Supplied) ⟨fun k g hg => (by cases hg), fun hne => absurd rfl hne⟩
    (fun es s e t hes hsupplied hstep => ?_) h
  exact hsupplied.step (serverInv_of_exec hes) hstep

theorem live_of_running {s : Server} {i : Nat} {task : Task} (htask : s.tasks[i]? = some task)
    (hrunning : running s i = true) : task.live = true := by
  rw [running, htask, Bool.and_eq_true] at hrunning
  exact hrunning.1

/-- In a reachable process, the step of a worker whose turn has come returns. -/
theorem returns_of_running {fs : FileTree} {es : List Event} {s : Server} {i : Nat} {task : Task}
    (h : exec (App.step env) (Server.init fs) es = some s) (htask : s.tasks[i]? = some task)
    (hrunning : running s i = true) (clk : Readings) :
    ∃ task' u, taskStep env clk task s = .ok task' u := by
  have hs := serverInv_of_exec h
  have hsupplied := supplied_of_exec h
  have hlive := live_of_running htask hrunning
  have hmem : task ∈ s.tasks := List.mem_of_getElem? htask
  obtain ⟨f, hf, hbusy⟩ := hs.tables.working task hmem (live_not_ended hlive)
  obtain ⟨g, rfl, -⟩ := Handler.busy_iff.mp hbusy
  have hreturns : wp (taskStep env clk task) (fun _ _ => True) (fun _ _ => False) s :=
    taskStep_returns hlive hmem hf (hs.tables.id _ _ hf).1 (hsupplied.announced _ g hf)
      ((windows_of_exec h).downloads _ g hf) (hsupplied.address (List.ne_nil_of_mem hmem))
  unfold wp at hreturns
  cases hr : taskStep env clk task s with
  | ok task' u => exact ⟨task', u, rfl⟩
  | error e u =>
      rw [hr] at hreturns
      exact hreturns.elim

/-- A step of a worker of a reachable process: its turn has come, and the step returns. -/
structure Works (clk : Readings) (s : Server) (i : Nat) (task task' : Task)
    (hd : Dict Nat Handler) (new : List Action) : Prop where
  found : s.tasks[i]? = some task
  running : running s i = true
  effect : TaskEffect clk s task (some task') hd new

theorem works_of_step {fs : FileTree} {es : List Event} {s t : Server} {i : Nat}
    (h : exec (App.step env) (Server.init fs) es = some s)
    (hstep : App.step env s (.task i clk) = some t) :
    ∃ task task' hd new, Works clk s i task task' hd new ∧
      t = { s.advanced hd new with tasks := s.tasks.set i task' } := by
  rw [App.step] at hstep
  split at hstep
  · next task htask =>
      split at hstep
      · next hrunning =>
          cases hstep
          obtain ⟨task', u, hr⟩ := returns_of_running h htask hrunning clk
          have hw := (wp_taskStep : wp (taskStep env clk task) _ _ s)
          unfold wp at hw
          rw [hr] at hw ⊢
          obtain ⟨hd, new, heffect, rfl⟩ := hw
          exact ⟨task, task', hd, new, ⟨htask, hrunning, heffect⟩, rfl⟩
      · cases hstep
  · cases hstep

/-- The phase of a live task after its step: it has started, and has not failed. -/
theorem TaskEffect.phase_of_live {s : Server} {t t' : Task} {hs : Dict Nat Handler}
    {new : List Action} (h : TaskEffect clk s t (some t') hs new) (hlive : t.live = true) :
    t'.phase ≠ .start ∧ ∀ e, t'.phase ≠ .failed e := by
  cases h with
  | sent phase going found window room address encoded =>
      rw [phase]
      exact ⟨TaskPhase.noConfusion, fun _ => TaskPhase.noConfusion⟩
  | received phase found queue =>
      unfold Task.afterPocket
      split
      · dsimp only
        rw [phase]
        exact ⟨TaskPhase.noConfusion, fun _ => TaskPhase.noConfusion⟩
      · rw [phase]
        exact ⟨TaskPhase.noConfusion, fun _ => TaskPhase.noConfusion⟩
  | waiting phase =>
      rw [phase]
      exact ⟨TaskPhase.noConfusion, fun _ => TaskPhase.noConfusion⟩
  | halted dead =>
      rw [hlive] at dead
      cases dead
  | _ => exact ⟨TaskPhase.noConfusion, fun _ => TaskPhase.noConfusion⟩

/-- The tasks after a turn of the main loop: those before it, and maybe a new one. -/
theorem tasks_of_recv {s t : Server} {data : Bytes} {a : Addr} (h : RecvStep env s data a t) :
    t.tasks = s.tasks ∨ ∃ k, t.tasks = s.tasks ++ [{ key := k }] := by
  cases h with
  | quiet tables log clientAddress stopped => exact Or.inl (congrArg Tables.tasks tables)
  | turn decoded effect log resent clientAddress returned raised =>
      exact effect.tasks_eq.imp_right fun htasks => ⟨_, htasks⟩

theorem not_failed_of_exec {fs : FileTree} {es : List Event} {s : Server}
    (h : exec (App.step env) (Server.init fs) es = some s) :
    ∀ task ∈ s.tasks, ∀ e, task.phase ≠ .failed e := by
  refine exec_history (fun _ s => ∀ task ∈ s.tasks, ∀ e, task.phase ≠ .failed e)
    (fun task hmem => by cases hmem) (fun es s ev t hes hbefore hstep task hmem => ?_) h
  cases ev with
  | timeout => exact hbefore task (step_timeout hstep ▸ hmem)
  | recv data a amb =>
      rcases tasks_of_recv (step_recv hstep).2 with htasks | ⟨k, htasks⟩
      · exact hbefore task (htasks ▸ hmem)
      · rw [htasks, List.mem_append, List.mem_singleton] at hmem
        rcases hmem with hmem | rfl
        · exact hbefore task hmem
        · exact fun _ => TaskPhase.noConfusion
  | task i clk =>
      obtain ⟨task₀, task', hd, new, hworks, rfl⟩ := works_of_step hes hstep
      rcases List.mem_or_eq_of_mem_set hmem with hmem | rfl
      · exact hbefore task hmem
      · exact (hworks.effect.phase_of_live (live_of_running hworks.found hworks.running)).2

/-- **Workers go on.**  Whatever arrives and however the workers run, no task has ended
    with an exception, and the next step of a task whose turn has come returns. -/
theorem workers_go_on {fs : FileTree} {es : List Event} {s : Server}
    (h : exec (App.step env) (Server.init fs) es = some s) :
    (∀ task ∈ s.tasks, ∀ e, task.phase ≠ .failed e) ∧
      ∀ i task clk, s.tasks[i]? = some task → running s i = true →
        ∃ task' u, taskStep env clk task s = .ok task' u :=
  ⟨not_failed_of_exec h, fun _ _ clk htask hrunning => returns_of_running h htask hrunning clk⟩

theorem workers_go_on_downloadRun :
    ∃ s task, exec (App.step default) (Server.init (installedWith default ['a'] [1, 2, 3]))
        (downloadRun (['c'], 8001)) = some s ∧ s.tasks[0]? = some task ∧
      ∃ task' u, taskStep default ⟨1, 1, 1⟩ task s = .ok task' u := by
  have hrun : (exec (App.step default) (Server.init (installedWith default ['a'] [1, 2, 3]))
      (downloadRun (['c'], 8001))).map (fun s => running s 0) = some true := by decide +kernel
  obtain ⟨s, hs, hrunning⟩ := Option.map_eq_some_iff.mp hrun
  cases htask : s.tasks[0]? with
  | none =>
      rw [running, htask] at hrunning
      cases hrunning
  | some task =>
      exact ⟨s, task, hs, htask, (workers_go_on hs).2 0 task ⟨1, 1, 1⟩ htask hrunning⟩

-- ============================================================================
-- First come, first served
-- ============================================================================

/-- Two tasks before the position are not finished. -/
def Behind (tasks : List Task) (i : Nat) : Prop :=
  workers ≤ ((tasks.take i).filter Task.live).length

theorem not_behind_of_running {s : Server} {i : Nat} (h : running s i = true) :
    ¬ Behind s.tasks i := by
  unfold running at h
  split at h
  · exact Nat.not_le.mpr (of_decide_eq_true (Bool.and_eq_true_iff.mp h).2)
  · cases h

/-- A step of a live task finishes no other. -/
theorem behind_of_set {tasks : List Task} {i j : Nat} {t t' : Task} (ht : tasks[i]? = some t)
    (hlive : t.live = true) (h : Behind (tasks.set i t') j) : Behind tasks j := by
  refine Nat.le_trans h ?_
  rw [List.take_set]
  by_cases hij : i < (tasks.take j).length
  · have hget : (tasks.take j)[i] = t := by
      rw [List.getElem_take]
      exact (List.getElem?_eq_some_iff.mp ht).2
    rw [← List.countP_eq_length_filter, ← List.countP_eq_length_filter, List.countP_set hij, hget,
      hlive, if_pos rfl]
    have hpos : 0 < (tasks.take j).countP Task.live :=
      List.countP_pos_iff.mpr ⟨t, hget ▸ List.getElem_mem hij, hlive⟩
    have hone : (if t'.live = true then 1 else 0) ≤ 1 := by
      split
      · exact Nat.le_refl 1
      · exact Nat.zero_le 1
    omega
  · rw [List.set_eq_of_length_le (Nat.le_of_not_lt hij)]

/-- A task behind two unfinished ones has not taken a step. -/
theorem start_of_behind {fs : FileTree} {es : List Event} {s : Server}
    (h : exec (App.step env) (Server.init fs) es = some s) :
    ∀ i task, s.tasks[i]? = some task → Behind s.tasks i → task.phase = .start := by
  refine exec_history (fun _ s => ∀ i task, s.tasks[i]? = some task → Behind s.tasks i →
    task.phase = .start) (fun i task htask => by cases htask)
    (fun es s ev t hes hbefore hstep i task htask hbehind => ?_) h
  cases ev with
  | timeout =>
      rw [step_timeout hstep] at htask hbehind
      exact hbefore i task htask hbehind
  | recv data a amb =>
      rcases tasks_of_recv (step_recv hstep).2 with htasks | ⟨k, htasks⟩
      · rw [htasks] at htask hbehind
        exact hbefore i task htask hbehind
      · rw [htasks] at htask hbehind
        by_cases hi : i < s.tasks.length
        · rw [List.getElem?_append_left hi] at htask
          rw [Behind, List.take_append_of_le_length (Nat.le_of_lt hi)] at hbehind
          exact hbefore i task htask hbehind
        · rw [List.getElem?_append_right (Nat.le_of_not_lt hi)] at htask
          cases List.mem_singleton.mp (List.mem_of_getElem? htask)
          rfl
  | task j clk =>
      obtain ⟨task₀, task', hd, new, hworks, rfl⟩ := works_of_step hes hstep
      have hbefore' := behind_of_set hworks.found
        (live_of_running hworks.found hworks.running) hbehind
      have hij : j ≠ i := by
        rintro rfl
        exact not_behind_of_running hworks.running hbefore'
      have htask : (s.tasks.set j task')[i]? = some task := htask
      rw [List.getElem?_set_ne hij] at htask
      exact hbefore i task htask hbefore'

/-- A segment is sent by the task of its request, which has started. -/
theorem served_of_exec {fs : FileTree} {es : List Event} {s : Server}
    (h : exec (App.step env) (Server.init fs) es = some s) {p : Pocket} {a : Addr}
    (hp : .sent p a ∈ s.app.log) (htype : p.basicLayer.pocketType = .segment) :
    ∃ task ∈ s.tasks, task.key = p.requestID ∧ task.phase ≠ .start := by
  refine exec_history (fun _ s => .sent p a ∈ s.app.log →
    ∃ task ∈ s.tasks, task.key = p.requestID ∧ task.phase ≠ .start)
    (fun hmem => by cases hmem) (fun es s ev t hes hbefore hstep hmem => ?_) h hp
  cases ev with
  | timeout =>
      rw [step_timeout hstep] at hmem ⊢
      exact hbefore hmem
  | recv data b amb =>
      obtain ⟨-, hrecv⟩ := step_recv hstep
      have hold : .sent p a ∈ s.app.log := by
        cases hrecv with
        | quiet tables log clientAddress stopped => exact log ▸ hmem
        | turn decoded effect log resent clientAddress returned raised =>
            rw [log, List.mem_append, List.mem_append] at hmem
            rcases hmem with (hmem | hmem) | hmem
            · exact hmem
            · obtain ⟨k, res, f, hres, -, heq⟩ := resent _ hmem
              cases heq
              rw [((appInv_of_exec hes).log.responses k _ hres).type] at htype
              cases htype
            · exact absurd htype (effect.not_segment hmem)
      obtain ⟨task, htask, hstarted⟩ := hbefore hold
      rcases tasks_of_recv hrecv with htasks | ⟨k, htasks⟩
      · exact ⟨task, htasks ▸ htask, hstarted⟩
      · exact ⟨task, htasks ▸ List.mem_append_left _ htask, hstarted⟩
  | task i clk =>
      obtain ⟨task, task', hd, new, hworks, rfl⟩ := works_of_step hes hstep
      have hkey := hworks.effect.key_eq
      have hstarted :=
        (hworks.effect.phase_of_live (live_of_running hworks.found hworks.running)).1
      have hhere : task' ∈ s.tasks.set i task' :=
        List.mem_set (List.getElem?_eq_some_iff.mp hworks.found).1 _
      rcases List.mem_append.mp hmem with hmem | hnew
      · obtain ⟨u, hu, hukey, huphase⟩ := hbefore hmem
        obtain ⟨j, hj⟩ := List.mem_iff_getElem?.mp hu
        by_cases hij : i = j
        · rw [← hij, hworks.found, Option.some_inj] at hj
          exact ⟨task', hhere, hkey.trans (hj ▸ hukey), hstarted⟩
        · refine ⟨u, List.mem_of_getElem? (i := j) ?_, hukey, huphase⟩
          rw [List.getElem?_set_ne hij]
          exact hj
      · obtain ⟨hsegment, -⟩ := hworks.effect.segment_requestID
          (serverInv_of_exec hes).tables hnew htype
        exact ⟨task', hhere, hkey.trans hsegment.symm, hstarted⟩

-- ============================================================================
-- Downloads that are never complete
-- ============================================================================

/-- The event tells the server that the download `k` is complete. -/
def Told (k : Nat) (e : Event) : Prop :=
  ∃ p, Delivers e k p ∧ p.basicLayer.pocketType = .downloadComplited

/-- The loop of the task goes on. -/
structure Task.Going (t : Task) : Prop where
  downloading : t.downloading = true
  notClosing : t.phase ≠ .closing
  notLeaving : t.phase ≠ .leaving
  notEnded : t.phase ≠ .ended

theorem Task.Going.live {t : Task} (h : t.Going) (hsound : ∀ e, t.phase ≠ .failed e) :
    t.live = true := by
  unfold Task.live
  split
  · next hphase => exact absurd hphase h.notEnded
  · next hphase => exact absurd hphase (hsound _)
  · rfl

/-- No pocket of the queue says that the download is complete. -/
def Untold (g : DownloadRequestHandler) : Prop :=
  ∀ p ∈ g.pockets, p.basicLayer.pocketType ≠ .downloadComplited

theorem TaskEffect.going {s : Server} {t t' : Task} {hs : Dict Nat Handler} {new : List Action}
    (h : TaskEffect clk s t (some t') hs new) (hgoing : t.Going)
    (huntold : ∀ g, s.handlers.get? t.key = some (.download g) → Untold g) : t'.Going := by
  cases h with
  | began phase found response sizes =>
      exact ⟨hgoing.downloading, TaskPhase.noConfusion, TaskPhase.noConfusion,
        TaskPhase.noConfusion⟩
  | finished phase ended =>
      rw [hgoing.downloading] at ended
      cases ended
  | sent phase going found window room address encoded => exact hgoing
  | paused phase going =>
      exact ⟨going, TaskPhase.noConfusion, TaskPhase.noConfusion, TaskPhase.noConfusion⟩
  | received phase found queue =>
      have hother := huntold _ found _ (queue ▸ List.mem_cons_self)
      rw [Task.afterPocket, if_neg hother]
      exact hgoing
  | requeued phase found queue =>
      exact ⟨hgoing.downloading, TaskPhase.noConfusion, TaskPhase.noConfusion,
        TaskPhase.noConfusion⟩
  | waiting phase => exact hgoing
  | closed phase found => exact absurd phase hgoing.notClosing
  | left phase found => exact absurd phase hgoing.notLeaving
  | halted dead => exact hgoing

/-- As long as its client does not say that it is complete, a download goes on. -/
theorem going_of_exec {fs : FileTree} {es : List Event} {s : Server}
    (h : exec (App.step env) (Server.init fs) es = some s) {k : Nat}
    (huntold : ∀ e ∈ es, ¬ Told k e) :
    (∀ task ∈ s.tasks, task.key = k → task.Going) ∧
      ∀ g, s.handlers.get? k = some (.download g) → Untold g := by
  revert huntold
  refine exec_history (fun es s => (∀ e ∈ es, ¬ Told k e) →
    (∀ task ∈ s.tasks, task.key = k → task.Going) ∧
      ∀ g, s.handlers.get? k = some (.download g) → Untold g)
    (fun _ => ⟨fun task htask => (by cases htask), fun g hg => by cases hg⟩)
    (fun es s e t hes hbefore hstep huntold => ?_) h
  obtain ⟨hgoing, hqueues⟩ := hbefore fun e he => huntold e (List.mem_append_left _ he)
  have hlast : ¬ Told k e := huntold e (List.mem_append_right _ List.mem_cons_self)
  have hs := serverInv_of_exec hes
  refine ⟨fun task htask hkey => ?_, fun g' hg' p hp htype => ?_⟩
  · cases e with
    | timeout => exact hgoing task (step_timeout hstep ▸ htask) hkey
    | recv data a amb =>
        rcases tasks_of_recv (step_recv hstep).2 with htasks | ⟨_, htasks⟩
        · exact hgoing task (htasks ▸ htask) hkey
        · rw [htasks, List.mem_append, List.mem_singleton] at htask
          rcases htask with htask | rfl
          · exact hgoing task htask hkey
          · exact ⟨rfl, TaskPhase.noConfusion, TaskPhase.noConfusion, TaskPhase.noConfusion⟩
    | task i clk =>
        obtain ⟨task₀, task', hd, new, hworks, rfl⟩ := works_of_step hes hstep
        rcases List.mem_or_eq_of_mem_set htask with htask | rfl
        · exact hgoing task htask hkey
        · have hkey₀ : task₀.key = k := hworks.effect.key_eq.symm.trans hkey
          refine hworks.effect.going
            (hgoing task₀ (List.mem_of_getElem? hworks.found) hkey₀) fun g hg => ?_
          exact hqueues g (hkey₀ ▸ hg)
  · rcases download_of_step hs hstep hg' with ⟨g, hg, hcontinues⟩ | ⟨q, a, res, hopened⟩
    · rcases hcontinues.pockets p hp with hold | hnew
      · exact hqueues g hg p hold htype
      · exact hlast ⟨p, hnew, htype⟩
    · obtain ⟨layer, storagePath, data, dataSize, -, -, -, -, hshape⟩ := hopened.shape
      unfold openedHandler at hshape
      split at hshape
      · cases hshape
      · cases hshape
        cases hp

/-- Two unfinished tasks before a position. -/
theorem behind_of_two {tasks : List Task} {i j k : Nat} {first second : Task}
    (honce : (tasks.map Task.key).Nodup) (hfirst : tasks[i]? = some first)
    (hsecond : tasks[j]? = some second) (hij : i < j) (hjk : j < k) (hlive : first.live = true)
    (hlive' : second.live = true) : Behind tasks k := by
  have hne : first ≠ second := by
    rintro rfl
    have hlt := (List.getElem?_eq_some_iff.mp hfirst).1
    exact absurd ((List.getElem?_inj hlt honce.of_map).mp (hfirst.trans hsecond.symm))
      (Nat.ne_of_lt hij)
  have hmem : ∀ {n task}, tasks[n]? = some task → n < k → task.live = true →
      task ∈ (tasks.take k).filter Task.live := by
    intro n task hn hlt htask
    rw [List.mem_filter]
    exact ⟨List.mem_of_getElem? ((List.getElem?_take_of_lt hlt).trans hn), htask⟩
  have htwo : [first, second].Nodup := List.nodup_cons.mpr
    ⟨fun hmem => hne (List.mem_singleton.mp hmem), List.nodup_singleton _⟩
  refine (List.subperm_of_subset htwo ?_).length_le
  intro task htask
  rcases List.mem_cons.mp htask with rfl | htask
  · exact hmem hfirst (Nat.lt_trans hij hjk) hlive
  · cases List.mem_singleton.mp htask
    exact hmem hsecond hjk hlive'

/-- **Two downloads starve the others.**  After any run in which the clients of two
    downloads never say that they are complete, every task submitted after those two is
    still at its start, and no segment of its download has been sent. -/
theorem downloads_starve {fs : FileTree} {es : List Event} {s : Server} {i j k : Nat}
    {first second third : Task} (h : exec (App.step env) (Server.init fs) es = some s)
    (hfirst : s.tasks[i]? = some first) (hsecond : s.tasks[j]? = some second)
    (hthird : s.tasks[k]? = some third) (hij : i < j) (hjk : j < k)
    (huntold : ∀ e ∈ es, ¬ Told first.key e ∧ ¬ Told second.key e) :
    third.phase = .start ∧ ∀ p a, .sent p a ∈ s.app.log →
      p.basicLayer.pocketType = .segment → p.requestID ≠ third.key := by
  have hs := serverInv_of_exec h
  have hsound := not_failed_of_exec h
  have hmem := List.mem_of_getElem? hfirst
  have hmem' := List.mem_of_getElem? hsecond
  have hlive := ((going_of_exec h fun e he => (huntold e he).1).1 first hmem rfl).live
    (hsound first hmem)
  have hlive' := ((going_of_exec h fun e he => (huntold e he).2).1 second hmem' rfl).live
    (hsound second hmem')
  have hstart := start_of_behind h k third hthird
    (behind_of_two hs.tables.once hfirst hsecond hij hjk hlive hlive')
  refine ⟨hstart, fun p a hp htype hkey => ?_⟩
  obtain ⟨task, htask, htaskKey, hphase⟩ := served_of_exec h hp htype
  have heq : task = third := List.inj_on_of_nodup_map hs.tables.once htask
    (List.mem_of_getElem? hthird) (htaskKey.trans hkey)
  exact hphase (heq ▸ hstart)

theorem not_told_of_type {k : Nat} {data : Bytes} {a : Addr} {amb : Ambient} {p : Pocket}
    (hp : Pocket.fromBytes data = .ok p)
    (htype : p.basicLayer.pocketType ≠ .downloadComplited) : ¬ Told k (.recv data a amb) := by
  rintro ⟨q, ⟨data', a', amb', heq, hq, -⟩, hqtype⟩
  cases heq
  cases hp.symm.trans hq
  exact htype hqtype

theorem not_told_task {k i : Nat} : ¬ Told k (.task i clk) := by
  rintro ⟨q, ⟨data, a, amb, heq, -⟩, -⟩
  cases heq

/-- Three clients ask for the same file, and the first two are sent a segment. -/
def crowdRun : List Event :=
  [.recv downloadRequest.datagram (['a'], 8001) default,
    .recv downloadRequest.datagram (['b'], 8001) default,
    .recv downloadRequest.datagram (['c'], 8001) default,
    .recv (readyPocket 1).datagram (['a'], 8001) default,
    .recv (readyPocket 2).datagram (['b'], 8001) default,
    .recv (readyPocket 3).datagram (['c'], 8001) default,
    .task 0 ⟨0, 0, 0⟩, .task 1 ⟨0, 0, 0⟩, .task 0 ⟨1, 1, 1⟩, .task 1 ⟨1, 1, 1⟩]

theorem downloads_starve_crowdRun :
    ∃ s third, exec (App.step default) (Server.init (installedWith default ['a'] [1, 2, 3]))
        crowdRun = some s ∧ s.tasks[2]? = some third ∧ third.key = 3 ∧ third.phase = .start ∧
      ∀ p a, .sent p a ∈ s.app.log → p.basicLayer.pocketType = .segment →
        p.requestID ≠ third.key := by
  have hrun : (exec (App.step default) (Server.init (installedWith default ['a'] [1, 2, 3]))
      crowdRun).map (fun s => s.tasks.map Task.key) = some [1, 2, 3] := by decide +kernel
  obtain ⟨s, hs, hkeys⟩ := Option.map_eq_some_iff.mp hrun
  have hrequest : Pocket.fromBytes downloadRequest.datagram = .ok downloadRequest := by
    decide +kernel
  have hready : ∀ k, k = 1 ∨ k = 2 ∨ k = 3 →
      Pocket.fromBytes (readyPocket k).datagram =
        .ok { basicLayer := ⟨k, .readyForDownloading, .unknown⟩ } := by
    rintro k (rfl | rfl | rfl) <;> decide +kernel
  have huntold : ∀ e ∈ crowdRun, ∀ k, ¬ Told k e := by
    have hopen : ∀ k a, ¬ Told k (.recv downloadRequest.datagram a default) := fun k a =>
      not_told_of_type hrequest PocketType.noConfusion
    have hfirst : ∀ k r a, r = 1 ∨ r = 2 ∨ r = 3 →
        ¬ Told k (.recv (readyPocket r).datagram a default) := fun k r a hr =>
      not_told_of_type (hready r hr) PocketType.noConfusion
    simp only [crowdRun, List.forall_mem_cons]
    exact ⟨fun k => hopen k _, fun k => hopen k _, fun k => hopen k _,
      fun k => hfirst k 1 _ (Or.inl rfl), fun k => hfirst k 2 _ (Or.inr (Or.inl rfl)),
      fun k => hfirst k 3 _ (Or.inr (Or.inr rfl)), fun k => not_told_task, fun k => not_told_task,
      fun k => not_told_task, fun k => not_told_task, fun e he => by cases he⟩
  have hget : ∀ n k : Nat, [1, 2, 3][n]? = some k →
      ∃ task : Task, s.tasks[n]? = some task ∧ task.key = k := by
    intro n k hn
    rw [← hkeys, List.getElem?_map] at hn
    exact Option.map_eq_some_iff.mp hn
  obtain ⟨first, hfirst, -⟩ := hget 0 1 rfl
  obtain ⟨second, hsecond, -⟩ := hget 1 2 rfl
  obtain ⟨third, hthird, hkey⟩ := hget 2 3 rfl
  obtain ⟨hstart, hnone⟩ := downloads_starve hs hfirst hsecond hthird (by decide) (by decide)
    fun e he => ⟨huntold e he _, huntold e he _⟩
  exact ⟨s, third, hs, hthird, hkey, hstart, hnone⟩

end App
end NetworkingFinal
