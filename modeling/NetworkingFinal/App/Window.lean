/-
  NetworkingFinal.App.Window

  The windows of every download over a run of the process: together they hold the
  ids whose ACK its task has handled, in order, with at most `cwnd` in flight.
-/
import NetworkingFinal.App.Downloads
import NetworkingFinal.App.Log
import NetworkingFinal.Lib.Window

namespace NetworkingFinal
namespace App

open Py Py.Prog Ftp Lib

variable {env : Env} {clk : Readings}

-- ============================================================================
-- Acknowledgements and sizes
-- ============================================================================

/-- The ids whose ACK the event makes the task of the download `key` handle: it takes
    the first queued pocket. -/
def acks (key : Nat) (s : Server) : Event → List Nat
  | .task i _ =>
      match s.tasks[i]?, s.handlers.get? key with
      | some t, some (.download h) =>
          if t.key = key ∧ t.phase = .refresh then
            (h.pockets.head?.map (acknowledged .downloadComplited)).getD []
          else []
      | _, _ => []
  | _ => []

/-- The segment size `create_handler` chose for the request of the handler. -/
def DownloadRequestHandler.segmentSize (env : Env) (h : DownloadRequestHandler) : Nat :=
  App.segmentSize env ((h.request.requestLayer.map RequestLayer.maxSingleSegmentSize).getD 0)

/-- The number of segments `create_handler` computed. -/
def DownloadRequestHandler.segmentsAmount (env : Env) (h : DownloadRequestHandler) : Nat :=
  segmentsAmountOf h.data.length (h.segmentSize env)

/-- What the own task of a download handles. -/
theorem acks_own {s : Server} {i : Nat} {t : Task} {h : DownloadRequestHandler}
    (ht : s.tasks[i]? = some t) (hfound : s.handlers.get? t.key = some (.download h)) :
    acks t.key s (.task i clk) = if t.phase = .refresh then
      (h.pockets.head?.map (acknowledged .downloadComplited)).getD [] else [] := by
  simp [acks, ht, hfound]

theorem acks_task_of_ne {key i : Nat} {s : Server} {t : Task} (ht : s.tasks[i]? = some t)
    (hne : key ≠ t.key) : acks key s (.task i clk) = [] := by
  rw [acks, ht]
  split
  · next t' _ heq _ =>
      cases heq
      rw [if_neg fun hk => hne hk.1.symm]
  · rfl

/-- A key that no handler has yet gets no acknowledgements. -/
theorem acks_eq_nil {key : Nat} {s : Server} (h : s.handlers.get? key = none) (e : Event) :
    acks key s e = [] := by
  cases e with
  | task i clk => simp [acks, h]
  | recv data a amb => rfl
  | timeout => rfl

/-- A refreshing task with a queued pocket takes it, whatever the clock says. -/
theorem taskStep_of_queue {s : Server} {t : Task} {h : DownloadRequestHandler} {pocket : Pocket}
    {pockets : List Pocket} (hphase : t.phase = .refresh)
    (hfound : s.handlers.get? t.key = some (.download h)) (hqueue : h.pockets = pocket :: pockets) :
    taskStep env clk t s = .ok (t.afterPocket pocket) { s with
      handlers := s.handlers.set t.key (.download (receivePocket { h with pockets } pocket)) } := by
  have hhandler : getHandler t.key s = .ok (.download h) s := by
    rw [getHandler, reads, hfound]
  have hget : getDownload t.key s = .ok h s := by
    rw [getDownload, bind_of_ok hhandler]
    rfl
  simp only [taskStep, hphase]
  rw [taskRefresh, bind_of_ok hget, hqueue]
  rfl

theorem step_of_queue {s s' : Server} {i : Nat} {t : Task} {h : DownloadRequestHandler}
    {pocket : Pocket} {pockets : List Pocket} (hstep : step env s (.task i clk) = some s')
    (ht : s.tasks[i]? = some t) (hphase : t.phase = .refresh)
    (hfound : s.handlers.get? t.key = some (.download h)) (hqueue : h.pockets = pocket :: pockets) :
    s' = { s with
      handlers := s.handlers.set t.key (.download (receivePocket { h with pockets } pocket))
      tasks := s.tasks.set i (t.afterPocket pocket) } := by
  rw [step, ht] at hstep
  dsimp only at hstep
  split at hstep
  · cases hstep
    rw [taskStep_of_queue hphase hfound hqueue]
    rfl
  · cases hstep

/-- What a turn of the main loop submits is a download that was not ready. -/
theorem Effect.submitted {T T' : Tables} {p : Pocket} {a : Addr} {ok : Bool} {new : List Action}
    (h : Effect env T p a ok T' new) {t : Task} (ht : t ∈ T'.tasks) :
    t ∈ T.tasks ∨ t = { key := p.requestID } ∧
      ∃ g, T.handlers.get? p.requestID = some (.download g) ∧ g.ready = false := by
  cases h with
  | started other found unready =>
      rcases List.mem_append.mp ht with ht | ht
      · exact Or.inl ht
      · exact Or.inr ⟨List.mem_singleton.mp ht, _, found, unready⟩
  | _ => exact Or.inl ht

/-- A download after a turn was there before, or the turn opened it. -/
theorem Effect.download_cases {T T' : Tables} {p : Pocket} {a : Addr} {ok : Bool}
    {new : List Action} (hT : TableInv T) (h : Effect env T p a ok T' new) {k : Nat}
    {g' : DownloadRequestHandler} (hg' : T'.handlers.get? k = some (.download g')) :
    (∃ g, T.handlers.get? k = some (.download g) ∧ Touched p k g g') ∨
      T.handlers.get? k = none ∧ k = T.lastRequestID + 1 ∧
        ∃ res, Opened env p a k (.download g') res := by
  cases hk : T.handlers.get? k with
  | none =>
      have htaken : T'.handlers.get? k ≠ none := fun hnone => by rw [hg'] at hnone; cases hnone
      obtain ⟨f, res, hopened, hid, hf, -⟩ := h.opened_of_fresh hk htaken
      rw [hg', Option.some_inj] at hf
      exact Or.inr ⟨rfl, hid, res, hf ▸ hopened⟩
  | some f =>
      cases f with
      | upload u => cases (h.kept hT k _ _ hk hg').2
      | download g =>
          obtain ⟨g₁, hg₁, htouched⟩ := h.get?_download hT hk
          rw [hg', Option.some_inj, Handler.download.injEq] at hg₁
          exact Or.inl ⟨g, rfl, hg₁ ▸ htouched⟩

-- ============================================================================
-- One download
-- ============================================================================

/-- The locals of a task against its download. -/
structure TaskFits (env : Env) (g : DownloadRequestHandler) (t : Task) : Prop where
  sizes : t.phase = .head ∨ t.phase = .refresh → t.dataSize = g.data.length ∧
    t.singleSegmentSize = g.segmentSize env ∧ t.segmentsAmount = g.segmentsAmount env
  room : t.live = true → g.windowSending.length ≤ t.cwnd

/-- The download `k` after the ACKs of `acked`. -/
structure Windowed (env : Env) (acked : List Nat) (tasks : List Task) (k : Nat)
    (g : DownloadRequestHandler) : Prop where
  nonempty : g.data ≠ []
  sizes : ∀ res layer, g.response = some res → res.responseLayer = some layer →
    layer.singleSegmentSize = g.segmentSize env ∧ layer.segmentsAmount = g.segmentsAmount env
  window : WindowInv (List.range (g.segmentsAmount env)) acked g.windowSending.length
    g.windowSending g.windowToSend
  idle : g.ready = false → g.windowSending = []
  works : ∀ t ∈ tasks, t.key = k → TaskFits env g t

/-- What a handler keeps from its opening on. -/
structure SameDownload (g g' : DownloadRequestHandler) : Prop where
  request : g'.request = g.request
  data : g'.data = g.data
  response : g'.response = g.response
  ready : g'.ready = g.ready

section Download

variable {acked : List Nat} {tasks : List Task} {k : Nat} {g g' : DownloadRequestHandler}
  {t : Task}

theorem SameDownload.segmentSize_eq (h : SameDownload g g') :
    g'.segmentSize env = g.segmentSize env := by
  rw [DownloadRequestHandler.segmentSize, h.request, DownloadRequestHandler.segmentSize]

theorem SameDownload.segmentsAmount_eq (h : SameDownload g g') :
    g'.segmentsAmount env = g.segmentsAmount env := by
  rw [DownloadRequestHandler.segmentsAmount, h.data, h.segmentSize_eq,
    DownloadRequestHandler.segmentsAmount]

theorem TaskFits.same (h : TaskFits env g t) (hsame : SameDownload g g')
    (hroom : g'.windowSending.length ≤ g.windowSending.length) : TaskFits env g' t where
  sizes hphase := by
    rw [hsame.data, hsame.segmentSize_eq, hsame.segmentsAmount_eq]
    exact h.sizes hphase
  room hlive := Nat.le_trans hroom (h.room hlive)

/-- A handler with other windows, once its task fits them. -/
theorem Windowed.same {acked' : List Nat} {tasks' : List Task} (h : Windowed env acked tasks k g)
    (hsame : SameDownload g g') (hready : g.ready = true)
    (hwindow : WindowInv (List.range (g.segmentsAmount env)) acked' g'.windowSending.length
      g'.windowSending g'.windowToSend)
    (hworks : ∀ t ∈ tasks', t.key = k → TaskFits env g' t) :
    Windowed env acked' tasks' k g' where
  nonempty := hsame.data ▸ h.nonempty
  sizes res layer hres hlayer := by
    rw [hsame.segmentSize_eq, hsame.segmentsAmount_eq]
    exact h.sizes res layer (hsame.response ▸ hres) hlayer
  window := hsame.segmentsAmount_eq ▸ hwindow
  idle hidle := by
    rw [hsame.ready, hready] at hidle
    cases hidle
  works := hworks

theorem Windowed.touched {p : Pocket} (h : Windowed env acked tasks k g)
    (htouched : Touched p k g g') : Windowed env acked tasks k g' := by
  cases htouched with
  | same => exact h
  | readied other own =>
      exact ⟨h.nonempty, h.sizes, h.window, fun hidle => (by cases hidle), fun t ht hk =>
        ⟨(h.works t ht hk).sizes, (h.works t ht hk).room⟩⟩
  | queued other own =>
      exact ⟨h.nonempty, h.sizes, h.window, h.idle, fun t ht hk =>
        ⟨(h.works t ht hk).sizes, (h.works t ht hk).room⟩⟩

/-- The download a turn opens: nothing is sent yet, and no task has its key. -/
theorem windowed_of_opened {p : Pocket} {a : Addr} {res : Pocket}
    (h : Opened env p a k (.download g) res) (htasks : ∀ t ∈ tasks, t.key ≠ k) :
    Windowed env [] tasks k g := by
  obtain ⟨layer, storagePath, data, dataSize, hrequest, hsize, hne, hlayer, hg⟩ := h.shape
  unfold openedHandler at hg
  split at hg
  · cases hg
  · next hsub =>
      have hsub : p.basicLayer.pocketSubType ≠ .upload := hsub
      rw [if_neg hsub] at hsize
      subst hsize
      cases hg
      have hsegment : App.segmentSize env layer.maxSingleSegmentSize =
          App.segmentSize env
            ((p.requestLayer.map RequestLayer.maxSingleSegmentSize).getD 0) := by
        rw [hrequest]
        rfl
      refine ⟨fun hnil => hne (congrArg List.length hnil), fun res' layer' hres hlayer' => ?_, ?_,
        fun _ => rfl, fun t ht hk => absurd hk (htasks t ht)⟩
      · cases hres
        rw [hlayer, Option.some_inj] at hlayer'
        rw [← hlayer']
        simp only [DownloadRequestHandler.segmentSize, DownloadRequestHandler.segmentsAmount,
          hsegment, and_self]
      · simp only [DownloadRequestHandler.segmentSize, DownloadRequestHandler.segmentsAmount,
          ← hsegment]
        exact WindowInv.start _ _

/-- The only task of the download takes a queued pocket. -/
theorem Windowed.received {tasks' : List Task} {p : Pocket} {pockets : List Pocket}
    (h : Windowed env acked tasks k g) (hready : g.ready = true) (ht : t ∈ tasks)
    (hkey : t.key = k) (honly : ∀ t' ∈ tasks', t'.key = k → t' = t.afterPocket p) :
    Windowed env (acked ++ acknowledged .downloadComplited p) tasks' k
      (receivePocket { g with pockets } p) := by
  have hafter : TaskFits env g (t.afterPocket p) := by
    have hfits := h.works t ht hkey
    unfold Task.afterPocket
    split
    · exact ⟨hfits.sizes, hfits.room⟩
    · exact hfits
  have hsame : ∀ {g'}, SameDownload g g' →
      WindowInv (List.range (g.segmentsAmount env)) (acked ++ acknowledged .downloadComplited p)
        g'.windowSending.length g'.windowSending g'.windowToSend →
      g'.windowSending.length ≤ g.windowSending.length →
      Windowed env (acked ++ acknowledged .downloadComplited p) tasks' k g' :=
    fun hsame hwindow hle => h.same hsame hready hwindow fun t' ht' hk' =>
      honly t' ht' hk' ▸ hafter.same hsame hle
  unfold receivePocket
  by_cases hlast : p.basicLayer.pocketType = .downloadComplited
  · rw [if_pos hlast]
    refine hsame ⟨rfl, rfl, rfl, rfl⟩ ?_ (Nat.le_refl _)
    rw [acknowledged, if_pos hlast, List.append_nil]
    exact h.window
  · rw [if_neg hlast]
    cases hlayer : p.akcLayer with
    | none =>
        refine hsame ⟨rfl, rfl, rfl, rfl⟩ ?_ (Nat.le_refl _)
        rw [acknowledged, if_neg hlast, hlayer, Option.map_none, Option.toList_none,
          List.append_nil]
        exact h.window
    | some layer =>
        have hack := h.window.ack List.nodup_range layer.segmentID
        refine hsame ⟨rfl, rfl, rfl, rfl⟩ ?_ List.erase_sublist.length_le
        rw [acknowledged, if_neg hlast, hlayer]
        exact ⟨hack.ids, Nat.le_refl _⟩

/-- A step of the only task of the download that takes no pocket. -/
theorem Windowed.worked {s : Server} {tasks' : List Task} {task' : Task} {result : Option Task}
    {hs : Dict Nat Handler} {new : List Action} (h : Windowed env acked tasks k g)
    (hready : g.ready = true) (ht : t ∈ tasks) (hkey : t.key = k) (hid : g.requestID = k)
    (honly : ∀ t' ∈ tasks', t'.key = k → t' = task')
    (hg : s.handlers.get? k = some (.download g)) (hempty : t.phase = .refresh → g.pockets = [])
    (heff : TaskEffect clk s t result hs new)
    (hresult : result = some task' ∨ result = none ∧ ∃ e, task' = { t with phase := .failed e })
    (hg' : hs.get? k = some (.download g')) : Windowed env acked tasks' k g' := by
  have hfits := h.works t ht hkey
  have hfound : ∀ {g₀}, s.handlers.get? t.key = some (.download g₀) → g = g₀ := by
    intro g₀ h₀
    rw [hkey, hg] at h₀
    exact Handler.download.inj (Option.some.inj h₀)
  have hset : ∀ {g₁ : DownloadRequestHandler},
      (s.handlers.set t.key (.download g₁)).get? k = some (.download g') → g₁ = g' := by
    intro g₁ h₁
    rw [hkey, Dict.get?_set_self, Option.some_inj, Handler.download.injEq] at h₁
    exact h₁
  have hstay : s.handlers.get? k = some (.download g') → TaskFits env g task' →
      Windowed env acked tasks' k g' := by
    intro h₀ hfit
    cases hfound (hkey ▸ h₀)
    exact h.same ⟨rfl, rfl, rfl, rfl⟩ hready h.window fun t' ht' hk' => honly t' ht' hk' ▸ hfit
  have hshift : ∀ {segmentID : Nat} {windowToSend : List Nat},
      g.windowToSend = segmentID :: windowToSend → TaskFits env (g.shift segmentID windowToSend)
        task' → Windowed env acked tasks' k (g.shift segmentID windowToSend) := by
    intro segmentID windowToSend hwindow hfit
    have hfirst := h.window
    rw [hwindow] at hfirst
    have hroom := Nat.lt_succ_self g.windowSending.length
    have hmoved := WindowInv.send ⟨hfirst.ids, Nat.le_of_lt hroom⟩ hroom
    exact h.same ⟨rfl, rfl, rfl, rfl⟩ hready ⟨hmoved.ids, Nat.le_refl _⟩
      fun t' ht' hk' => honly t' ht' hk' ▸ hfit
  cases heff with
  | failed =>
      obtain ⟨-, e, rfl⟩ := hresult.resolve_left (Option.some_ne_none _).symm
      exact hstay hg' ⟨fun hp => (by rcases hp with hp | hp <;> cases hp), fun hl => by cases hl⟩
  | began phase found response sizes =>
      cases hfound found
      cases Option.some.inj (hresult.resolve_right fun h => Option.some_ne_none _ h.1)
      obtain ⟨hsize, hamount⟩ := h.sizes _ _ response sizes
      exact hstay hg' ⟨fun _ => ⟨rfl, hsize, hamount⟩,
        fun _ => hfits.room (by simp [Task.live, phase])⟩
  | finished phase ended =>
      cases Option.some.inj (hresult.resolve_right fun h => Option.some_ne_none _ h.1)
      exact hstay hg' ⟨fun hp => (by rcases hp with hp | hp <;> cases hp),
        fun _ => hfits.room (by simp [Task.live, phase])⟩
  | sent phase going found window room address encoded =>
      cases hfound found
      cases Option.some.inj (hresult.resolve_right fun h => Option.some_ne_none _ h.1)
      cases hset hg'
      refine hshift window ⟨fun _ => hfits.sizes (Or.inl phase), fun _ => ?_⟩
      rw [DownloadRequestHandler.shift, List.length_append]
      exact room.2
  | dropped phase going found window =>
      cases hfound found
      obtain ⟨-, e, rfl⟩ := hresult.resolve_left (Option.some_ne_none _).symm
      cases hset hg'
      exact hshift window
        ⟨fun hp => (by rcases hp with hp | hp <;> cases hp), fun hl => by cases hl⟩
  | paused phase going =>
      cases Option.some.inj (hresult.resolve_right fun h => Option.some_ne_none _ h.1)
      exact hstay hg' ⟨fun _ => hfits.sizes (Or.inl phase),
        fun _ => hfits.room (by simp [Task.live, phase])⟩
  | received phase found queue =>
      cases hfound found
      rw [hempty phase] at queue
      cases queue
  | requeued phase found queue =>
      cases hfound found
      cases Option.some.inj (hresult.resolve_right fun h => Option.some_ne_none _ h.1)
      cases hset hg'
      refine h.same ⟨rfl, rfl, rfl, rfl⟩ hready h.window.requeue fun t' ht' hk' => ?_
      rw [honly t' ht' hk']
      exact ⟨fun _ => hfits.sizes (Or.inr phase), fun _ => Nat.zero_le _⟩
  | waiting phase =>
      cases Option.some.inj (hresult.resolve_right fun h => Option.some_ne_none _ h.1)
      exact hstay hg' hfits
  | closed phase found =>
      cases Option.some.inj (hresult.resolve_right fun h => Option.some_ne_none _ h.1)
      exact hstay hg' ⟨fun hp => (by rcases hp with hp | hp <;> cases hp),
        fun _ => hfits.room (by simp [Task.live, phase])⟩
  | left phase found =>
      cases hfound found
      rw [hid, Dict.get?_erase_self] at hg'
      cases hg'
  | halted dead =>
      cases Option.some.inj (hresult.resolve_right fun h => Option.some_ne_none _ h.1)
      exact hstay hg' hfits

end Download

-- ============================================================================
-- Steps
-- ============================================================================

/-- The windows of all downloads, when `acked k` are the ids the task of `k` has
    handled an ACK for. -/
structure Windows (env : Env) (acked : Nat → List Nat) (s : Server) : Prop where
  downloads : ∀ k g, s.handlers.get? k = some (.download g) →
    Windowed env (acked k) s.tasks k g
  fresh : ∀ k, s.app.lastRequestID < k → acked k = []

section Steps

variable {acked : Nat → List Nat} {s t : Server}

theorem Windows.recv (h : Windows env acked s) (hs : ServerInv s) {data : Bytes} {a : Addr}
    (hstep : RecvStep env s data a t) : Windows env acked t := by
  cases hstep with
  | quiet tables log clientAddress stopped =>
      have hhandlers : t.handlers = s.handlers := congrArg Tables.handlers tables
      have htasks : t.tasks = s.tasks := congrArg Tables.tasks tables
      have hlast : t.app.lastRequestID = s.app.lastRequestID :=
        congrArg Tables.lastRequestID tables
      refine ⟨fun k g hg => ?_, fun k hk => h.fresh k (hlast ▸ hk)⟩
      rw [htasks]
      exact h.downloads k g (hhandlers ▸ hg)
  | @turn p ok pre new decoded effect log resent clientAddress returned raised =>
      have hle : s.app.lastRequestID ≤ t.app.lastRequestID := effect.lastRequestID_le
      refine ⟨fun k g' hg' => ?_, fun k hk => h.fresh k (by omega)⟩
      rcases effect.download_cases hs.tables hg' with ⟨g, hg, htouched⟩ | ⟨hnone, hk, res, hopened⟩
      · have hwin := h.downloads k g hg
        refine (Windowed.touched ?_ htouched)
        refine ⟨hwin.nonempty, hwin.sizes, hwin.window, hwin.idle, fun task htask hkey => ?_⟩
        rcases effect.submitted htask with htask | ⟨rfl, f, hf, hunready⟩
        · exact hwin.works task htask hkey
        · -- the task of a download that was not ready, so nothing is in flight
          have hkey : p.requestID = k := hkey
          have hfound : s.handlers.get? k = some (.download f) := hkey ▸ hf
          have hsame : g = f := Handler.download.inj (Option.some.inj (hg.symm.trans hfound))
          rw [← hsame] at hunready
          refine ⟨fun hp => (by rcases hp with hp | hp <;> cases hp), fun _ => ?_⟩
          rw [hwin.idle hunready]
          exact Nat.zero_le _
      · have hkey : k = s.app.lastRequestID + 1 := hk
        rw [h.fresh k (by omega)]
        refine windowed_of_opened hopened fun task htask heq => ?_
        rcases effect.submitted htask with htask | ⟨rfl, f, hf, -⟩
        · have hpast : task.key ≤ s.app.lastRequestID := hs.tables.past task htask
          omega
        · have heq : p.requestID = k := heq
          have hf : s.tables.handlers.get? k = some (.download f) := heq ▸ hf
          rw [hnone] at hf
          cases hf

/-- A step of a worker: it takes a queued pocket of its download, or no ACK is
    handled. -/
theorem Windows.task (h : Windows env acked s) (hs : ServerInv s) {i : Nat}
    (hstep : App.step env s (.task i clk) = some t) :
    Windows env (fun k => acked k ++ acks k s (.task i clk)) t := by
  obtain ⟨task, task', hd, new, htask, hlive, heffect, rfl⟩ := (step_task hstep).worked
  have hmem : task ∈ s.tasks := List.mem_of_getElem? htask
  obtain ⟨f, hf, hbusy⟩ := hs.tables.working task hmem (live_not_ended hlive)
  obtain ⟨g, rfl, hready⟩ := Handler.busy_iff.mp hbusy
  have hg : s.handlers.get? task.key = some (.download g) := hf
  obtain ⟨result, heff, hresult⟩ : ∃ result, TaskEffect clk s task result hd new ∧
      (result = some task' ∨ result = none ∧ ∃ e, task' = { task with phase := .failed e }) := by
    rcases heffect with heffect | ⟨heffect, e, he, -⟩
    · exact ⟨_, heffect, Or.inl rfl⟩
    · exact ⟨_, heffect, Or.inr ⟨rfl, e, he⟩⟩
  have hkey' : task'.key = task.key := by
    rcases hresult with rfl | ⟨-, e, rfl⟩
    · exact heff.key_eq
    · rfl
  have honly : ∀ u ∈ s.tasks.set i task', u.key = task.key → u = task' := fun u hu hkey =>
    (mem_set_of_once hs.tables.once htask hu).resolve_right fun hother => hother.2 hkey
  refine ⟨fun k g' hg' => ?_, fun k hk => ?_⟩
  · have hg' : hd.get? k = some (.download g') := hg'
    show Windowed env _ (s.tasks.set i task') k g'
    by_cases hk : k = task.key
    · subst hk
      have hwin := h.downloads _ g hg
      have hid : g.requestID = task.key := (hs.tables.id _ _ hf).1
      rw [acks_own htask hg]
      by_cases hphase : task.phase = .refresh
      · rw [if_pos hphase]
        cases hqueue : g.pockets with
        | nil =>
            rw [List.head?_nil, Option.map_none, Option.getD_none, List.append_nil]
            exact hwin.worked hready hmem rfl hid honly hg (fun _ => hqueue) heff hresult hg'
        | cons p ps =>
            -- the step is the one that takes `p`
            have heq := step_of_queue hstep htask hphase hg hqueue
            have hhandlers : hd = s.handlers.set task.key
                (.download (receivePocket { g with pockets := ps } p)) :=
              congrArg Server.handlers heq
            have htasks : s.tasks.set i task' = s.tasks.set i (task.afterPocket p) :=
              congrArg Server.tasks heq
            rw [hhandlers, Dict.get?_set_self, Option.some_inj, Handler.download.injEq] at hg'
            rw [List.head?_cons, Option.map_some, Option.getD_some, ← hg', htasks]
            refine hwin.received hready hmem rfl fun u hu hkey => ?_
            exact (mem_set_of_once hs.tables.once htask hu).resolve_right fun hother =>
              hother.2 hkey
      · rw [if_neg hphase, List.append_nil]
        exact hwin.worked hready hmem rfl hid honly hg (fun hp => absurd hp hphase) heff hresult hg'
    · have hold : s.handlers.get? k = some (.download g') :=
        (heff.get?_of_ne hs.tables hk).symm.trans hg'
      have hwin := h.downloads k g' hold
      rw [acks_task_of_ne htask hk, List.append_nil]
      refine ⟨hwin.nonempty, hwin.sizes, hwin.window, hwin.idle, fun u hu hkey => ?_⟩
      rcases mem_set_of_once hs.tables.once htask hu with rfl | ⟨hu, -⟩
      · exact absurd (hkey.symm.trans hkey') hk
      · exact hwin.works u hu hkey
  · have hnone : s.handlers.get? k = none := by
      by_contra hne
      obtain ⟨f, hf⟩ := Option.ne_none_iff_exists'.mp hne
      have hle : k ≤ s.app.lastRequestID := (hs.tables.id k f hf).2.2
      exact absurd hk (Nat.not_lt.mpr hle)
    rw [h.fresh k hk, acks_eq_nil hnone, List.append_nil]

theorem Windows.step (h : Windows env acked s) (hs : ServerInv s) {e : Event}
    (hstep : App.step env s e = some t) :
    Windows env (fun k => acked k ++ acks k s e) t := by
  cases e with
  | recv data a amb =>
      obtain ⟨-, hrecv⟩ := step_recv hstep
      simp only [acks, List.append_nil]
      exact h.recv hs hrecv
  | timeout =>
      simp only [acks, List.append_nil]
      exact step_timeout hstep ▸ h
  | task i clk => exact h.task hs hstep

end Steps

-- ============================================================================
-- Runs
-- ============================================================================

/-- The ids whose ACK the task of the download `key` has handled during a run. -/
def ackedIn (env : Env) (fs : FileTree) (es : List Event) (key : Nat) : List Nat :=
  observed (step env) (acks key) (Server.init fs) es

theorem windows_of_exec {fs : FileTree} {es : List Event} {s : Server}
    (h : exec (step env) (Server.init fs) es = some s) : Windows env (ackedIn env fs es) s := by
  refine exec_history (fun es s => Windows env (ackedIn env fs es) s) ?_
    (fun es s e t hes hwin hstep => ?_) h
  · exact ⟨fun k g hg => (by cases hg), fun _ _ => rfl⟩
  · have hacked : ackedIn env fs (es ++ [e]) = fun k => ackedIn env fs es k ++ acks k s e :=
      funext fun k => observed_concat hes e
    rw [hacked]
    exact hwin.step (serverInv_of_exec hes) hstep

/-- A Segment of the download `g`: it carries an id and the data cut out for it. -/
def DownloadRequestHandler.Sends (env : Env) (g : DownloadRequestHandler) (p : Pocket) : Prop :=
  ∃ k < g.segmentsAmount env, p = segmentPocket g.requestID k
    (segmentOf g.data g.data.length (g.segmentSize env) k)

/-- Every Segment in the log was sent for a download that was in the table then. -/
theorem sends_of_exec {fs : FileTree} {es : List Event} {s : Server}
    (h : exec (step env) (Server.init fs) es = some s) {p : Pocket} {a : Addr}
    (hp : .sent p a ∈ s.app.log) (htype : p.basicLayer.pocketType = .segment) :
    ∃ es₁ es₂ u g, es = es₁ ++ es₂ ∧ exec (step env) (Server.init fs) es₁ = some u ∧
      u.handlers.get? p.requestID = some (.download g) ∧ g.Sends env p := by
  refine exec_history (fun es s => .sent p a ∈ s.app.log → ∃ es₁ es₂ u g, es = es₁ ++ es₂ ∧
    exec (step env) (Server.init fs) es₁ = some u ∧
      u.handlers.get? p.requestID = some (.download g) ∧ g.Sends env p)
    (fun hmem => by cases hmem) (fun es s e t hes hold hstep hmem => ?_) h hp
  have hearlier : .sent p a ∈ s.app.log → ∃ es₁ es₂ u g, es ++ [e] = es₁ ++ es₂ ∧
      exec (step env) (Server.init fs) es₁ = some u ∧
        u.handlers.get? p.requestID = some (.download g) ∧ g.Sends env p := by
    intro hmem
    obtain ⟨es₁, es₂, u, g, rfl, hu, hg, hsends⟩ := hold hmem
    exact ⟨es₁, es₂ ++ [e], u, g, List.append_assoc _ _ _, hu, hg, hsends⟩
  have hs := appInv_of_exec hes
  cases e with
  | timeout => exact hearlier (step_timeout hstep ▸ hmem)
  | recv data b amb =>
      obtain ⟨-, hrecv⟩ := step_recv hstep
      cases hrecv with
      | quiet tables log clientAddress stopped => exact hearlier (log ▸ hmem)
      | turn decoded effect log resent clientAddress returned raised =>
          rw [log, List.mem_append, List.mem_append] at hmem
          rcases hmem with (hmem | hmem) | hmem
          · exact hearlier hmem
          · obtain ⟨k, res, f, hres, -, heq⟩ := resent _ hmem
            cases heq
            rw [(hs.log.responses k _ hres).type] at htype
            cases htype
          · exact absurd htype (effect.not_segment hmem)
  | task i clk =>
      obtain ⟨task, task', result, hd, new, htask, -, hlive, heff, rfl⟩ := (step_task hstep).effect
      rcases List.mem_append.mp hmem with hmem | hnew
      · exact hearlier hmem
      · cases heff with
        | @sent g segmentID windowToSend b phase going found window room address encoded =>
            obtain ⟨rfl, -⟩ := Action.sent.inj (List.mem_singleton.mp hnew)
            have hid : g.requestID = task.key := (hs.server.tables.id _ _ found).1
            have hwin := (windows_of_exec hes).downloads _ g found
            obtain ⟨hdata, hsize, -⟩ := (hwin.works task htask rfl).sizes (Or.inl phase)
            have hfirst := hwin.window
            rw [window] at hfirst
            have hlt := List.mem_range.mp (hfirst.mem_of_toSend List.mem_cons_self)
            refine ⟨es, [.task i clk], s, g, rfl, hes, ?_, segmentID, hlt, ?_⟩
            · rw [show (taskPocket g task segmentID).requestID = task.key from hid]
              exact found
            · rw [taskPocket, hdata, hsize]
        | closed phase found =>
            obtain ⟨rfl, -⟩ := Action.sent.inj (List.mem_singleton.mp hnew)
            cases htype
        | _ => cases hnew

end App
end NetworkingFinal
