/-
  NetworkingFinal.App.Turns

  What the process does next, when it is known what comes: the main loop with a pocket
  (`recv_of_dispatch`, `heard_of_pocket`) and a worker in each of its phases
  (`taskStep_of_start` and the lemmas after it).

  The inversions (`step_recv`, `step_task`) say what a step may have done; these lemmas
  say that a step can be taken.
-/
import NetworkingFinal.App.FileWork
import NetworkingFinal.App.Receive
import NetworkingFinal.App.Workers

namespace NetworkingFinal
namespace App

open Py Py.Prog Ftp Lib

variable {env : Env} {amb : Ambient} {clk : Readings} {s : Server}

-- ============================================================================
-- The main loop
-- ============================================================================

/-- A pocket that arrives while the main loop goes on is dispatched, after the Responses
    that are sent again. -/
theorem recv_of_dispatch {P : Server → Prop} {bs : Bytes} {a : Addr} {p : Pocket}
    (htable : TableInv s.tables) (hresponses : ResponsesEncode s)
    (hp : Pocket.fromBytes bs = .ok p) (hrun : s.stopped = none)
    (hdispatch : ∀ pre, wp (dispatch env amb p a) (fun _ t => P t)
      (fun e t => P { t with stopped := some e }) ({ s with clientAddress := some a }.logged pre)) :
    ∃ t, App.step env s (.recv bs a amb) = some t ∧ P t := by
  have hne : bs ≠ [] := by
    rintro rfl
    cases hp
  have hwp : wp (iteration env amb bs a) (fun _ t => P t)
      (fun e t => P { t with stopped := some e }) s := by
    unfold iteration
    rw [wp_bind, wp_modify]
    refine wp_ite.mpr ⟨fun hnil => absurd hnil hne, fun _ => ?_⟩
    rw [wp_bind, wp_lift]
    refine ⟨fun q hq => ?_, fun e he => by rw [hp] at he; cases he⟩
    rw [hp, Except.ok.injEq] at hq
    subst hq
    have hsame : TableInv { s with clientAddress := some a }.tables := htable
    obtain ⟨t, ht, -⟩ := resends hsame hresponses p
    obtain ⟨pre, rfl, -⟩ := wp_of_ok wp_resendNotReady ht
    rw [wp_bind_of_ok ht]
    exact hdispatch pre
  obtain ⟨t, ht⟩ : ∃ t, App.step env s (.recv bs a amb) = some t := by
    rw [App.step, if_pos hrun]
    exact ⟨_, rfl⟩
  refine ⟨t, ht, ?_⟩
  obtain ⟨-, hok | ⟨e, u, herror, rfl⟩⟩ := recv_of_wp hwp ht
  · exact hok
  · exact herror

/-- What the main loop did with a pocket `p` from `a` for a request that is no upload. -/
inductive Heard (s t : Server) (p : Pocket) (a : Addr) : Prop
  | closed {pre : List Action} (gone : s.handlers.get? p.requestID = none)
      (tables : t.tables = s.tables)
      (log : t.app.log = s.app.log ++ (pre ++ [.sent closePocket a]))
  | started {g : DownloadRequestHandler} {pre : List Action}
      (found : s.handlers.get? p.requestID = some (.download g)) (unready : g.ready = false)
      (handlers : t.handlers = s.handlers.set p.requestID (.download { g with ready := true }))
      (tasks : t.tasks = s.tasks ++ [{ key := p.requestID }])
      (log : t.app.log = s.app.log ++ pre)
  | queued {g : DownloadRequestHandler} {pre : List Action}
      (found : s.handlers.get? p.requestID = some (.download g)) (ready : g.ready = true)
      (handlers : t.handlers = s.handlers.set p.requestID
        (.download { g with pockets := g.pockets ++ [p] }))
      (tasks : t.tasks = s.tasks) (log : t.app.log = s.app.log ++ pre)

section Heard

variable {t : Server} {p : Pocket} {a : Addr} {g : DownloadRequestHandler}

/-- A pocket for no request is answered with a Close. -/
theorem Heard.of_none (h : Heard s t p a) (hnone : s.handlers.get? p.requestID = none) :
    ∃ pre, t.app.log = s.app.log ++ (pre ++ [.sent closePocket a]) := by
  cases h with
  | closed gone tables log => exact ⟨_, log⟩
  | started found unready handlers tasks log =>
      rw [hnone] at found
      cases found
  | queued found ready handlers tasks log =>
      rw [hnone] at found
      cases found

/-- The first pocket makes a download ready. -/
theorem Heard.of_unready (h : Heard s t p a)
    (hfound : s.handlers.get? p.requestID = some (.download g)) (hunready : g.ready ≠ true) :
    t.handlers.get? p.requestID = some (.download { g with ready := true }) := by
  cases h with
  | closed gone tables log =>
      rw [hfound] at gone
      cases gone
  | started found unready handlers tasks log =>
      rw [hfound] at found
      cases found
      rw [handlers]
      exact Dict.get?_set_self _ _ _
  | queued found ready handlers tasks log =>
      rw [hfound] at found
      cases found
      exact absurd ready hunready

/-- The next ones are queued. -/
theorem Heard.of_ready (h : Heard s t p a)
    (hfound : s.handlers.get? p.requestID = some (.download g)) (hready : g.ready = true) :
    t.handlers.get? p.requestID = some (.download { g with pockets := g.pockets ++ [p] }) ∧
      t.tasks = s.tasks := by
  cases h with
  | closed gone tables log =>
      rw [hfound] at gone
      cases gone
  | started found unready handlers tasks log =>
      rw [hfound] at found
      cases found
      rw [hready] at unready
      cases unready
  | queued found ready handlers tasks log =>
      rw [hfound] at found
      cases found
      refine ⟨?_, tasks⟩
      rw [handlers]
      exact Dict.get?_set_self _ _ _

end Heard

/-- The main loop hears a pocket of a download, and goes on. -/
theorem heard_of_pocket {bs : Bytes} {a : Addr} {p : Pocket} (htable : TableInv s.tables)
    (hresponses : ResponsesEncode s) (hp : Pocket.fromBytes bs = .ok p) (hrun : s.stopped = none)
    (hother : p.basicLayer.pocketType ≠ .request)
    (hkind : ∀ u, s.handlers.get? p.requestID ≠ some (.upload u)) :
    ∃ t, App.step env s (.recv bs a amb) = some t ∧ t.stopped = none ∧
      t.clientAddress = some a ∧ Heard s t p a := by
  refine recv_of_dispatch htable hresponses hp hrun fun pre => ?_
  unfold dispatch
  refine wp_ite.mpr ⟨fun hrequest => absurd hrequest hother, fun _ => ?_⟩
  rw [wp_bind, wp_get]
  split
  · next u hfound => exact absurd hfound (hkind u)
  · next g hfound =>
      have hfound : s.handlers.get? p.requestID = some (.download g) := hfound
      refine wp_ite.mpr ⟨fun hunready => ?_, fun hready => ?_⟩
      · have hid : g.requestID = p.requestID := (htable.id _ _ hfound).1
        have hkey : g.requestID ∈ s.notReady.keys := by
          rw [hid]
          refine (htable.notReady p.requestID).mpr ⟨_, hfound, ?_⟩
          rw [Handler.unready, hunready]
          rfl
        rw [wp_bind, wp_setHandler, wp_bind, wp_popNotReady]
        refine ⟨fun res _ => ⟨hrun, rfl, .started hfound hunready rfl rfl rfl⟩, fun hnone => ?_⟩
        exact absurd hkey ((Dict.get?_eq_none_iff _ _).mp hnone)
      · exact ⟨hrun, rfl, .queued hfound (Bool.not_eq_false _ ▸ hready) rfl rfl rfl⟩
  · next hnone =>
      rw [wp_onApp, sendClose, wp_sendto]
      refine ⟨fun _ _ => ⟨hrun, rfl, ?_⟩, fun e he => by cases he⟩
      have hlog : s.app.log ++ pre ++ [.sent closePocket a] =
          s.app.log ++ (pre ++ [.sent closePocket a]) := List.append_assoc _ _ _
      exact .closed hnone rfl hlog

-- ============================================================================
-- The phases of a worker
-- ============================================================================

section Phases

variable {t : Task} {g : DownloadRequestHandler}

theorem taskStep_of_start {res : Pocket} {layer : ResponseLayer} (hphase : t.phase = .start)
    (hfound : s.handlers.get? t.key = some (.download g)) (hres : g.response = some res)
    (hlayer : res.responseLayer = some layer) :
    taskStep env clk t s = .ok
      { t with
        phase := .head, singleSegmentSize := layer.singleSegmentSize,
        segmentsAmount := layer.segmentsAmount, dataSize := g.data.length, last := clk.now } s := by
  simp only [taskStep, hphase]
  rw [taskStart, bind_of_ok (getDownload_of_found hfound), hres, Option.bind_some, hlayer]
  rfl

theorem taskStep_of_finished (hphase : t.phase = .head) (hended : t.downloading = false) :
    taskStep env clk t s = .ok { t with phase := .closing } s := by
  simp only [taskStep, hphase]
  rw [taskHead, if_pos hended]
  rfl

/-- The round is over: on to the queue. -/
theorem taskStep_of_pause (hphase : t.phase = .head) (hgoing : t.downloading = true)
    (hfound : s.handlers.get? t.key = some (.download g)) (hover : t.last + t.rtt ≤ clk.now) :
    taskStep env clk t s = .ok { t with phase := .refresh } s := by
  simp only [taskStep, hphase]
  rw [taskHead, if_neg (by simp [hgoing]), bind_of_ok (getDownload_of_found hfound)]
  cases g.windowToSend with
  | nil => rfl
  | cons k windowToSend =>
      dsimp only
      rw [if_neg (by omega)]
      rfl

/-- In a round, and with room in the window, the first segment is sent. -/
theorem taskStep_of_room {k : Nat} {windowToSend : List Nat} {a : Addr} {bs : Bytes}
    (hphase : t.phase = .head) (hgoing : t.downloading = true)
    (hfound : s.handlers.get? t.key = some (.download g))
    (hwindow : g.windowToSend = k :: windowToSend)
    (hroom : clk.now < t.last + t.rtt ∧ g.windowSending.length < t.cwnd)
    (haddress : s.clientAddress = some a) (hbs : (taskPocket g t k).toBytes = .ok bs) :
    taskStep env clk t s = .ok t
      { s with
        handlers := s.handlers.set t.key (.download (g.shift k windowToSend))
        app := { s.app with log := s.app.log ++ [.sent (taskPocket g t k) a] } } := by
  have hset : setHandler t.key (.download (g.shift k windowToSend)) s =
      .ok () { s with handlers := s.handlers.set t.key (.download (g.shift k windowToSend)) } := rfl
  have hsend : ∀ u : Server, onApp (sendto (taskPocket g t k) a) u =
      .ok () { u with app := { u.app with log := u.app.log ++ [.sent (taskPocket g t k) a] } } := by
    intro u
    rw [onApp, zoom, sendto, hbs]
    rfl
  simp only [taskStep, hphase]
  rw [taskHead, if_neg (by simp [hgoing]), bind_of_ok (getDownload_of_found hfound), hwindow]
  dsimp only
  rw [if_pos hroom]
  refine (bind_of_ok hset).trans ((bind_of_ok (get_apply _)).trans ?_)
  dsimp only
  rw [haddress]
  exact bind_of_ok (hsend _)

theorem afterPocket_same (t : Task) (p : Pocket) :
    (t.afterPocket p).key = t.key ∧ (t.afterPocket p).phase = t.phase := by
  unfold Task.afterPocket
  split
  · exact ⟨rfl, rfl⟩
  · exact ⟨rfl, rfl⟩

/-- A pocket is taken out of the queue. -/
theorem taskStep_of_pocket {p : Pocket} {pockets : List Pocket} (hphase : t.phase = .refresh)
    (hfound : s.handlers.get? t.key = some (.download g)) (hqueue : g.pockets = p :: pockets) :
    taskStep env clk t s = .ok (t.afterPocket p)
      { s with
        handlers := s.handlers.set t.key (.download (receivePocket { g with pockets } p)) } := by
  simp only [taskStep, hphase]
  rw [taskRefresh, bind_of_ok (getDownload_of_found hfound), hqueue]
  rfl

/-- With nothing in the queue, the end of the round ends the refresh. -/
theorem taskStep_of_over (hphase : t.phase = .refresh)
    (hfound : s.handlers.get? t.key = some (.download g)) (hqueue : g.pockets = [])
    (hover : t.last + t.rtt < clk.now) :
    taskStep env clk t s = .ok
      { t with
        phase := .head, cwnd := (nextWindow env t (!g.windowSending.isEmpty)).1
        cwndMax := (nextWindow env t (!g.windowSending.isEmpty)).2
        rtt := clk.rttEnd - t.last, last := clk.lastEnd }
      { s with handlers := s.handlers.set t.key (.download (requeue g)) } := by
  simp only [taskStep, hphase]
  rw [taskRefresh, bind_of_ok (getDownload_of_found hfound), hqueue]
  dsimp only
  rw [if_pos hover]
  rfl

theorem taskStep_of_closing (hphase : t.phase = .closing)
    (hfound : s.handlers.get? t.key = some (.download g)) :
    taskStep env clk t s = .ok { t with phase := .leaving }
      (s.logged [.sent closePocket g.clientAddress]) := by
  simp only [taskStep, hphase]
  rw [taskClose, bind_of_ok (getDownload_of_found hfound)]
  rfl

theorem taskStep_of_leaving (hphase : t.phase = .leaving)
    (hfound : s.handlers.get? t.key = some (.download g)) (hid : g.requestID = t.key) :
    taskStep env clk t s = .ok { t with phase := .ended }
      { s with handlers := s.handlers.erase t.key } := by
  have hhandler : getHandler t.key s = .ok (.download g) s := by
    rw [getHandler, reads, hfound]
  have hpop : popHandler t.key s = .ok () { s with handlers := s.handlers.erase t.key } := by
    rw [popHandler, bind_of_ok hhandler]
    rfl
  simp only [taskStep, hphase]
  rw [taskLeave, bind_of_ok (getDownload_of_found hfound), hid, bind_of_ok hpop]
  rfl

end Phases

-- ============================================================================
-- Ready downloads
-- ============================================================================

/-- Every download that is ready was submitted. -/
def Tasked (s : Server) : Prop :=
  ∀ r g, s.handlers.get? r = some (.download g) → g.ready = true → r ∈ s.tasks.map Task.key

theorem Effect.tasked {T T' : Tables} {p : Pocket} {a : Addr} {ok : Bool} {new : List Action}
    (h : Effect env T p a ok T' new) (hT : TableInv T)
    (hs : ∀ r g, T.handlers.get? r = some (.download g) → g.ready = true →
      r ∈ T.tasks.map Task.key) {r : Nat} {g : DownloadRequestHandler}
    (hg : T'.handlers.get? r = some (.download g)) (hready : g.ready = true) :
    r ∈ T'.tasks.map Task.key := by
  have hset : ∀ {k : Nat} {f : Handler}, (T.handlers.set k f).get? r = some (.download g) →
      T.handlers.get? r = some (.download g) ∨ r = k ∧ f = .download g := by
    intro k f hf
    rw [Dict.get?_set] at hf
    split at hf
    · next hk => exact Or.inr ⟨hk, Option.some.inj hf⟩
    · exact Or.inl hf
  have hold : T.handlers.get? r = some (.download g) → r ∈ T.tasks.map Task.key := fun h =>
    hs r g h hready
  cases h with
  | opened request opened =>
      rcases hset hg with hg | ⟨-, rfl⟩
      · exact hold hg
      · have hunready := opened.unready_eq
        rw [Handler.unready, hready] at hunready
        cases hunready
  | stored type found layer part length finished =>
      rcases hset hg with hg | ⟨-, heq⟩
      · exact hold hg
      · cases heq
  | stuck type found layer full part closed =>
      rcases hset hg with hg | ⟨-, heq⟩
      · exact hold hg
      · cases heq
  | completed type found layer full =>
      dsimp only at hg
      rw [Dict.get?_erase] at hg
      split at hg
      · cases hg
      · rcases hset hg with hg | ⟨-, heq⟩
        · exact hold hg
        · cases heq
  | started other found unready =>
      rw [List.map_append, List.mem_append]
      rcases hset hg with hg | ⟨rfl, -⟩
      · exact Or.inl (hold hg)
      · exact Or.inr List.mem_cons_self
  | halfStarted other found unready missing =>
      exact absurd (Or.inr (Or.inl ⟨_, found, unready, missing⟩)) (hT.not_lookupFails p)
  | queued other found ready =>
      rcases hset hg with hg | ⟨rfl, -⟩
      · exact hold hg
      · exact hs _ _ found ready
  | _ => exact hold hg

theorem Tasked.step {t : Server} {e : Event} (h : Tasked s) (hs : ServerInv s)
    (hstep : App.step env s e = some t) : Tasked t := by
  cases e with
  | timeout => exact step_timeout hstep ▸ h
  | recv data a amb =>
      obtain ⟨-, hrecv⟩ := step_recv hstep
      intro r g hg hready
      cases hrecv with
      | quiet tables log clientAddress stopped =>
          have hhandlers : t.handlers = s.handlers := congrArg Tables.handlers tables
          have htasks : t.tasks = s.tasks := congrArg Tables.tasks tables
          rw [htasks]
          exact h r g (hhandlers ▸ hg) hready
      | turn decoded effect log resent clientAddress returned raised =>
          exact effect.tasked hs.tables h hg hready
  | task i clk =>
      obtain ⟨task, task', hd, new, htask, -, heffect, rfl⟩ := (step_task hstep).worked
      have hkey : task'.key = task.key := by
        rcases heffect with heffect | ⟨-, e, rfl, -⟩
        · exact heffect.key_eq
        · rfl
      obtain ⟨result, heff⟩ : ∃ result, TaskEffect clk s task result hd new :=
        heffect.elim (fun heff => ⟨_, heff⟩) fun heff => ⟨_, heff.1⟩
      intro r g hg hready
      show r ∈ (s.tasks.set i task').map Task.key
      rw [map_key_set htask hkey]
      by_cases hr : r = task.key
      · exact hr ▸ List.mem_map_of_mem (List.mem_of_getElem? htask)
      · have hg : hd.get? r = some (.download g) := hg
        rw [heff.get?_of_ne hs.tables hr] at hg
        exact h r g hg hready

theorem tasked_of_exec {fs : FileTree} {es : List Event}
    (h : exec (App.step env) (Server.init fs) es = some s) : Tasked s := by
  refine exec_history (fun _ => Tasked) (fun r g hg => (by cases hg))
    (fun es s e t hes hs hstep => ?_) h
  exact hs.step (serverInv_of_exec hes) hstep

end App
end NetworkingFinal
