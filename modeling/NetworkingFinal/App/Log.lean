/-
  NetworkingFinal.App.Log

  What the actions of the process tell about its request ids: nothing is stored
  and no segment is sent for an id that has not been drawn, and only Responses
  are sent again.
-/
import NetworkingFinal.App.Ownership

namespace NetworkingFinal
namespace App

open Py Py.Prog Ftp Lib

variable {env : Env} {clk : Readings}

/-- The Response of the request `k`, which asked for a download or a listing. -/
structure Awaits (k : Nat) (res : Pocket) : Prop where
  basic : ∃ sub, sub ≠ .upload ∧ res.basicLayer = ⟨k, .response, sub⟩
  plain : res.requestLayer = none
  layer : ∃ layer, res.responseLayer = some layer ∧ layer.errorMessage = []

theorem Awaits.type {k : Nat} {res : Pocket} (h : Awaits k res) :
    res.basicLayer.pocketType = .response := by
  obtain ⟨sub, -, hbasic⟩ := h.basic
  rw [hbasic]

structure LogInv (s : Server) : Prop where
  posts : ∀ r, s.app.lastRequestID < r → postsFor r s.app.log = []
  segments : ∀ p a, .sent p a ∈ s.app.log → p.basicLayer.pocketType = .segment →
    p.requestID ≤ s.app.lastRequestID
  responses : ∀ k res, s.notReady.get? k = some res → Awaits k res

-- ============================================================================
-- One turn
-- ============================================================================

theorem Effect.lastRequestID_le {T T' : Tables} {p : Pocket} {a : Addr} {ok : Bool}
    {new : List Action} (h : Effect env T p a ok T' new) :
    T.lastRequestID ≤ T'.lastRequestID := by
  cases h with
  | refused request drawn replies =>
      simp only
      omega
  | opened request opened => exact Nat.le_succ _
  | _ => exact Nat.le_refl _

/-- The main loop itself sends no segment. -/
theorem Effect.not_segment {T T' : Tables} {p : Pocket} {a : Addr} {ok : Bool}
    {new : List Action} (h : Effect env T p a ok T' new) {q : Pocket} {b : Addr}
    (hq : .sent q b ∈ new) : q.basicLayer.pocketType ≠ .segment := by
  have hcompletion : ∀ (g : UploadRequestHandler) (segmentID : Nat),
      .sent q b ∈ completion g segmentID → q.basicLayer.pocketType ≠ .segment := by
    intro g segmentID hmem
    simp only [completion, List.mem_cons, Action.sent.injEq, reduceCtorEq, List.not_mem_nil,
      or_false] at hmem
    rcases hmem with ⟨rfl, -⟩ | ⟨rfl, -⟩
    · exact PocketType.noConfusion
    · exact PocketType.noConfusion
  cases h with
  | refused request drawn replies =>
      have htype : q.basicLayer.pocketType = .response := (replies _ hq).2.1
      rw [htype]
      exact PocketType.noConfusion
  | opened request opened =>
      have hres := List.mem_singleton.mp hq
      cases hres
      rw [opened.layer]
      exact PocketType.noConfusion
  | stored type found layer part length finished => exact hcompletion _ _ (part.subset hq)
  | stuck type found layer full part closed => exact hcompletion _ _ (part.subset hq)
  | completed type found layer full => exact hcompletion _ _ hq
  | unknown other absent =>
      have hclose := List.mem_singleton.mp hq
      cases hclose
      exact PocketType.noConfusion
  | _ => cases hq

/-- The Response of an accepted download. -/
theorem Opened.awaits {request res : Pocket} {a : Addr} {r : Nat} {g : Handler}
    (h : Opened env request a r g res) (hdownload : g.isDownload = true) : Awaits r res := by
  obtain ⟨layer, storagePath, data, dataSize, -, -, -, hres, hshape⟩ := h.shape
  refine ⟨⟨_, fun hupload => ?_, h.layer⟩, h.plain, _, hres, rfl⟩
  rw [hshape, openedHandler, if_pos hupload] at hdownload
  cases hdownload

theorem Effect.responses {T T' : Tables} {p : Pocket} {a : Addr} {ok : Bool}
    {new : List Action} (h : Effect env T p a ok T' new)
    (hT : ∀ k res, T.notReady.get? k = some res → Awaits k res) :
    ∀ k res, T'.notReady.get? k = some res → Awaits k res := by
  intro k res hk
  cases h with
  | @opened g res' request opened =>
      simp only at hk
      split at hk
      · next hdownload =>
          rw [Dict.get?_set] at hk
          split at hk
          · next hkey =>
              rw [← Option.some.inj hk, hkey, opened.base_eq.1]
              exact opened.awaits hdownload
          · exact hT k res hk
      · exact hT k res hk
  | started other found unready =>
      rw [Dict.get?_erase] at hk
      split at hk
      · cases hk
      · exact hT k res hk
  | _ => exact hT k res hk

/-- A segment a worker sends belongs to its own download. -/
theorem TaskEffect.segment_requestID {s : Server} {t : Task} {result : Option Task}
    {hs : Dict Nat Handler} {new : List Action} (h : TaskEffect clk s t result hs new)
    (hT : TableInv s.tables) {q : Pocket} {b : Addr} (hq : .sent q b ∈ new)
    (htype : q.basicLayer.pocketType = .segment) :
    q.requestID = t.key ∧ t.key ≤ s.app.lastRequestID := by
  cases h with
  | sent phase going found window room address encoded =>
      have hsent := List.mem_singleton.mp hq
      cases hsent
      obtain ⟨hid, -, hle⟩ := hT.id _ _ found
      exact ⟨hid, hle⟩
  | closed phase found =>
      have hclose := List.mem_singleton.mp hq
      cases hclose
      cases htype
  | _ => cases hq

-- ============================================================================
-- Runs
-- ============================================================================

theorem LogInv.step {s t : Server} {e : Event} (hs : LogInv s) (hinv : ServerInv s)
    (h : App.step env s e = some t) : LogInv t := by
  cases e with
  | recv data a amb =>
      obtain ⟨-, hrecv⟩ := step_recv h
      cases hrecv with
      | quiet tables log clientAddress stopped =>
          have hlast : t.app.lastRequestID = s.app.lastRequestID :=
            congrArg Tables.lastRequestID tables
          have hnotReady : t.notReady = s.notReady := congrArg Tables.notReady tables
          refine ⟨fun r hr => ?_, fun p b hp htype => ?_, ?_⟩
          · rw [log]
            exact hs.posts r (hlast ▸ hr)
          · rw [log] at hp
            rw [hlast]
            exact hs.segments p b hp htype
          · rw [hnotReady]
            exact hs.responses
      | @turn p ok pre new decoded effect log resent clientAddress returned raised =>
          have hle : s.app.lastRequestID ≤ t.app.lastRequestID := effect.lastRequestID_le
          refine ⟨fun r hr => ?_, fun q b hq htype => ?_, effect.responses hs.responses⟩
          · rw [log, postsFor_append, postsFor_append, hs.posts r (by omega),
              postsFor_eq_nil_of_resent resent]
            rcases effect.posts r with hnil | ⟨-, hlast, -⟩ |
              ⟨g, segment, -, -, found, -, rfl, -, -⟩
            · rw [hnil]
              rfl
            · exact absurd (show t.app.lastRequestID = r from hlast) (by omega)
            · obtain ⟨hid, -, hdrawn⟩ := hinv.tables.id _ _ found
              have hkey : g.requestID ≤ s.app.lastRequestID :=
                (show g.requestID = p.requestID from hid) ▸ hdrawn
              omega
          · rw [log, List.mem_append, List.mem_append] at hq
            rcases hq with (hq | hq) | hq
            · exact (hs.segments q b hq htype).trans hle
            · obtain ⟨k, res, g, hres, -, heq⟩ := resent _ hq
              cases heq
              rw [(hs.responses k _ hres).type] at htype
              cases htype
            · exact absurd htype (effect.not_segment hq)
  | timeout =>
      rw [step_timeout h]
      exact hs
  | task i clk =>
      obtain ⟨task, task', result, hd, new, -, -, -, heff, rfl⟩ := (step_task h).effect
      refine ⟨fun r hr => ?_, fun q b hq htype => ?_, hs.responses⟩
      · rw [show (s.advanced hd new).app.log = s.app.log ++ new from rfl, postsFor_append,
          hs.posts r hr, heff.postsFor_eq_nil]
        rfl
      · rcases List.mem_append.mp hq with hq | hq
        · exact hs.segments q b hq htype
        · obtain ⟨hid, hle⟩ := heff.segment_requestID hinv.tables hq htype
          rw [hid]
          exact hle

/-- The invariants of the process together. -/
structure AppInv (s : Server) : Prop where
  server : ServerInv s
  log : LogInv s

theorem appInv_init (fs : FileTree) : AppInv (Server.init fs) where
  server := serverInv_init fs
  log := by
    refine ⟨fun r _ => rfl, fun p a hp => ?_, fun k res hk => ?_⟩
    · cases hp
    · cases hk

theorem AppInv.step {s t : Server} {e : Event} (hs : AppInv s) (h : App.step env s e = some t) :
    AppInv t :=
  ⟨hs.server.step h, hs.log.step hs.server h⟩

theorem appInv_of_exec {fs : FileTree} {es : List Event} {s : Server}
    (h : exec (App.step env) (Server.init fs) es = some s) : AppInv s :=
  exec_invariant AppInv (appInv_init fs) (fun _ _ _ hs ht => hs.step ht) h

-- ============================================================================
-- Accepted requests
-- ============================================================================

/-- A turn on `request` takes the process from `s` to `t`, where it has stored a
    handler under the id `r`, and its last action was the Response `res`. -/
structure Accepts (env : Env) (fs : FileTree) (request : Pocket) (r : Nat) (res : Pocket)
    (s t : Server) : Prop where
  reached : ∃ es, exec (App.step env) (Server.init fs) es = some s
  turn : ∃ data a amb, App.step env s (.recv data a amb) = some t ∧
    Pocket.fromBytes data = .ok request ∧ t.app.log.getLast? = some (.sent res a)
  fresh : s.handlers.get? r = none
  taken : t.handlers.get? r ≠ none

/-- What a turn that stores a new handler does. -/
theorem Effect.opened_of_fresh {T T' : Tables} {p : Pocket} {a : Addr} {ok : Bool}
    {new : List Action} (h : Effect env T p a ok T' new) {r : Nat}
    (hfresh : T.handlers.get? r = none) (htaken : T'.handlers.get? r ≠ none) :
    ∃ g res, Opened env p a r g res ∧ r = T.lastRequestID + 1 ∧
      T'.handlers.get? r = some g ∧ T'.lastRequestID = r ∧ T'.tasks = T.tasks ∧
      new = [.sent res a] := by
  have hset : ∀ (k : Nat) (f g : Handler), T.handlers.get? k = some g →
      (T.handlers.set k f).get? r = none := by
    intro k f g hg
    rw [Dict.get?_set_of_ne, hfresh]
    rintro rfl
    rw [hg] at hfresh
    cases hfresh
  cases h with
  | @opened g res request opened =>
      by_cases hr : r = g.requestID
      · have hid : r = T.lastRequestID + 1 := hr.trans opened.base_eq.1
        refine ⟨g, res, hid ▸ opened, hid, ?_, hid.symm, rfl, rfl⟩
        simp only [hr, Dict.get?_set_self]
      · simp only [Dict.get?_set_of_ne hr] at htaken
        exact absurd hfresh htaken
  | stored type found layer part length finished =>
      exact absurd (hset _ _ _ found) htaken
  | stuck type found layer full part closed => exact absurd (hset _ _ _ found) htaken
  | completed type found layer full =>
      simp only [Dict.get?_erase] at htaken
      split at htaken
      · exact absurd rfl htaken
      · exact absurd (hset _ _ _ found) htaken
  | started other found unready => exact absurd (hset _ _ _ found) htaken
  | halfStarted other found unready missing => exact absurd (hset _ _ _ found) htaken
  | queued other found ready => exact absurd (hset _ _ _ found) htaken
  | _ => exact absurd hfresh htaken

/-- The request was opened under `r`, and nothing has been done for `r` yet. -/
theorem Accepts.opened {fs : FileTree} {request res : Pocket} {r : Nat} {s t : Server}
    (h : Accepts env fs request r res s t) :
    ∃ a g, Opened env request a r g res ∧ t.handlers.get? r = some g ∧
      t.app.lastRequestID = r ∧ AppInv t ∧ postsFor r t.app.log = [] ∧
      (∀ p b, .sent p b ∈ t.app.log → p.basicLayer.pocketType = .segment → p.requestID < r) ∧
      (∀ task ∈ t.tasks, task.key < r) := by
  obtain ⟨es, hes⟩ := h.reached
  obtain ⟨data, a, amb, hstep, hdecode, hlast⟩ := h.turn
  have hs := appInv_of_exec hes
  have ht := hs.step hstep
  obtain ⟨-, hrecv⟩ := step_recv hstep
  cases hrecv with
  | quiet tables log clientAddress stopped =>
      have hhandlers : t.handlers = s.handlers := congrArg Tables.handlers tables
      exact absurd (hhandlers ▸ h.fresh) h.taken
  | @turn p ok pre new decoded effect log resent clientAddress returned raised =>
      rw [hdecode, Except.ok.injEq] at decoded
      obtain ⟨g, res', hopened, hr, hg, hdrawn, htasks, rfl⟩ :=
        effect.opened_of_fresh h.fresh h.taken
      have hid : r = s.app.lastRequestID + 1 := hr
      rw [log, List.getLast?_concat, Option.some_inj, Action.sent.injEq] at hlast
      rw [hlast.1, ← decoded] at hopened
      refine ⟨a, g, hopened, hg, hdrawn, ht, ?_, fun q b hq htype => ?_, fun task htask => ?_⟩
      · rw [log, postsFor_append, postsFor_append, hs.log.posts r (by omega),
          postsFor_eq_nil_of_resent resent]
        rfl
      · rw [log, List.mem_append, List.mem_append] at hq
        rcases hq with (hq | hq) | hq
        · have hle := hs.log.segments q b hq htype
          omega
        · obtain ⟨k, res'', f, hres, -, heq⟩ := resent _ hq
          cases heq
          rw [(hs.log.responses k _ hres).type] at htype
          cases htype
        · exact absurd htype (effect.not_segment hq)
      · rw [show t.tasks = s.tasks from htasks] at htask
        have hpast : task.key ≤ s.app.lastRequestID := hs.server.tables.past task htask
        omega

end App
end NetworkingFinal
