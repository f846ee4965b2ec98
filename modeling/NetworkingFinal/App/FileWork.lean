/-
  NetworkingFinal.App.FileWork

  Everything one turn of the main loop can do to the filesystem.

  `FileWork` has one constructor for each way: nothing, what `create_handler` does
  for a Request, and storing an upload that its last segment completes.  The
  workers do nothing to it.
-/
import NetworkingFinal.App.RequestTable

namespace NetworkingFinal
namespace App

open Py Py.Prog Py.Os Ftp Lib

variable {env : Env}

/-- The upload, with its last segment, that the pocket completes. -/
def completedBy (handlers : Dict Nat Handler) (p : Pocket) : Option UploadRequestHandler :=
  match handlers.get? p.requestID, p.segmentLayer with
  | some (.upload h), some segment =>
      if p.basicLayer.pocketType = .segment ∧
          (h.store segment).segments.size = (h.store segment).segmentsAmount then
        some (h.store segment)
      else none
  | _, _ => none

/-- The file work of a turn on the pocket `p` from `a`.  The flag is false when an
    exception cut the turn short. -/
inductive FileWork (env : Env) (amb : Ambient) (s : State) (handlers : Dict Nat Handler)
    (p : Pocket) (a : Addr) : Bool → FileTree → Prop
  | idle {ok : Bool}
      (quiet : ok = true → p.basicLayer.pocketType ≠ .request ∧ completedBy handlers p = none) :
      FileWork env amb s handlers p a ok s.fs
  | request {pre : List Action} {result : Option (Handler × Pocket)} {t : State}
      (type : p.basicLayer.pocketType = .request)
      (run : createHandler env amb p a { s with log := s.log ++ pre } = .ok result t) :
      FileWork env amb s handlers p a true t.fs
  | requestFailed {pre : List Action} {e : Exn} {t : State}
      (type : p.basicLayer.pocketType = .request)
      (run : createHandler env amb p a { s with log := s.log ++ pre } = .error e t) :
      FileWork env amb s handlers p a false t.fs
  | stored {ok : Bool} {h : UploadRequestHandler} {layer : UploadRequestLayer} {fs : FileTree}
      (other : p.basicLayer.pocketType ≠ .request)
      (completed : completedBy handlers p = some h)
      (request : h.request.uploadRequestLayer = some layer)
      (run : storeUpload env amb.now (getPath env layer.path h.storagePath)
        (assembled h.segments) s.fs = .ok () fs) :
      FileWork env amb s handlers p a ok fs
  | storeFailed {h : UploadRequestHandler} {layer : UploadRequestLayer} {e : Exn} {fs : FileTree}
      (other : p.basicLayer.pocketType ≠ .request)
      (completed : completedBy handlers p = some h)
      (request : h.request.uploadRequestLayer = some layer)
      (run : storeUpload env amb.now (getPath env layer.path h.storagePath)
        (assembled h.segments) s.fs = .error e fs) :
      FileWork env amb s handlers p a false fs

-- ============================================================================
-- Completed uploads
-- ============================================================================

section Completed

variable {handlers : Dict Nat Handler} {p : Pocket}

/-- A pocket completes an upload of the table with the segment it carries. -/
theorem completedBy_eq_some_iff {u : UploadRequestHandler} :
    completedBy handlers p = some u ↔ ∃ h segment, handlers.get? p.requestID = some (.upload h) ∧
      p.segmentLayer = some segment ∧ p.basicLayer.pocketType = .segment ∧
      u = h.store segment ∧ u.segments.size = u.segmentsAmount := by
  unfold completedBy
  split
  · next h segment hfound hsegment =>
      constructor
      · intro hu
        split at hu
        · next hfull =>
            cases hu
            exact ⟨h, segment, hfound, hsegment, hfull.1, rfl, hfull.2⟩
        · cases hu
      · rintro ⟨h', segment', hfound', hsegment', htype, rfl, hfull⟩
        rw [hfound, Option.some_inj] at hfound'
        rw [hsegment, Option.some_inj] at hsegment'
        cases hfound'
        cases hsegment'
        rw [if_pos ⟨htype, hfull⟩]
  · next hno =>
      constructor
      · intro hu
        cases hu
      · rintro ⟨h, segment, hfound, hsegment, -⟩
        exact (hno h segment hfound hsegment).elim

theorem completedBy_eq_none (h : ∀ u segment, handlers.get? p.requestID = some (.upload u) →
    p.segmentLayer = some segment → p.basicLayer.pocketType = .segment →
    (u.store segment).segments.size ≠ (u.store segment).segmentsAmount) :
    completedBy handlers p = none := by
  rw [Option.eq_none_iff_forall_ne_some]
  intro u hu
  obtain ⟨g, segment, hfound, hsegment, htype, rfl, hfull⟩ := completedBy_eq_some_iff.mp hu
  exact h g segment hfound hsegment htype hfull

end Completed

-- ============================================================================
-- The turn
-- ============================================================================

section Turn

variable {amb : Ambient} {s : Server} {p : Pocket} {a : Addr}

/-- A turn that was cut short before it did anything to the files. -/
theorem FileWork.broken {handlers : Dict Nat Handler} {st : State} :
    FileWork env amb st handlers p a false st.fs :=
  .idle fun h => by cases h

/-- The upload branch of the dispatch: only a completed upload is stored. -/
theorem wp_uploadPocket_files {h : UploadRequestHandler}
    (hother : p.basicLayer.pocketType ≠ .request)
    (hfound : s.handlers.get? p.requestID = some (.upload h)) (pre : List Action) :
    wp (do
        let more ← handleUploadPocket env amb p.requestID h p
        when (!more) (popHandler h.requestID))
      (fun _ t => FileWork env amb s.app s.handlers p a true t.app.fs)
      (fun _ t => FileWork env amb s.app s.handlers p a false t.app.fs) (s.logged pre) := by
  have hincomplete : (∀ segment, p.segmentLayer = some segment →
      p.basicLayer.pocketType = .segment →
      (h.store segment).segments.size ≠ (h.store segment).segmentsAmount) →
      FileWork env amb s.app s.handlers p a true s.app.fs := by
    refine fun hno => .idle fun _ => ⟨hother, completedBy_eq_none fun u segment hu => ?_⟩
    rw [hfound, Option.some_inj, Handler.upload.injEq] at hu
    exact hu ▸ hno segment
  rw [wp_bind, handleUploadPocket]
  split
  · next hnone => exact hincomplete fun segment hsegment => by rw [hnone] at hsegment; cases hsegment
  · next segment hsegment =>
      refine wp_ite.mpr ⟨fun hne => hincomplete fun _ _ htype => absurd htype hne, fun htype => ?_⟩
      rw [not_not] at htype
      rw [wp_bind, wp_setHandler, wp_bind]
      refine wp_serverSendto ?_ fun _ _ => .broken
      refine wp_ite.mpr ⟨fun hfull => ?_, fun hmore => hincomplete fun segment' hsegment' _ => ?_⟩
      · have hcompleted : completedBy s.handlers p = some (h.store segment) :=
          completedBy_eq_some_iff.mpr ⟨h, segment, hfound, hsegment, htype, rfl, hfull⟩
        rw [wp_bind]
        refine wp_serverSendto ?_ fun _ _ => .broken
        rw [wp_bind, wp_onApp, postUpload, wp_bind, wp_record]
        split
        · exact .broken
        · next layer hlayer =>
            rw [onFiles, wp_zoom]
            refine wp_of_runs (fun _ fs hrun => ?_) fun e fs hrun =>
              .storeFailed hother hcompleted hlayer hrun
            have hstored : ∀ ok, FileWork env amb s.app s.handlers p a ok fs := fun _ =>
              .stored hother hcompleted hlayer hrun
            rw [wp_pure, wp_when]
            refine ⟨fun _ => ?_, fun hf => by cases hf⟩
            rw [wp_popHandler]
            exact ⟨fun _ _ => hstored true, fun _ => hstored false⟩
      · rw [hsegment, Option.some_inj] at hsegment'
        exact hsegment' ▸ hmore

theorem wp_dispatch_files (pre : List Action) :
    wp (dispatch env amb p a) (fun _ t => FileWork env amb s.app s.handlers p a true t.app.fs)
      (fun _ t => FileWork env amb s.app s.handlers p a false t.app.fs) (s.logged pre) := by
  unfold dispatch
  refine wp_ite.mpr ⟨fun hreq => ?_, fun hother => ?_⟩
  · rw [wp_bind, wp_onApp]
    refine wp_of_runs (fun result t hrun => ?_) fun e t hrun => .requestFailed hreq hrun
    have hrequest : FileWork env amb s.app s.handlers p a true t.fs := .request hreq hrun
    cases result with
    | none => exact hrequest
    | some opened =>
        rw [wp_bind, wp_when]
        exact ⟨fun _ => hrequest, fun _ => hrequest⟩
  · have hnoUpload : (∀ h, s.handlers.get? p.requestID ≠ some (.upload h)) →
        FileWork env amb s.app s.handlers p a true s.app.fs := fun hno =>
      .idle fun _ => ⟨hother, completedBy_eq_none fun u _ hu => absurd hu (hno u)⟩
    rw [wp_bind, wp_get]
    split
    · next h hfound => exact wp_uploadPocket_files (s := s) hother hfound pre
    · next h hfound =>
        have hdownload : FileWork env amb s.app s.handlers p a true s.app.fs := by
          refine hnoUpload fun u hu => ?_
          rw [show s.handlers.get? p.requestID = some (.download h) from hfound] at hu
          cases hu
        refine wp_ite.mpr ⟨fun _ => ?_, fun _ => hdownload⟩
        rw [wp_bind, wp_setHandler, wp_bind, wp_popNotReady]
        exact ⟨fun _ _ => hdownload, fun _ => .broken⟩
    · next hnone =>
        refine wp_serverSendto (hnoUpload fun u hu => ?_) fun _ _ => .broken
        rw [show s.handlers.get? p.requestID = none from hnone] at hu
        cases hu

/-- Every turn of the main loop: the datagram does not decode and no file changes, or the
    turn does its file work. -/
theorem wp_iteration_files {data : Bytes} :
    wp (iteration env amb data a)
      (fun _ t => ((∀ p, Pocket.fromBytes data ≠ .ok p) ∧ t.app.fs = s.app.fs) ∨
        ∃ p, Pocket.fromBytes data = .ok p ∧
          FileWork env amb s.app s.handlers p a true t.app.fs)
      (fun _ t => ((∀ p, Pocket.fromBytes data ≠ .ok p) ∧ t.app.fs = s.app.fs) ∨
        ∃ p, Pocket.fromBytes data = .ok p ∧
          FileWork env amb s.app s.handlers p a false t.app.fs) s := by
  unfold iteration
  rw [wp_bind, wp_modify]
  refine wp_ite.mpr ⟨fun hempty => Or.inl ⟨fun p hp => ?_, rfl⟩, fun _ => ?_⟩
  · rw [hempty] at hp
    cases hp
  · rw [wp_bind, wp_lift]
    have hfails : ∀ e, Pocket.fromBytes data = .error e → ∀ p, Pocket.fromBytes data ≠ .ok p := by
      intro e he p hp
      rw [he] at hp
      cases hp
    refine ⟨fun p hp => ?_, fun e he => Or.inl ⟨hfails e he, rfl⟩⟩
    rw [wp_bind]
    refine wp_mono wp_resendNotReady (fun _ t ht => ?_) fun e t ht => ?_
    · obtain ⟨pre, rfl, -⟩ := ht
      refine wp_mono (wp_dispatch_files pre) (fun _ u hu => Or.inr ⟨p, hp, hu⟩)
        fun e u hu => Or.inr ⟨p, hp, hu⟩
    · obtain ⟨⟨pre, rfl, -⟩, -⟩ := ht
      exact Or.inr ⟨p, hp, .broken⟩

/-- What holds of the turn holds of the state after the receive, with the exception that
    cut the turn short. -/
theorem recv_of_wp {data : Bytes} {t : Server} {Q : Unit → Server → Prop}
    {R : Exn → Server → Prop} (hwp : wp (iteration env amb data a) Q R s)
    (h : step env s (.recv data a amb) = some t) :
    s.stopped = none ∧ (Q () t ∨ ∃ e u, R e u ∧ t = { u with stopped := some e }) := by
  rw [step] at h
  split at h
  · next hstop =>
      cases h
      refine ⟨hstop, ?_⟩
      rw [wp] at hwp
      cases hrun : iteration env amb data a s with
      | ok u t =>
          rw [hrun] at hwp
          exact Or.inl hwp
      | error e t =>
          rw [hrun] at hwp
          exact Or.inr ⟨e, t, hwp, rfl⟩
  · cases h

/-- What a receive does to the files, and that a process that goes on was not cut short. -/
theorem fileWork_of_recv {data : Bytes} {t : Server}
    (h : step env s (.recv data a amb) = some t) :
    s.stopped = none ∧
      (((∀ p, Pocket.fromBytes data ≠ .ok p) ∧ t.app.fs = s.app.fs) ∨
        ∃ p ok, Pocket.fromBytes data = .ok p ∧
          FileWork env amb s.app s.handlers p a ok t.app.fs ∧ (t.stopped = none → ok = true)) := by
  obtain ⟨hstop, hok | ⟨e, u, herror, rfl⟩⟩ := recv_of_wp wp_iteration_files h
  · exact ⟨hstop, hok.imp_right fun ⟨p, hp, hwork⟩ => ⟨p, true, hp, hwork, fun _ => rfl⟩⟩
  · exact ⟨hstop, herror.imp_right fun ⟨p, hp, hwork⟩ =>
      ⟨p, false, hp, hwork, fun hf => by cases hf⟩⟩

/-- The workers change no file, and no step starts the main loop again. -/
theorem fs_of_task {i : Nat} {clk : Readings} {t : Server}
    (h : step env s (.task i clk) = some t) :
    t.app.fs = s.app.fs ∧ t.stopped = s.stopped := by
  obtain ⟨task, task', result, hd, new, -, -, -, -, rfl⟩ := (step_task h).effect
  exact ⟨rfl, rfl⟩

end Turn

end App
end NetworkingFinal
