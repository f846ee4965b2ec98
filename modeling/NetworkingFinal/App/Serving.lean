/-
  NetworkingFinal.App.Serving

  Which turns open a request: an id that is new in the table was drawn by a run of
  `create_handler` on a Request of this turn (`opensOnly_of_recv`).
-/
import NetworkingFinal.App.FileWork
import NetworkingFinal.App.Accounts
import NetworkingFinal.App.Log
import NetworkingFinal.App.Rejections

namespace NetworkingFinal
namespace App

open Py Py.Prog Py.Os Py.PosixPath Py.Struct Ftp Lib

variable {env : Env}

-- ============================================================================
-- The turn that opens a request
-- ============================================================================

/-- No request id is new. -/
def noNewRequest : Frame Server where
  rel s t := ∀ r, s.handlers.get? r = none → t.handlers.get? r = none
  refl _ _ h := h
  trans h h' r hr := h' r (h r hr)

section Opening

variable {amb : Ambient} {s t : Server} {p : Pocket} {a : Addr}

theorem noNewRequest_onApp {α : Type} (x : Prog State α) : Keeps noNewRequest (onApp x) := by
  intro s r hr
  rw [onApp, zoom]
  split <;> exact hr

theorem noNewRequest_popHandler {k : Nat} : Keeps noNewRequest (popHandler k) := by
  refine keeps_bind (keeps_reads _) fun _ => keeps_modify fun s r hr => ?_
  rw [Dict.get?_erase, hr, ite_self]

theorem noNewRequest_popNotReady {k : Nat} : Keeps noNewRequest (popNotReady k) := by
  refine keeps_writes fun s t h => ?_
  split at h
  · cases h
    exact fun _ hr => hr
  · cases h

/-- Changing a handler that is there. -/
theorem noNewRequest_set {k : Nat} {f g : Handler} (hf : s.handlers.get? k = some f) :
    noNewRequest.rel s { s with handlers := s.handlers.set k g } := by
  intro r hr
  show (s.handlers.set k g).get? r = none
  rw [Dict.get?_set_of_ne, hr]
  rintro rfl
  rw [hf] at hr
  cases hr

theorem wp_handleUploadPocket_noNew {k : Nat} {h : UploadRequestHandler}
    (hfound : s.handlers.get? k = some (.upload h)) :
    wp (handleUploadPocket env amb k h p) (fun _ t => noNewRequest.rel s t)
      (fun _ t => noNewRequest.rel s t) s := by
  unfold handleUploadPocket
  split
  · exact noNewRequest.refl s
  · next segment _ =>
      refine wp_ite.mpr ⟨fun _ => noNewRequest.refl s, fun _ => ?_⟩
      rw [wp_bind, wp_setHandler]
      refine wp_of_keeps ?_ fun t ht => noNewRequest.trans (noNewRequest_set hfound) ht
      refine keeps_bind (noNewRequest_onApp _) fun _ => keeps_ite (fun _ => ?_) fun _ => keeps_pure _
      exact keeps_bind (noNewRequest_onApp _) fun _ => keeps_bind (noNewRequest_onApp _) fun _ =>
        keeps_pure _

/-- A turn that makes a request id new ran `create_handler`. -/
def OpensOnly (env : Env) (amb : Ambient) (p : Pocket) (a : Addr) (s t : Server) : Prop :=
  noNewRequest.rel s t ∨ p.basicLayer.pocketType = .request ∧ ∃ pre g res u,
    createHandler env amb p a { s.app with log := s.app.log ++ pre } = .ok (some (g, res)) u ∧
      t.app = u ∧ t.handlers = s.handlers.set g.requestID g

theorem wp_dispatch_opensOnly (pre : List Action) :
    wp (dispatch env amb p a) (fun _ t => OpensOnly env amb p a s t)
      (fun _ t => OpensOnly env amb p a s t) (s.logged pre) := by
  unfold dispatch
  refine wp_ite.mpr ⟨fun hreq => ?_, fun _ => ?_⟩
  · rw [wp_bind, wp_onApp]
    refine wp_of_runs (fun result u hrun => ?_) fun e u hrun => Or.inl fun _ h => h
    cases result with
    | none => exact Or.inl fun _ h => h
    | some opened =>
        rw [wp_bind, wp_when]
        exact ⟨fun _ => Or.inr ⟨hreq, pre, _, _, u, hrun, rfl, rfl⟩,
          fun _ => Or.inr ⟨hreq, pre, _, _, u, hrun, rfl, rfl⟩⟩
  · have hkept : ∀ t : Server, noNewRequest.rel (s.logged pre) t → OpensOnly env amb p a s t :=
      fun _ ht => Or.inl ht
    rw [wp_bind, wp_get]
    split
    · next h hfound =>
        rw [wp_bind]
        refine wp_mono (wp_handleUploadPocket_noNew hfound) (fun more t ht => ?_)
          fun _ t ht => hkept t ht
        refine wp_of_keeps (keeps_when fun _ => noNewRequest_popHandler) fun u hu => ?_
        exact hkept u (noNewRequest.trans ht hu)
    · next h hfound =>
        have hset := fun g : Handler => noNewRequest_set (g := g) hfound
        refine wp_ite.mpr ⟨fun _ => ?_, fun _ => hkept _ (hset _)⟩
        rw [wp_bind, wp_setHandler]
        refine wp_of_keeps (keeps_bind noNewRequest_popNotReady fun _ =>
          keeps_modify fun _ _ h => h) fun u hu => ?_
        exact hkept u (noNewRequest.trans (hset _) hu)
    · exact wp_of_keeps (noNewRequest_onApp _) hkept

theorem opensOnly_of_recv {data : Bytes} (hdecode : Pocket.fromBytes data = .ok p)
    (h : step env s (.recv data a amb) = some t) : OpensOnly env amb p a s t := by
  have hturn : wp (iteration env amb data a) (fun _ t => OpensOnly env amb p a s t)
      (fun _ t => OpensOnly env amb p a s t) s := by
    unfold iteration
    rw [wp_bind, wp_modify]
    refine wp_ite.mpr ⟨fun _ => Or.inl fun _ h => h, fun _ => ?_⟩
    rw [wp_bind, wp_lift]
    refine ⟨fun q hq => ?_, fun e _ => Or.inl fun _ h => h⟩
    rw [hdecode, Except.ok.injEq] at hq
    subst hq
    rw [wp_bind]
    refine wp_mono wp_resendNotReady (fun _ u hu => ?_) fun e u hu => ?_
    · obtain ⟨pre, rfl, -⟩ := hu
      exact wp_dispatch_opensOnly (s := { s with clientAddress := some a }) pre
    · obtain ⟨⟨pre, rfl, -⟩, -⟩ := hu
      exact Or.inl fun _ h => h
  obtain ⟨-, hok | ⟨e, u, herror, rfl⟩⟩ := recv_of_wp hturn h
  · exact hok
  · exact herror

end Opening

end App
end NetworkingFinal
