/-
  NetworkingFinal.App.Effect

  Everything one turn of the main loop can do to the tables and the actions.

  `Effect` has one constructor for each way a turn can go, also for the ways in
  which it is cut short by an exception; `wp_iteration` says that a turn ends in
  one of them.  The claims about runs use this inversion and never unfold
  `iteration`.
-/
import NetworkingFinal.App.Opening

namespace NetworkingFinal
namespace App

open Py Py.Prog Py.Os Ftp

variable {env : Env}

/-- The tables of the process: what requests there are and who works on them. -/
structure Tables where
  handlers : Dict Nat Handler
  notReady : Dict Nat Pocket
  tasks : List Task
  lastRequestID : Nat

def Server.tables (s : Server) : Tables :=
  ⟨s.handlers, s.notReady, s.tasks, s.app.lastRequestID⟩

/-- The tables after `handlers[key] = h`. -/
def Tables.withHandler (T : Tables) (key : Nat) (h : Handler) : Tables :=
  { T with handlers := T.handlers.set key h }

/-- What a completed upload does: acknowledge, close, store. -/
def completion (h : UploadRequestHandler) (segmentID : Nat) : List Action :=
  [.sent (akcPocket h.requestID segmentID) h.clientAddress,
   .sent closePocket h.clientAddress,
   .postUpload h.requestID (assembled h.segments)]

/-- From the tables `T`, a turn on the pocket `p` from `a` leads to the tables
    indexed and does the actions indexed.  `ok` is false when an exception cuts
    the turn short. -/
inductive Effect (env : Env) (T : Tables) (p : Pocket) (a : Addr) :
    Bool → Tables → List Action → Prop
  /-- the turn fails before it changes anything -/
  | broken : Effect env T p a false T []
  /-- a Request that opens nothing -/
  | refused {ok : Bool} {last : Nat} {new : List Action}
      (request : p.basicLayer.pocketType = .request)
      (drawn : last = T.lastRequestID ∨ last = T.lastRequestID + 1)
      (replies : ∀ x ∈ new, Reply a T.lastRequestID last x) :
      Effect env T p a ok { T with lastRequestID := last } new
  /-- a Request that is accepted -/
  | opened {h : Handler} {res : Pocket}
      (request : p.basicLayer.pocketType = .request)
      (opened : Opened env p a (T.lastRequestID + 1) h res) :
      Effect env T p a true
        { T with
          handlers := T.handlers.set h.requestID h
          notReady := if h.isDownload then T.notReady.set h.requestID res else T.notReady
          lastRequestID := T.lastRequestID + 1 } [.sent res a]
  /-- a pocket for an upload that is no segment -/
  | ignored {h : UploadRequestHandler}
      (other : p.basicLayer.pocketType ≠ .request)
      (found : T.handlers.get? p.requestID = some (.upload h))
      (noSegment : p.segmentLayer = none ∨ p.basicLayer.pocketType ≠ .segment) :
      Effect env T p a true T []
  /-- a segment that does not complete its upload -/
  | stored {ok : Bool} {h : UploadRequestHandler} {segment : SegmentLayer} {new : List Action}
      (type : p.basicLayer.pocketType = .segment)
      (found : T.handlers.get? p.requestID = some (.upload h))
      (layer : p.segmentLayer = some segment)
      (part : new <+: completion (h.store segment) segment.segmentID)
      (length : new.length ≤ 1)
      (finished : ok = true →
        new.length = 1 ∧ (h.store segment).segments.size ≠ (h.store segment).segmentsAmount) :
      Effect env T p a ok
        (T.withHandler p.requestID (.upload (h.store segment))) new
  /-- a segment that completes its upload, but the upload is not taken out -/
  | stuck {h : UploadRequestHandler} {segment : SegmentLayer} {new : List Action}
      (type : p.basicLayer.pocketType = .segment)
      (found : T.handlers.get? p.requestID = some (.upload h))
      (layer : p.segmentLayer = some segment)
      (full : (h.store segment).segments.size = (h.store segment).segmentsAmount)
      (part : new <+: completion (h.store segment) segment.segmentID)
      (closed : new.length ≤ 1 ∨ new = completion (h.store segment) segment.segmentID) :
      Effect env T p a false
        (T.withHandler p.requestID (.upload (h.store segment))) new
  /-- a segment that completes its upload -/
  | completed {h : UploadRequestHandler} {segment : SegmentLayer}
      (type : p.basicLayer.pocketType = .segment)
      (found : T.handlers.get? p.requestID = some (.upload h))
      (layer : p.segmentLayer = some segment)
      (full : (h.store segment).segments.size = (h.store segment).segmentsAmount) :
      Effect env T p a true
        { T with handlers :=
            (T.handlers.set p.requestID (.upload (h.store segment))).erase h.requestID }
        (completion (h.store segment) segment.segmentID)
  /-- the first pocket for a download -/
  | started {h : DownloadRequestHandler}
      (other : p.basicLayer.pocketType ≠ .request)
      (found : T.handlers.get? p.requestID = some (.download h))
      (unready : h.ready = false) :
      Effect env T p a true
        { T with
          handlers := T.handlers.set p.requestID (.download { h with ready := true })
          notReady := T.notReady.erase h.requestID
          tasks := T.tasks ++ [{ key := p.requestID }] } []
  /-- the first pocket for a download whose response is not in `notReady` -/
  | halfStarted {h : DownloadRequestHandler}
      (other : p.basicLayer.pocketType ≠ .request)
      (found : T.handlers.get? p.requestID = some (.download h))
      (unready : h.ready = false)
      (missing : T.notReady.get? h.requestID = none) :
      Effect env T p a false
        (T.withHandler p.requestID (.download { h with ready := true })) []
  /-- a further pocket for a download -/
  | queued {h : DownloadRequestHandler}
      (other : p.basicLayer.pocketType ≠ .request)
      (found : T.handlers.get? p.requestID = some (.download h))
      (ready : h.ready = true) :
      Effect env T p a true
        (T.withHandler p.requestID (.download { h with pockets := h.pockets ++ [p] })) []
  /-- a pocket for a request that is not in the table -/
  | unknown (other : p.basicLayer.pocketType ≠ .request)
      (absent : T.handlers.get? p.requestID = none) :
      Effect env T p a true T [.sent closePocket a]

/-- A lookup of the turn that would fail. -/
def LookupFails (T : Tables) (p : Pocket) : Prop :=
  (∃ k ∈ T.notReady.keys, T.handlers.get? k = none) ∨
  (∃ h, T.handlers.get? p.requestID = some (.download h) ∧ h.ready = false ∧
    T.notReady.get? h.requestID = none) ∨
  (∃ h, T.handlers.get? p.requestID = some (.upload h) ∧ h.requestID ≠ p.requestID)

/-- A Response sent again by the turn. -/
def Resent (s : Server) (x : Action) : Prop :=
  ∃ k res h, s.notReady.get? k = some res ∧ s.handlers.get? k = some h ∧
    x = .sent res h.clientAddress

/-- What a turn of the main loop that decoded `p` leaves behind. -/
structure Received (env : Env) (s : Server) (p : Pocket) (a : Addr) (ok : Bool)
    (t : Server) : Prop where
  effect : ∃ pre new, Effect env s.tables p a ok t.tables new ∧
    t.app.log = s.app.log ++ pre ++ new ∧ ∀ x ∈ pre, Resent s x
  clientAddress : t.clientAddress = some a
  stopped : t.stopped = s.stopped

-- ============================================================================
-- Operations of the main loop
-- ============================================================================

section Operations

variable {α : Type} {Q : α → Server → Prop} {R : Exn → Server → Prop} {s : Server}

theorem wp_onApp {x : Prog State α} : wp (onApp x) Q R s ↔
    wp x (fun a t => Q a { s with app := t }) (fun e t => R e { s with app := t }) s.app :=
  wp_zoom

theorem wp_getHandler {Q : Handler → Server → Prop} {key : Nat} :
    wp (getHandler key) Q R s ↔ (∀ h, s.handlers.get? key = some h → Q h s) ∧
      (s.handlers.get? key = none → R .keyError s) := by
  cases hget : s.handlers.get? key <;> simp [wp, getHandler, reads, hget]

@[simp] theorem wp_setHandler {Q : Unit → Server → Prop} {key : Nat} {h : Handler} :
    wp (setHandler key h) Q R s ↔ Q () { s with handlers := s.handlers.set key h } := Iff.rfl

theorem wp_popHandler {Q : Unit → Server → Prop} {key : Nat} :
    wp (popHandler key) Q R s ↔
      (∀ h, s.handlers.get? key = some h → Q () { s with handlers := s.handlers.erase key }) ∧
      (s.handlers.get? key = none → R .keyError s) := by
  simp only [popHandler, wp_bind, wp_getHandler, wp_modify]

theorem wp_popNotReady {Q : Unit → Server → Prop} {key : Nat} :
    wp (popNotReady key) Q R s ↔
      (∀ res, s.notReady.get? key = some res →
        Q () { s with notReady := s.notReady.erase key }) ∧
      (s.notReady.get? key = none → R .keyError s) := by
  cases hget : s.notReady.get? key <;> simp [wp, popNotReady, writes, hget]

/-- The state of the process with more actions done. -/
def Server.logged (s : Server) (new : List Action) : Server :=
  { s with app := { s.app with log := s.app.log ++ new } }

theorem wp_serverSendto {Q : Unit → Server → Prop} {p : Pocket} {a : Addr}
    (hQ : Q () (s.logged [.sent p a])) (hR : ∀ e, NotKeyError e → R e s) :
    wp (onApp (sendto p a)) Q R s :=
  wp_onApp.mpr (wp_sendto_of (fun _ _ => hQ) hR)

end Operations

-- ============================================================================
-- The turn
-- ============================================================================

/-- The end of a dispatch, after which only the tables and the actions differ. -/
structure Dispatched (env : Env) (s : Server) (p : Pocket) (a : Addr) (ok : Bool)
    (t : Server) : Prop where
  effect : ∃ new, Effect env s.tables p a ok t.tables new ∧ t.app.log = s.app.log ++ new
  clientAddress : t.clientAddress = s.clientAddress
  stopped : t.stopped = s.stopped

def DispatchFailed (env : Env) (s : Server) (p : Pocket) (a : Addr) (e : Exn) (t : Server) :
    Prop :=
  Dispatched env s p a false t ∧ (e = .keyError → LookupFails s.tables p)

theorem wp_resendNotReady {p : Pocket} {s : Server} :
    wp (resendNotReady p)
      (fun _ t => ∃ pre, t = s.logged pre ∧ ∀ x ∈ pre, Resent s x)
      (fun e t => (∃ pre, t = s.logged pre ∧ ∀ x ∈ pre, Resent s x) ∧
        (e = .keyError → LookupFails s.tables p)) s := by
  unfold resendNotReady
  rw [wp_bind, wp_get]
  refine wp_each (fun entry hentry t ht => ?_) ⟨[], by simp [Server.logged], by simp⟩
  obtain ⟨key, res⟩ := entry
  obtain ⟨pre, rfl, hpre⟩ := ht
  have hres : s.notReady.get? key = some res := (Dict.mem_entries_iff _ _ _).mp hentry
  refine wp_ite.mpr ⟨fun _ => ⟨pre, rfl, hpre⟩, fun _ => ?_⟩
  rw [wp_bind, wp_getHandler]
  refine ⟨fun h hh => ?_, fun hnone => ?_⟩
  · refine wp_serverSendto ⟨pre ++ [.sent res h.clientAddress], ?_, fun x hx => ?_⟩
      fun e he => ⟨⟨pre, rfl, hpre⟩, fun hk => absurd hk he⟩
    · simp [Server.logged]
    · rcases List.mem_append.mp hx with hx | hx
      · exact hpre x hx
      · exact ⟨key, res, h, hres, hh, List.mem_singleton.mp hx⟩
  · exact ⟨⟨pre, rfl, hpre⟩, fun _ =>
      Or.inl ⟨key, (Dict.mem_keys_iff _ _).mpr ⟨res, hres⟩, hnone⟩⟩

/-- The upload branch of the dispatch. -/
theorem wp_uploadPocket {amb : Ambient} {p : Pocket} {a : Addr} {s : Server}
    {h : UploadRequestHandler} (htype : p.basicLayer.pocketType ≠ .request)
    (hfound : s.handlers.get? p.requestID = some (.upload h)) :
    wp (do
        let more ← handleUploadPocket env amb p.requestID h p
        when (!more) (popHandler h.requestID))
      (fun _ t => Dispatched env s p a true t) (DispatchFailed env s p a) s := by
  rw [wp_bind, handleUploadPocket]
  split
  · next hnone =>
      exact ⟨⟨[], .ignored htype hfound (Or.inl hnone), by simp⟩, rfl, rfl⟩
  · next segment hsegment =>
      refine wp_ite.mpr ⟨fun hne => ?_, fun heq => ?_⟩
      · exact ⟨⟨[], .ignored htype hfound (Or.inr hne), by simp⟩, rfl, rfl⟩
      · rw [not_not] at heq
        have hid : (h.store segment).requestID = h.requestID := by
          unfold UploadRequestHandler.store
          split <;> rfl
        rw [wp_bind, wp_setHandler, wp_bind]
        -- the acknowledgement
        refine wp_serverSendto ?_ fun e he =>
          ⟨⟨⟨[], .stored heq hfound hsegment (List.nil_prefix) (by simp) (by simp), by simp⟩,
            rfl, rfl⟩, fun hk => absurd hk he⟩
        refine wp_ite.mpr ⟨fun hfull => ?_, fun hmore => ?_⟩
        · have hstuck : ∀ (new : List Action) (t : Server),
              new <+: completion (h.store segment) segment.segmentID →
              (new.length ≤ 1 ∨ new = completion (h.store segment) segment.segmentID) →
              t.tables = s.tables.withHandler p.requestID (.upload (h.store segment)) →
              t.app.log = s.app.log ++ new → t.clientAddress = s.clientAddress →
              t.stopped = s.stopped → Dispatched env s p a false t := by
            intro new t hnew hclosed htables hlog hca hstop
            exact ⟨⟨new, by rw [htables]; exact .stuck heq hfound hsegment hfull hnew hclosed, hlog⟩,
              hca, hstop⟩
          rw [wp_bind]
          refine wp_serverSendto ?_ fun e he =>
            ⟨hstuck [_] _ (List.prefix_append [_] _) (Or.inl Nat.le.refl) rfl rfl rfl rfl,
              fun hk => absurd hk he⟩
          rw [wp_bind, wp_onApp, postUpload, wp_bind, wp_record]
          have hlog3 : ∀ fs : FileTree, Dispatched env s p a false
              { s with
                handlers := s.handlers.set p.requestID (.upload (h.store segment))
                app := { s.app with
                  fs := fs
                  log := s.app.log ++ completion (h.store segment) segment.segmentID } } :=
            fun fs => hstuck _ _ (List.prefix_refl _) (Or.inr rfl) rfl rfl rfl rfl
          split
          · refine ⟨?_, fun hk => absurd hk Exn.noConfusion⟩
            simpa [Server.logged, completion] using hlog3 s.app.fs
          · refine wp_onFiles raises_storeUpload (fun _ fs => ?_) fun e fs he =>
              ⟨by simpa [Server.logged, completion] using hlog3 fs, fun hk => absurd hk he⟩
            rw [wp_pure, wp_when]
            refine ⟨fun _ => ?_, fun hf => by cases hf⟩
            rw [wp_popHandler]
            refine ⟨fun g hg => ?_, fun hnone => ?_⟩
            · refine ⟨⟨_, .completed heq hfound hsegment hfull, ?_⟩, rfl, rfl⟩
              simp [Server.logged, completion]
            · refine ⟨by simpa [Server.logged, completion] using hlog3 fs, fun _ => ?_⟩
              -- the key popped is not the key the handler was found under
              refine Or.inr (Or.inr ⟨h, hfound, fun hk => ?_⟩)
              simp [Server.logged, hk] at hnone
        · exact ⟨⟨[_], .stored heq hfound hsegment (List.prefix_append [_] _) (by simp)
            fun _ => ⟨rfl, hmore⟩, rfl⟩, rfl, rfl⟩

theorem wp_dispatch {amb : Ambient} {p : Pocket} {a : Addr} {s : Server} :
    wp (dispatch env amb p a) (fun _ t => Dispatched env s p a true t)
      (DispatchFailed env s p a) s := by
  unfold dispatch
  refine wp_ite.mpr ⟨fun hreq => ?_, fun hne => ?_⟩
  · rw [wp_bind, wp_onApp]
    refine wp_mono wp_createHandler (fun result t ht => ?_) fun e t ht => ?_
    · cases result with
      | none =>
          obtain ⟨hlast, new, hlog, hnew⟩ := ht
          exact ⟨⟨new, .refused hreq hlast hnew, hlog⟩, rfl, rfl⟩
      | some opened =>
          obtain ⟨h, res⟩ := opened
          obtain ⟨hopened, hlast, hlog⟩ := ht
          have heffect := Effect.opened (T := s.tables) hreq hopened
          rw [wp_bind, wp_when]
          cases hdown : h.isDownload with
          | true =>
              rw [hdown, if_pos rfl] at heffect
              refine ⟨fun _ => ?_, fun hf => by cases hf⟩
              refine ⟨⟨_, ?_, hlog⟩, rfl, rfl⟩
              simpa [Server.tables, hlast] using heffect
          | false =>
              rw [hdown, if_neg Bool.false_ne_true] at heffect
              refine ⟨fun hf => (by cases hf), fun _ => ?_⟩
              refine ⟨⟨_, ?_, hlog⟩, rfl, rfl⟩
              simpa [Server.tables, hlast] using heffect
    · obtain ⟨he, hlast, new, hlog, hnew⟩ := ht
      exact ⟨⟨⟨new, .refused hreq hlast hnew, hlog⟩, rfl, rfl⟩, fun hk => absurd hk he⟩
  · rw [wp_bind, wp_get]
    split
    · next h hfound => exact wp_uploadPocket hne hfound
    · next h hfound =>
        refine wp_ite.mpr ⟨fun hready => ?_, fun hready => ?_⟩
        · rw [wp_bind, wp_setHandler, wp_bind, wp_popNotReady]
          refine ⟨fun res _ => ?_, fun hnone => ?_⟩
          · exact ⟨⟨[], .started hne hfound hready, by simp⟩, rfl, rfl⟩
          · exact ⟨⟨⟨[], .halfStarted hne hfound hready hnone, by simp⟩, rfl, rfl⟩,
              fun _ => Or.inr (Or.inl ⟨h, hfound, hready, hnone⟩)⟩
        · rw [Bool.not_eq_false] at hready
          exact ⟨⟨[], .queued hne hfound hready, by simp⟩, rfl, rfl⟩
    · next hnone =>
        refine wp_serverSendto ⟨⟨_, .unknown hne hnone, rfl⟩, rfl, rfl⟩ fun e he => ?_
        exact ⟨⟨⟨[], .broken, by simp⟩, rfl, rfl⟩, fun hk => absurd hk he⟩

/-- Every turn of the main loop: the datagram is empty or does not decode, and only
    the captured address changes, or the turn has one of the effects. -/
theorem wp_iteration {amb : Ambient} {data : Bytes} {a : Addr} {s : Server} :
    wp (iteration env amb data a)
      (fun _ t => t = { s with clientAddress := some a } ∨
        ∃ p, Pocket.fromBytes data = .ok p ∧ Received env s p a true t)
      (fun e t => (t = { s with clientAddress := some a } ∧ NotKeyError e) ∨
        ∃ p, Pocket.fromBytes data = .ok p ∧ Received env s p a false t ∧
          (e = .keyError → LookupFails s.tables p)) s := by
  unfold iteration
  rw [wp_bind, wp_modify]
  refine wp_ite.mpr ⟨fun _ => Or.inl rfl, fun _ => ?_⟩
  rw [wp_bind, wp_lift]
  refine ⟨fun p hp => ?_, fun e he => Or.inl ⟨rfl,
    Pocket.fails_fromBytes notKeyError_of_codec _ e he⟩⟩
  rw [wp_bind]
  refine wp_mono wp_resendNotReady (fun _ t ht => ?_) fun e t ht => ?_
  · obtain ⟨pre, rfl, hpre⟩ := ht
    refine wp_mono wp_dispatch (fun _ u hu => Or.inr ⟨p, hp, ?_⟩)
      fun e u hu => Or.inr ⟨p, hp, ?_, hu.2⟩
    · obtain ⟨⟨new, heffect, hlog⟩, hca, hstop⟩ := hu
      exact ⟨⟨pre, new, heffect, hlog, hpre⟩, hca, hstop⟩
    · obtain ⟨⟨new, heffect, hlog⟩, hca, hstop⟩ := hu.1
      exact ⟨⟨pre, new, heffect, hlog, hpre⟩, hca, hstop⟩
  · obtain ⟨⟨pre, rfl, hpre⟩, hkey⟩ := ht
    exact Or.inr ⟨p, hp, ⟨⟨pre, [], .broken, by simp [Server.logged], hpre⟩, rfl, rfl⟩, hkey⟩

end App
end NetworkingFinal
