/-
  NetworkingFinal.App.Opening

  What `createHandler` does apart from its work on files: one request id and one
  Response at most, and the handler it leaves.

  - `Refused a s t`: no request was opened between `s` and `t`; the client at `a`
    may have been answered, and an upload of announced size 0 stored at once.
  - `Opened ..`: the handler and the Response of an accepted request.
  - `wp_createHandler`: every run of `createHandler` ends in one of these, and no
    exception it raises is a KeyError.
-/
import NetworkingFinal.App.Controller
import NetworkingFinal.Ftp.Wire

namespace NetworkingFinal
namespace App

open Py Py.Prog Py.Os Py.Struct Ftp

variable {env : Env}

-- ============================================================================
-- Single actions
-- ============================================================================

/-- Not a failed dictionary lookup. -/
def NotKeyError (e : Exn) : Prop := e ≠ .keyError

theorem notKeyError_of_file (e : Exn) (h : FileError e) : NotKeyError e := by
  rcases h with rfl | rfl | rfl <;> exact Exn.noConfusion

theorem notKeyError_of_codec (e : Exn) (h : CodecError e) : NotKeyError e := by
  rcases h with rfl | rfl | rfl <;> exact Exn.noConfusion

@[simp] theorem wp_record {a : Action} {Q : Unit → State → Prop} {R : Exn → State → Prop}
    {s : State} : wp (record a) Q R s ↔ Q () { s with log := s.log ++ [a] } := Iff.rfl

@[simp] theorem wp_createNewRequestID {Q : Nat → State → Prop} {R : Exn → State → Prop}
    {s : State} : wp createNewRequestID Q R s ↔
      Q (s.lastRequestID + 1) { s with lastRequestID := s.lastRequestID + 1 } := Iff.rfl

/-- A pocket is sent whole or raises while it is encoded. -/
theorem wp_sendto {p : Pocket} {a : Addr} {Q : Unit → State → Prop} {R : Exn → State → Prop}
    {s : State} : wp (sendto p a) Q R s ↔
      (∀ bs, p.toBytes = .ok bs → Q () { s with log := s.log ++ [.sent p a] }) ∧
        ∀ e, p.toBytes = .error e → R e s := by
  simp only [sendto, wp_bind, wp_lift, wp_record]

theorem wp_sendto_of {p : Pocket} {a : Addr} {Q : Unit → State → Prop} {R : Exn → State → Prop}
    {s : State} (hQ : ∀ bs, p.toBytes = .ok bs → Q () { s with log := s.log ++ [.sent p a] })
    (hR : ∀ e, NotKeyError e → R e s) : wp (sendto p a) Q R s :=
  wp_sendto.mpr ⟨hQ, fun e he => hR e (Pocket.fails_toBytes notKeyError_of_codec p e he)⟩

/-- Work on files changes nothing else. -/
theorem wp_onFiles {α : Type} {x : Prog FileTree α} {Q : α → State → Prop}
    {R : Exn → State → Prop} {s : State} (hx : Raises NotKeyError x)
    (hQ : ∀ a t, Q a { s with fs := t }) (hR : ∀ e t, NotKeyError e → R e { s with fs := t }) :
    wp (onFiles x) Q R s := by
  rw [onFiles, wp_zoom, wp]
  split
  · exact hQ _ _
  · next e t he => exact hR e t (hx _ e t he)

-- ============================================================================
-- File work never fails a lookup
-- ============================================================================

theorem raises_storeUpload {now : UInt64} {targetPath : Str} {data : Bytes} :
    Raises NotKeyError (storeUpload env now targetPath data) := by
  have hupdate : ∀ f, Raises NotKeyError (update env.cwd f targetPath) := fun f =>
    raises_update notKeyError_of_file
  refine raises_bind raises_query fun _ => raises_bind (raises_when (hupdate _)) fun _ => ?_
  refine raises_bind raises_query fun _ => raises_bind (raises_when (hupdate _)) fun _ => ?_
  refine raises_bind (raises_when (raises_bind raises_query fun _ =>
    raises_when (raises_makedirs notKeyError_of_file))) fun _ => ?_
  refine raises_bind (raises_reads fun _ e h =>
    fails_unpackFrom Exn.noConfusion _ _ _ _ e h) fun flag => raises_ite (hupdate _) ?_
  split
  · exact raises_throw Exn.noConfusion
  · exact ZipFile.raises_extractall notKeyError_of_file Exn.noConfusion

theorem raises_probe {targetPath : Str} : Raises NotKeyError (probe env targetPath) :=
  raises_bind raises_query fun _ => raises_ite (raises_pure _)
    (raises_bind raises_query fun _ => raises_pure _)

theorem raises_archive {h : RequestHandler} {targetPath : Str} :
    Raises NotKeyError (archive env h targetPath) :=
  raises_bind (raises_depthBound notKeyError_of_file) fun _ =>
    raises_bind (raises_walkFiles notKeyError_of_file) fun _ =>
      raises_bind (raises_collect fun _ =>
        raises_bind (raises_fetch notKeyError_of_file) fun _ => raises_pure _) fun _ =>
          raises_pure _

theorem raises_loadDirectory {fuel : Nat} {directoryPath parent : Str} {recursive : Bool} :
    Raises NotKeyError (loadDirectory env fuel directoryPath parent recursive) := by
  have hstruct : ∀ {α : Type} (x : Except Exn α), Fails NotKeyError x →
      Raises NotKeyError (reads (σ := FileTree) fun _ => x) := fun x hx =>
    raises_reads fun _ e he => hx e he
  have hpack : ∀ fmt vals, Fails NotKeyError (pack .native fmt vals) := fun fmt vals =>
    fails_pack Exn.noConfusion _ _ _
  induction fuel generalizing directoryPath parent with
  | zero => exact raises_throw Exn.noConfusion
  | succ fuel ih =>
      refine raises_bind (raises_fetch notKeyError_of_file) fun _ => ?_
      refine raises_bind (raises_select fun _ => raises_query) fun _ => ?_
      refine raises_bind (raises_select fun _ => raises_query) fun _ => ?_
      refine raises_bind (raises_collect fun name => ?_) fun _ =>
        raises_bind (raises_collect fun name => ?_) fun _ => raises_pure _
      · refine raises_bind (raises_fetch notKeyError_of_file) fun _ => ?_
        refine raises_bind (hstruct _ (fails_bind (hpack _ _) fun _ => fails_bind (hpack _ _)
          fun _ => fails_bind (hpack _ _) fun _ => fails_pure _)) fun _ => ?_
        exact raises_ite (raises_bind ih fun _ => raises_pure _) (raises_pure _)
      · refine raises_bind (raises_fetch notKeyError_of_file) fun _ => ?_
        refine raises_bind (raises_fetch notKeyError_of_file) fun _ => ?_
        exact hstruct _ (fails_bind (hpack _ _) fun _ => fails_bind (hpack _ _)
          fun _ => fails_bind (hpack _ _) fun _ => fails_pure _)

theorem raises_deleteDirectory {h : RequestHandler} {targetPath : Str} :
    Raises NotKeyError (deleteDirectory env h targetPath) :=
  raises_ite
    (raises_bind (raises_fetch notKeyError_of_file) fun _ => raises_each fun _ =>
      raises_bind raises_query fun _ => raises_ite (raises_update notKeyError_of_file)
        (raises_bind raises_query fun _ => raises_when (raises_update notKeyError_of_file)))
    (raises_update notKeyError_of_file)

theorem raises_freshId {ids : List Str} : Raises NotKeyError (freshId env ids) := by
  induction ids with
  | nil => exact raises_throw Exn.noConfusion
  | cons id ids ih => exact raises_bind raises_query fun _ => raises_ite ih (raises_pure _)

theorem raises_registerUser {amb : Ambient} {d : StorageData} {layer : RequestLayer} :
    Raises NotKeyError (registerUser env amb d layer) :=
  raises_bind raises_freshId fun _ => raises_bind (raises_update notKeyError_of_file) fun _ =>
    raises_bind (raises_update notKeyError_of_file) fun _ => raises_pure _

-- ============================================================================
-- Routes
-- ============================================================================

/-- An action that answers the client at `a` with a Response that starts no
    transfer, or stores the empty upload of a request id drawn between the two
    counters. -/
def Reply (a : Addr) (last last' : Nat) : Action → Prop
  | .sent p dest => dest = a ∧ p.basicLayer.pocketType = .response ∧ p.requestLayer = none ∧
      p.requestID ≤ last' ∧
      ∃ layer, p.responseLayer = some layer ∧ (layer.ok = true → p.requestID = last + 1 ∧
        layer.errorMessage = [] ∧ layer.segmentsAmount = 0)
  | .postUpload r data => last' = last + 1 ∧ r = last' ∧ data = []

/-- No request was opened: at most one request id was drawn, and the actions are
    replies. -/
structure Refused (a : Addr) (s t : State) : Prop where
  last : t.lastRequestID = s.lastRequestID ∨ t.lastRequestID = s.lastRequestID + 1
  log : ∃ new, t.log = s.log ++ new ∧ ∀ x ∈ new, Reply a s.lastRequestID t.lastRequestID x

theorem Refused.of_same {a : Addr} {s t : State} (hlast : t.lastRequestID = s.lastRequestID)
    (hlog : t.log = s.log) : Refused a s t :=
  ⟨Or.inl hlast, [], by simp [hlog], by simp⟩

/-- What a route method ends in. -/
structure Routes (h : RequestHandler) (s : State) (routed : Routed) (t : State) : Prop where
  last : t.lastRequestID = s.lastRequestID + 1
  log : t.log = s.log
  id : routed.requestID = s.lastRequestID + 1
  layer : routed.res.basicLayer =
    ⟨s.lastRequestID + 1, .response, h.request.basicLayer.pocketSubType⟩
  plain : routed.res.requestLayer = none

def RouteEnd (h : RequestHandler) (s : State) : Option Routed → State → Prop
  | none, t => Refused h.clientAddress s t
  | some routed, t => Routes h s routed t

def Aborted (a : Addr) (s : State) (e : Exn) (t : State) : Prop :=
  NotKeyError e ∧ Refused a s t

theorem wp_refuse {h : RequestHandler} {msg : Str} {s t : State}
    (hlast : t.lastRequestID = s.lastRequestID) (hlog : t.log = s.log) :
    wp (refuse h msg : Prog State (Option Routed)) (RouteEnd h s) (Aborted h.clientAddress s) t := by
  rw [refuse, wp_bind]
  refine wp_sendto_of (fun bs _ => ?_) fun e he => ⟨he, Refused.of_same hlast hlog⟩
  refine ⟨Or.inl hlast, [_], by rw [hlog], fun x hx => ?_⟩
  rw [List.mem_singleton.mp hx]
  exact ⟨rfl, rfl, rfl, Nat.zero_le _, _, rfl, (fun hok => by cases hok)⟩

theorem wp_inStorage {α : Type} {path storagePath : Str} {f : Bool → Prog State α}
    {Q : α → State → Prop} {R : Exn → State → Prop} {s : State}
    (h : ∀ b, inStorage env path storagePath = .ok b → wp (f b) Q R s) :
    wp (lift (inStorage env path storagePath) >>= f) Q R s := by
  obtain ⟨b, hb⟩ := inStorage_total env path storagePath
  rw [wp_bind, wp_lift]
  constructor
  · intro b' hb'
    exact h b' hb'
  · intro e he
    rw [hb] at he
    cases he

/-- Drawing the request id is the last thing a route method does. -/
theorem wp_drawID {h : RequestHandler} {f : Nat → Routed} {s t : State}
    (hlast : t.lastRequestID = s.lastRequestID) (hlog : t.log = s.log)
    (hid : ∀ r, (f r).requestID = r)
    (hlayer : ∀ r, (f r).res.basicLayer = ⟨r, .response, h.request.basicLayer.pocketSubType⟩)
    (hplain : ∀ r, (f r).res.requestLayer = none) :
    wp (createNewRequestID >>= fun r => pure (some (f r))) (RouteEnd h s)
      (Aborted h.clientAddress s) t := by
  rw [wp_bind, wp_createNewRequestID, wp_pure]
  exact ⟨by simp [hlast], hlog, by rw [hid, hlast], by rw [hlayer, hlast], hplain _⟩

section Routes

variable {h : RequestHandler} {s : State}

theorem wp_uploadRoute (hsub : h.request.basicLayer.pocketSubType = .upload) :
    wp (uploadRoute env h) (RouteEnd h s) (Aborted h.clientAddress s) s := by
  unfold uploadRoute
  split
  · exact wp_refuse rfl rfl
  · refine wp_ite.mpr ⟨fun _ => wp_refuse rfl rfl, fun _ => ?_⟩
    refine wp_inStorage fun b _ => wp_ite.mpr ⟨fun _ => wp_refuse rfl rfl, fun _ => ?_⟩
    exact wp_drawID rfl rfl (fun _ => rfl) (fun _ => by rw [hsub]; rfl) fun _ => rfl

theorem wp_downloadRoute (hsub : h.request.basicLayer.pocketSubType = .download) :
    wp (downloadRoute env h) (RouteEnd h s) (Aborted h.clientAddress s) s := by
  unfold downloadRoute
  split
  · exact wp_refuse rfl rfl
  · rw [wp_bind]
    refine wp_onFiles raises_probe (fun found t => ?_) fun e t he => ⟨he, Refused.of_same rfl rfl⟩
    cases found with
    | none => exact wp_refuse rfl rfl
    | some isFile =>
        refine wp_inStorage fun b _ => wp_ite.mpr ⟨fun _ => wp_refuse rfl rfl, fun _ => ?_⟩
        rw [wp_bind, wp_lift]
        refine ⟨fun flag _ => ?_, fun e he =>
          ⟨fails_pack Exn.noConfusion _ _ _ e he, Refused.of_same rfl rfl⟩⟩
        rw [wp_bind]
        refine wp_onFiles (raises_ite (raises_fetch notKeyError_of_file) raises_archive)
          (fun content t => ?_) fun e t he => ⟨he, Refused.of_same rfl rfl⟩
        exact wp_drawID rfl rfl (fun _ => rfl) (fun _ => by rw [hsub]; rfl) fun _ => rfl

theorem wp_listRoute (hsub : h.request.basicLayer.pocketSubType = .list) :
    wp (listRoute env h) (RouteEnd h s) (Aborted h.clientAddress s) s := by
  unfold listRoute
  split
  · exact wp_refuse rfl rfl
  · rw [wp_bind]
    refine wp_onFiles raises_query (fun found t => ?_) fun e t he => ⟨he, Refused.of_same rfl rfl⟩
    refine wp_ite.mpr ⟨fun _ => wp_refuse rfl rfl, fun _ => ?_⟩
    refine wp_inStorage fun b _ => wp_ite.mpr ⟨fun _ => wp_refuse rfl rfl, fun _ => ?_⟩
    rw [wp_bind]
    refine wp_onFiles (raises_depthBound notKeyError_of_file) (fun fuel t => ?_)
      fun e t he => ⟨he, Refused.of_same rfl rfl⟩
    rw [wp_bind]
    refine wp_onFiles raises_loadDirectory (fun data t => ?_)
      fun e t he => ⟨he, Refused.of_same rfl rfl⟩
    exact wp_drawID rfl rfl (fun _ => rfl) (fun _ => by rw [hsub]; rfl) fun _ => rfl

theorem wp_deleteRoute (hsub : h.request.basicLayer.pocketSubType = .delete) :
    wp (deleteRoute env h) (RouteEnd h s) (Aborted h.clientAddress s) s := by
  unfold deleteRoute
  split
  · exact wp_refuse rfl rfl
  · rw [wp_bind]
    refine wp_onFiles raises_probe (fun found t => ?_) fun e t he => ⟨he, Refused.of_same rfl rfl⟩
    cases found with
    | none => exact wp_refuse rfl rfl
    | some isFile =>
        refine wp_inStorage fun b _ => wp_ite.mpr ⟨fun _ => wp_refuse rfl rfl, fun _ => ?_⟩
        rw [wp_bind]
        refine wp_onFiles (raises_ite (raises_update notKeyError_of_file) raises_deleteDirectory)
          (fun _ t => ?_) fun e t he => ⟨he, Refused.of_same rfl rfl⟩
        exact wp_drawID rfl rfl (fun _ => rfl) (fun _ => by rw [hsub]; rfl) fun _ => rfl

theorem wp_route : wp (route env h) (RouteEnd h s) (Aborted h.clientAddress s) s := by
  unfold route
  cases hsub : h.request.basicLayer.pocketSubType with
  | unknown => exact ⟨Exn.noConfusion, Refused.of_same rfl rfl⟩
  | upload => exact wp_uploadRoute hsub
  | download => exact wp_downloadRoute hsub
  | list => exact wp_listRoute hsub
  | delete => exact wp_deleteRoute hsub

end Routes

-- ============================================================================
-- create_handler
-- ============================================================================

/-- The counter and the actions of `t` are those of `s`. -/
structure SameProgress (s t : State) : Prop where
  last : t.lastRequestID = s.lastRequestID
  log : t.log = s.log

theorem SameProgress.refused {a : Addr} {s t u : State} (h : SameProgress s t)
    (hu : Refused a t u) : Refused a s u := by
  obtain ⟨hlast, new, hlog, hnew⟩ := hu
  refine ⟨by rw [← h.last]; exact hlast, new, by rw [hlog, h.log], ?_⟩
  rw [← h.last]
  exact hnew

/-- What the choice of the storage root ends in. -/
def ChooseEnd (a : Addr) (s : State) : Option Str → State → Prop
  | none, t => Refused a s t
  | some _, t => SameProgress s t

theorem wp_chooseStorage {amb : Ambient} {layer : RequestLayer} {a : Addr} {s : State} :
    wp (chooseStorage env amb layer a) (ChooseEnd a s) (Aborted a s) s := by
  have hsend : ∀ (msg : Str) (t : State), SameProgress s t →
      wp (sendError msg a >>= fun _ => pure none) (ChooseEnd a s) (Aborted a s) t := by
    intro msg t ht
    rw [wp_bind]
    refine wp_sendto_of (fun bs _ => ?_) fun e he => ⟨he, Refused.of_same ht.last ht.log⟩
    refine ⟨Or.inl ht.last, [_], by rw [ht.log], fun x hx => ?_⟩
    rw [List.mem_singleton.mp hx]
    exact ⟨rfl, rfl, rfl, Nat.zero_le _, _, rfl, (fun hok => by cases hok)⟩
  unfold chooseStorage
  refine wp_ite.mpr ⟨fun _ => ⟨rfl, rfl⟩, fun _ => wp_ite.mpr ⟨fun _ => hsend _ s ⟨rfl, rfl⟩,
    fun _ => ?_⟩⟩
  rw [wp_bind]
  refine wp_onFiles (raises_fetch notKeyError_of_file) (fun content t => ?_)
    fun e t he => ⟨he, Refused.of_same rfl rfl⟩
  split
  · exact ⟨Exn.noConfusion, Refused.of_same rfl rfl⟩
  · next storageData _ =>
      split
      · exact wp_ite.mpr ⟨fun _ => ⟨rfl, rfl⟩, fun _ => hsend _ _ ⟨rfl, rfl⟩⟩
      · rw [wp_bind]
        exact wp_onFiles raises_registerUser (fun id t => ⟨rfl, rfl⟩)
          fun e t he => ⟨he, Refused.of_same rfl rfl⟩

/-- The handler and the Response of a request accepted under the id `r`. -/
structure Opened (env : Env) (request : Pocket) (a : Addr) (r : Nat) (h : Handler)
    (res : Pocket) : Prop where
  sent : ∃ bs, res.toBytes = .ok bs
  layer : res.basicLayer = ⟨r, .response, request.basicLayer.pocketSubType⟩
  plain : res.requestLayer = none
  shape : ∃ (layer : RequestLayer) (storagePath : Str) (data : Bytes) (dataSize : Nat),
    request.requestLayer = some layer ∧
    dataSize = (if request.basicLayer.pocketSubType = .upload then layer.pocketFullSize
      else data.length) ∧
    dataSize ≠ 0 ∧
    let singleSegmentSize := segmentSize env layer.maxSingleSegmentSize
    let segmentsAmount := segmentsAmountOf dataSize singleSegmentSize
    res.responseLayer = some ⟨true, [], dataSize, segmentsAmount, singleSegmentSize⟩ ∧
    h = openedHandler { request, clientAddress := a, storagePath, requestID := r }
      segmentsAmount data res

/-- What `create_handler` ends in. -/
def CreateEnd (env : Env) (request : Pocket) (a : Addr) (s : State) :
    Option (Handler × Pocket) → State → Prop
  | none, t => Refused a s t
  | some (h, res), t =>
      Opened env request a (s.lastRequestID + 1) h res ∧
        t.lastRequestID = s.lastRequestID + 1 ∧ t.log = s.log ++ [.sent res a]

theorem wp_openRequest {amb : Ambient} {request : Pocket} {layer : RequestLayer} {a : Addr}
    {storagePath : Str} {s : State} (hrequest : request.requestLayer = some layer) :
    wp (openRequest env amb request layer a storagePath) (CreateEnd env request a s)
      (Aborted a s) s := by
  unfold openRequest
  rw [wp_bind]
  refine wp_mono wp_route (fun result t ht => ?_) fun e t ht => ht
  cases result with
  | none => exact ht
  | some routed =>
      obtain ⟨hlast, hlog, hid, hlayer, hplain⟩ := ht
      have hdrawn : Refused a s t := ⟨Or.inr hlast, [], by simp [hlog], by simp⟩
      refine wp_ite.mpr ⟨fun hsize => ?_, fun hsize => ?_⟩
      · -- nothing to transfer: the request is answered and, for an upload, stored
        rw [wp_bind]
        refine wp_sendto_of (fun bs _ => ?_) fun e he => ⟨he, hdrawn⟩
        have hreply : Reply a s.lastRequestID (s.lastRequestID + 1)
            (.sent (okResponse routed.res 0 0 0) a) :=
          ⟨rfl, by simp [okResponse, hlayer], hplain, by simp [okResponse, hlayer], _, rfl,
            fun _ => ⟨by simp [okResponse, hlayer], rfl, rfl⟩⟩
        have hstored : ∀ u : State, u.lastRequestID = t.lastRequestID →
            u.log = t.log ++ [.sent (okResponse routed.res 0 0 0) a] ++
              [.postUpload routed.requestID []] → Refused a s u := by
          intro u hu hulog
          refine ⟨Or.inr (by rw [hu, hlast]), _, by rw [hulog, hlog, List.append_assoc],
            fun x hx => ?_⟩
          rw [hu, hlast]
          rcases List.mem_append.mp hx with hx | hx
          · rw [List.mem_singleton.mp hx]
            exact hreply
          · rw [List.mem_singleton.mp hx]
            exact ⟨rfl, hid, rfl⟩
        rw [wp_bind, wp_when]
        refine ⟨fun _ => ?_, fun _ => ?_⟩
        · rw [postUpload, wp_bind, wp_record]
          split
          · exact ⟨Exn.noConfusion, hstored _ rfl rfl⟩
          · exact wp_onFiles raises_storeUpload (fun _ _ => hstored _ rfl rfl)
              fun e _ he => ⟨he, hstored _ rfl rfl⟩
        · refine ⟨Or.inr hlast, [_], by rw [hlog], fun x hx => ?_⟩
          rw [List.mem_singleton.mp hx, hlast]
          exact hreply
      · rw [wp_bind]
        refine wp_sendto_of (fun bs hbs => ?_) fun e he => ⟨he, hdrawn⟩
        refine ⟨⟨⟨bs, hbs⟩, hlayer, hplain, layer, storagePath, routed.data.getD [], _, hrequest, rfl,
          hsize, rfl, ?_⟩, hlast, by rw [hlog]⟩
        rw [hid]

theorem wp_createHandler {amb : Ambient} {request : Pocket} {a : Addr} {s : State} :
    wp (createHandler env amb request a) (CreateEnd env request a s) (Aborted a s) s := by
  unfold createHandler
  split
  · exact ⟨Exn.noConfusion, Refused.of_same rfl rfl⟩
  · next layer hlayer =>
      rw [wp_bind]
      refine wp_mono wp_chooseStorage (fun chosen t ht => ?_) fun e t ht => ht
      cases chosen with
      | none => exact ht
      | some storagePath =>
          refine wp_mono (wp_openRequest hlayer) (fun result u hu => ?_)
            fun e u hu => ⟨hu.1, ht.refused hu.2⟩
          cases result with
          | none => exact ht.refused hu
          | some opened =>
              obtain ⟨hopened, hlast, hlog⟩ := hu
              rw [ht.last] at hopened hlast
              exact ⟨hopened, hlast, by rw [hlog, ht.log]⟩

end App
end NetworkingFinal
