/-
  NetworkingFinal.App.Rejections

  What the client learns when its request is rejected.

  - `Reason`: the calls of `send_error` in `create_handler` and in the `route` methods,
    with their texts.
  - `Rejects`: when a request is rejected, and in which state.
  - `answered_iff`: the answer carries the text to the client exactly when the text is
    short enough for its length byte, and ASCII; and only rejected requests get one.

  A text of more than 255 characters does not encode: the exception ends the main loop.
-/
import NetworkingFinal.App.Accounts
import NetworkingFinal.Ftp.Wire

namespace NetworkingFinal
namespace App

open Py Py.Prog Py.Os Py.PosixPath Py.Struct Ftp

variable {env : Env}

-- ============================================================================
-- Reasons
-- ============================================================================

/-- Why a request is rejected: one reason for each call of `send_error`. -/
inductive Reason where
  | emptyUserName
  | wrongPassword
  | notUpload
  | pathTooLong
  | notLegal (path : Str)
  | notDownload
  | missing (path : Str)
  | notList
  | missingDirectory (path : Str)
  | notDelete
  deriving DecidableEq

namespace Reason

def message : Reason → Str
  | emptyUserName => "The user name cannot be empty".toList
  | wrongPassword => "the password is incorrect".toList
  | notUpload => "This is not upload request".toList
  | pathTooLong => "The file path cannot be more then 256 chars".toList
  | notLegal path => "The path ".toList ++ path ++ " is not legal".toList
  | notDownload => "This is not download request".toList
  | missing path => missingMessage path
  | notList => "This is not list request".toList
  | missingDirectory path => missingDirectoryMessage path
  | notDelete => "This is not delete request".toList

/-- The text can be sent and read: what it quotes is ASCII and leaves it at most 255
    characters long. -/
def Readable : Reason → Prop
  | notLegal path => path.length ≤ 233 ∧ Ascii path
  | missing path => path.length ≤ 216 ∧ Ascii path
  | missingDirectory path => path.length ≤ 223 ∧ Ascii path
  | _ => True

theorem ascii_append {s t : Str} : Ascii (s ++ t) ↔ Ascii s ∧ Ascii t := by
  simp only [Ascii, List.mem_append, or_imp, forall_and]

/-- A text that quotes a path. -/
theorem quote_iff (head tail path : Str) (n : Nat) (hascii : Ascii head ∧ Ascii tail)
    (hn : head.length + tail.length + n = 255) :
    (head ++ path ++ tail).length ≤ 255 ∧ Ascii (head ++ path ++ tail) ↔
      path.length ≤ n ∧ Ascii path := by
  rw [ascii_append, ascii_append, List.length_append, List.length_append]
  simp only [hascii, true_and, and_true]
  refine and_congr_left fun _ => ?_
  omega

theorem readable_iff (reason : Reason) :
    reason.message.length ≤ 255 ∧ Ascii reason.message ↔ reason.Readable := by
  cases reason with
  | notLegal path => exact quote_iff _ _ path 233 (by decide) (by decide)
  | missing path => exact quote_iff _ _ path 216 (by decide) (by decide)
  | missingDirectory path => exact quote_iff _ _ path 223 (by decide) (by decide)
  | _ => exact ⟨fun _ => trivial, fun _ => by decide⟩

end Reason

-- ============================================================================
-- When a request is rejected
-- ============================================================================

/-- The checks of `create_handler`, against the account file. -/
def accountRejection (env : Env) (layer : RequestLayer) (fs : FileTree) : Option Reason :=
  if layer.anonymous then none
  else if layer.userName = [] then some .emptyUserName
  else
    match readFile env.cwd (dataFile env) fs with
    | .error _ _ => none
    | .ok content _ =>
        match env.loadStorage content with
        | none => none
        | some storageData =>
            match storageData.users.get? layer.userName with
            | none => none
            | some userData =>
                if userData.password = layer.password then none else some .wrongPassword

/-- Nothing is at the path, or it is not one of the storage. -/
def Absent (env : Env) (fs : FileTree) (path storagePath : Str) : Prop :=
  fs.get? (targetOf env path storagePath) = none ∨ inStorage env path storagePath = .ok false

instance (fs : FileTree) (path storagePath : Str) : Decidable (Absent env fs path storagePath) :=
  inferInstanceAs (Decidable (_ ∨ _))

/-- No directory is at the path, or it is not one of the storage. -/
def NoDirectory (env : Env) (fs : FileTree) (path storagePath : Str) : Prop :=
  fs.isDir (targetOf env path storagePath) = false ∨ inStorage env path storagePath = .ok false

instance (fs : FileTree) (path storagePath : Str) :
    Decidable (NoDirectory env fs path storagePath) := inferInstanceAs (Decidable (_ ∨ _))

/-- The checks of the `route` methods. -/
def routeRejection (env : Env) (h : RequestHandler) (fs : FileTree) : Option Reason :=
  match h.request.basicLayer.pocketSubType with
  | .upload =>
      match h.request.uploadRequestLayer with
      | none => some .notUpload
      | some layer =>
          if layer.path.length > FILE_PATH_MAX_LENGTH then some .pathTooLong
          else if inStorage env layer.path h.storagePath = .ok false then
            some (.notLegal layer.path)
          else none
  | .download =>
      match h.request.downloadRequestLayer with
      | none => some .notDownload
      | some layer =>
          if Absent env fs layer.path h.storagePath then some (.missing layer.path) else none
  | .list =>
      match h.request.listRequestLayer with
      | none => some .notList
      | some layer =>
          if NoDirectory env fs layer.path h.storagePath then some (.missingDirectory layer.path)
          else none
  | .delete =>
      match h.request.deleteRequestLayer with
      | none => some .notDelete
      | some layer =>
          if Absent env fs layer.path h.storagePath then some (.missing layer.path) else none
  | .unknown => none

/-- In the state `s` the request is rejected; `t` is the state when it is, after an
    account may have been registered for it. -/
inductive Rejects (env : Env) (amb : Ambient) (request : Pocket) (clientAddress : Addr)
    (s : State) : Reason → State → Prop
  | account {layer : RequestLayer} {reason : Reason} (layered : request.requestLayer = some layer)
      (check : accountRejection env layer s.fs = some reason) :
      Rejects env amb request clientAddress s reason s
  | route {layer : RequestLayer} {reason : Reason} {storagePath : Str} {t : State}
      (layered : request.requestLayer = some layer)
      (chosen : chooseStorage env amb layer clientAddress s = .ok (some storagePath) t)
      (check : routeRejection env { request, clientAddress, storagePath } t.fs = some reason) :
      Rejects env amb request clientAddress s reason t

-- ============================================================================
-- A rejected request
-- ============================================================================

section Rejected

variable {amb : Ambient} {request : Pocket} {layer : RequestLayer} {a : Addr} {s t : State}
  {h : RequestHandler} {reason : Reason}

theorem chooseStorage_rejected (hcheck : accountRejection env layer s.fs = some reason) :
    chooseStorage env amb layer a s =
      (sendError reason.message a >>= fun _ => pure none) s := by
  unfold accountRejection at hcheck
  unfold chooseStorage
  split at hcheck
  · cases hcheck
  · next hanonymous =>
      rw [if_neg hanonymous]
      split at hcheck
      · next hempty =>
          cases hcheck
          rw [if_pos hempty]
          rfl
      · next hne =>
          rw [if_neg hne]
          cases hread : readFile env.cwd (dataFile env) s.fs with
          | error e fs => simp only [hread, reduceCtorEq] at hcheck
          | ok content fs =>
              obtain ⟨-, hsame⟩ := storedAccounts_of_readFile hread
              rw [hsame] at hread
              rw [bind_of_ok (onFiles_of_ok hread)]
              simp only [hread] at hcheck
              cases hload : env.loadStorage content with
              | none => simp only [hload, reduceCtorEq] at hcheck
              | some storageData =>
                  simp only [hload] at hcheck ⊢
                  cases huser : storageData.users.get? layer.userName with
                  | none => simp only [huser, reduceCtorEq] at hcheck
                  | some userData =>
                      simp only [huser] at hcheck ⊢
                      split at hcheck
                      · cases hcheck
                      · next hpassword =>
                          cases hcheck
                          rw [if_neg hpassword]
                          rfl

/-- The probe of a route finds what is at the path. -/
theorem probe_eq (env : Env) {targetPath : Str} {q : Path} (hp : Spells targetPath q)
    (fs : FileTree) :
    probe env targetPath fs =
      .ok (if fs.get? q = none then none else some (fs.isFile q)) fs := by
  have hquery : ∀ f : FileTree → Path → Bool, query env.cwd f targetPath fs = .ok (f fs q) fs :=
    fun f => by simp [query, reads, resolve_of_spells env.cwd fs hp]
  have hfile : isfile env.cwd targetPath fs = .ok (fs.isFile q) fs := hquery _
  have hdir : isdir env.cwd targetPath fs = .ok (fs.isDir q) fs := hquery _
  rw [probe, bind_of_ok hfile]
  cases hisFile : fs.isFile q with
  | true =>
      rw [if_pos rfl, if_neg (FileTree.get?_ne_none_of_isFile hisFile)]
      rfl
  | false =>
      rw [if_neg (by simp), bind_of_ok hdir]
      by_cases hnone : fs.get? q = none
      · rw [if_pos hnone, FileTree.isDir, hnone]
        rfl
      · rw [if_neg hnone, FileTree.isDir_of_get? hnone hisFile]
        rfl

/-- A route that finds nothing at the path, or nothing of the storage. -/
theorem probe_absent {path : Str} (habsent : Absent env s.fs path h.storagePath) {α : Type}
    (refusal : Prog State α) (k : Bool → Prog State α) :
    (onFiles (probe env (getPath env path h.storagePath)) >>= fun o =>
      match o with
      | none => refusal
      | some isFile => lift (inStorage env path h.storagePath) >>= fun b =>
          if b = false then refusal else k isFile) s = refusal s := by
  rcases habsent with hnone | hout
  · have hprobe := probe_eq env (normal_getPath env path h.storagePath).spells s.fs
    rw [if_pos hnone] at hprobe
    rw [bind_of_ok (onFiles_of_ok hprobe)]
  · exact congrFun (probe_outside hout refusal k) s

theorem uploadRoute_rejected (hsub : h.request.basicLayer.pocketSubType = .upload)
    (hcheck : routeRejection env h s.fs = some reason) :
    uploadRoute env h = refuse h reason.message := by
  simp only [routeRejection, hsub] at hcheck
  split at hcheck
  · next hlayer =>
      cases hcheck
      simp only [uploadRoute, hlayer]
      rfl
  · next layer hlayer =>
      simp only [uploadRoute, hlayer]
      split at hcheck
      · next hlong =>
          cases hcheck
          rw [if_pos hlong]
          rfl
      · next hlong =>
          split at hcheck
          · next hout =>
              cases hcheck
              rw [if_neg hlong, lift_ok_bind hout, if_pos rfl]
              rfl
          · cases hcheck

theorem downloadRoute_rejected (hsub : h.request.basicLayer.pocketSubType = .download)
    (hcheck : routeRejection env h s.fs = some reason) :
    downloadRoute env h s = refuse h reason.message s := by
  simp only [routeRejection, hsub] at hcheck
  split at hcheck
  · next hlayer =>
      cases hcheck
      simp only [downloadRoute, hlayer]
      rfl
  · next layer hlayer =>
      simp only [downloadRoute, hlayer]
      split at hcheck
      · next habsent =>
          cases hcheck
          exact probe_absent habsent _ _
      · cases hcheck

theorem deleteRoute_rejected (hsub : h.request.basicLayer.pocketSubType = .delete)
    (hcheck : routeRejection env h s.fs = some reason) :
    deleteRoute env h s = refuse h reason.message s := by
  simp only [routeRejection, hsub] at hcheck
  split at hcheck
  · next hlayer =>
      cases hcheck
      simp only [deleteRoute, hlayer]
      rfl
  · next layer hlayer =>
      simp only [deleteRoute, hlayer]
      split at hcheck
      · next habsent =>
          cases hcheck
          exact probe_absent habsent _ _
      · cases hcheck

theorem listRoute_rejected (hsub : h.request.basicLayer.pocketSubType = .list)
    (hcheck : routeRejection env h s.fs = some reason) :
    listRoute env h s = refuse h reason.message s := by
  simp only [routeRejection, hsub] at hcheck
  split at hcheck
  · next hlayer =>
      cases hcheck
      simp only [listRoute, hlayer]
      rfl
  · next layer hlayer =>
      split at hcheck
      · next hno =>
          cases hcheck
          rcases hno with hnot | hout
          · have hdir : isdir env.cwd (getPath env layer.path h.storagePath) s.fs =
                .ok false s.fs := by
              simp [isdir, query, reads, resolve_of_spells env.cwd s.fs
                (normal_getPath env layer.path h.storagePath).spells, hnot]
            simp only [listRoute, hlayer]
            rw [bind_of_ok (onFiles_of_ok hdir), if_pos rfl]
            rfl
          · rw [listRoute_outside hlayer hout]
            rfl
      · cases hcheck

theorem route_rejected (hcheck : routeRejection env h s.fs = some reason) :
    route env h s = refuse h reason.message s := by
  unfold route
  cases hsub : h.request.basicLayer.pocketSubType with
  | unknown => simp [routeRejection, hsub] at hcheck
  | upload => exact congrFun (uploadRoute_rejected hsub hcheck) s
  | download => exact downloadRoute_rejected hsub hcheck
  | list => exact listRoute_rejected hsub hcheck
  | delete => exact deleteRoute_rejected hsub hcheck

/-- A rejected request is answered with `send_error`, and nothing else happens. -/
theorem createHandler_rejected (hrejects : Rejects env amb request a s reason t) :
    createHandler env amb request a s = (sendError reason.message a >>= fun _ => pure none) t ∧
      t.log = s.log := by
  cases hrejects with
  | account layered check =>
      refine ⟨?_, rfl⟩
      have hchoose : ∀ f : Option Str → Prog State (Option (Handler × Pocket)),
          (chooseStorage env amb _ a >>= f) s =
          ((sendError reason.message a >>= fun _ => pure none) >>= f) s := fun f => by
        rw [bind_apply, chooseStorage_rejected check, ← bind_apply]
      simp only [createHandler, layered]
      rw [hchoose, bind_assoc]
      rfl
  | @route layer _ storagePath _ layered chosen check =>
      have hlog : t.log = s.log := by
        have hwp := @wp_chooseStorage env amb layer a s
        rw [wp, chosen] at hwp
        exact hwp.log
      refine ⟨?_, hlog⟩
      simp only [createHandler, layered]
      rw [bind_of_ok chosen]
      have hroute := route_rejected check
      show openRequest env amb request layer a storagePath t = _
      unfold openRequest
      rw [bind_apply, hroute, ← bind_apply, refuse, bind_assoc]
      rfl

-- ============================================================================
-- A request that is not rejected
-- ============================================================================

/-- No error is sent: every Response sent is ok. -/
def noErrors : Frame State where
  rel s t := ∃ new, t.log = s.log ++ new ∧ ∀ q dest, .sent q dest ∈ new →
    ∀ layer, q.responseLayer = some layer → layer.ok = true
  refl s := ⟨[], by simp, fun _ _ hmem => absurd hmem List.not_mem_nil⟩
  trans := by
    rintro s t u ⟨new, hnew, hok⟩ ⟨new', hnew', hok'⟩
    refine ⟨new ++ new', by rw [hnew', hnew, List.append_assoc], fun q dest hmem => ?_⟩
    rcases List.mem_append.mp hmem with hmem | hmem
    · exact hok q dest hmem
    · exact hok' q dest hmem

theorem noErrors_of_log (hlog : t.log = s.log) : noErrors.rel s t :=
  ⟨[], by rw [hlog, List.append_nil], fun _ _ hmem => absurd hmem List.not_mem_nil⟩

theorem keeps_noErrors_onFiles {α : Type} {x : Prog FileTree α} : Keeps noErrors (onFiles x) := by
  intro s
  unfold onFiles zoom
  cases x (fsLens.get s) with
  | ok b fs => exact noErrors_of_log rfl
  | error e fs => exact noErrors_of_log rfl

theorem keeps_noErrors_drawID {f : Nat → Routed} :
    Keeps noErrors (createNewRequestID >>= fun id => pure (some (f id))) :=
  fun _ => noErrors_of_log rfl

theorem accepted_of_chooseStorage (hcheck : accountRejection env layer s.fs = none) :
    noErrors.rel s (final (chooseStorage env amb layer a s)) := by
  unfold accountRejection at hcheck
  unfold chooseStorage
  split at hcheck
  · next hanonymous =>
      rw [if_pos hanonymous]
      exact noErrors.refl s
  · next hanonymous =>
      rw [if_neg hanonymous]
      split at hcheck
      · cases hcheck
      · next hne =>
          rw [if_neg hne]
          cases hread : readFile env.cwd (dataFile env) s.fs with
          | error e fs =>
              rw [bind_apply, onFiles, zoom_error_iff.mpr ⟨fs, hread, rfl⟩]
              exact noErrors_of_log rfl
          | ok content fs =>
              obtain ⟨-, hsame⟩ := storedAccounts_of_readFile hread
              rw [hsame] at hread
              rw [bind_of_ok (onFiles_of_ok hread)]
              simp only [hread] at hcheck
              cases hload : env.loadStorage content with
              | none => exact noErrors.refl s
              | some storageData =>
                  simp only [hload] at hcheck ⊢
                  cases huser : storageData.users.get? layer.userName with
                  | none =>
                      exact keeps_bind keeps_noErrors_onFiles (fun _ => keeps_pure _) s
                  | some userData =>
                      simp only [huser] at hcheck ⊢
                      split at hcheck
                      · next hpassword =>
                          rw [if_pos hpassword]
                          exact noErrors.refl s
                      · cases hcheck

theorem inStorage_true {path storagePath : Str}
    (h : inStorage env path storagePath ≠ .ok false) :
    inStorage env path storagePath = .ok true := by
  obtain ⟨b, hb⟩ := inStorage_total env path storagePath
  cases b with
  | true => exact hb
  | false => exact absurd hb h

theorem probe_present {path : Str} (habsent : ¬ Absent env s.fs path h.storagePath) {α : Type}
    (refusal : Prog State α) {k : Bool → Prog State α} (hk : ∀ b, Keeps noErrors (k b)) :
    noErrors.rel s (final ((onFiles (probe env (getPath env path h.storagePath)) >>= fun o =>
      match o with
      | none => refusal
      | some isFile => lift (inStorage env path h.storagePath) >>= fun b =>
          if b = false then refusal else k isFile) s)) := by
  rw [Absent, not_or] at habsent
  have hprobe := probe_eq env (normal_getPath env path h.storagePath).spells s.fs
  rw [if_neg habsent.1] at hprobe
  rw [bind_of_ok (onFiles_of_ok hprobe)]
  simp only [lift_ok_bind (inStorage_true habsent.2)]
  exact hk _ s

theorem accepted_of_uploadRoute {layer : UploadRequestLayer}
    (hlayer : h.request.uploadRequestLayer = some layer)
    (hshort : ¬ layer.path.length > FILE_PATH_MAX_LENGTH)
    (hin : inStorage env layer.path h.storagePath ≠ .ok false) :
    noErrors.rel s (final (uploadRoute env h s)) := by
  simp only [uploadRoute, hlayer]
  rw [if_neg hshort, lift_ok_bind (inStorage_true hin), if_neg (by decide)]
  exact keeps_noErrors_drawID s

theorem accepted_of_downloadRoute {layer : DownloadRequestLayer}
    (hlayer : h.request.downloadRequestLayer = some layer)
    (habsent : ¬ Absent env s.fs layer.path h.storagePath) :
    noErrors.rel s (final (downloadRoute env h s)) := by
  simp only [downloadRoute, hlayer]
  refine probe_present habsent _ fun isFile => ?_
  refine keeps_bind (keeps_reads _) fun flag => ?_
  exact keeps_bind keeps_noErrors_onFiles fun content => keeps_noErrors_drawID

theorem accepted_of_listRoute {layer : ListRequestLayer}
    (hlayer : h.request.listRequestLayer = some layer)
    (hno : ¬ NoDirectory env s.fs layer.path h.storagePath) :
    noErrors.rel s (final (listRoute env h s)) := by
  rw [NoDirectory, not_or, Bool.not_eq_false] at hno
  have hdir : isdir env.cwd (getPath env layer.path h.storagePath) s.fs = .ok true s.fs := by
    simp [isdir, query, reads, resolve_of_spells env.cwd s.fs
      (normal_getPath env layer.path h.storagePath).spells, hno.1]
  simp only [listRoute, hlayer]
  rw [bind_of_ok (onFiles_of_ok hdir), if_neg (by decide), lift_ok_bind (inStorage_true hno.2),
    if_neg (by decide)]
  refine keeps_bind keeps_noErrors_onFiles (fun fuel => ?_) s
  exact keeps_bind keeps_noErrors_onFiles fun data => keeps_noErrors_drawID

theorem accepted_of_deleteRoute {layer : DeleteRequestLayer}
    (hlayer : h.request.deleteRequestLayer = some layer)
    (habsent : ¬ Absent env s.fs layer.path h.storagePath) :
    noErrors.rel s (final (deleteRoute env h s)) := by
  simp only [deleteRoute, hlayer]
  refine probe_present habsent _ fun isFile => ?_
  exact keeps_bind keeps_noErrors_onFiles fun _ => keeps_noErrors_drawID

theorem accepted_of_route (hcheck : routeRejection env h s.fs = none) :
    noErrors.rel s (final (route env h s)) := by
  unfold routeRejection at hcheck
  unfold route
  cases hsub : h.request.basicLayer.pocketSubType with
  | unknown => exact noErrors.refl s
  | upload =>
      simp only [hsub] at hcheck
      split at hcheck
      · cases hcheck
      · next layer hlayer =>
          split_ifs at hcheck with hlong hout
          exact accepted_of_uploadRoute hlayer hlong hout
  | download =>
      simp only [hsub] at hcheck
      split at hcheck
      · cases hcheck
      · next layer hlayer =>
          split_ifs at hcheck with habsent
          exact accepted_of_downloadRoute hlayer habsent
  | list =>
      simp only [hsub] at hcheck
      split at hcheck
      · cases hcheck
      · next layer hlayer =>
          split_ifs at hcheck with hno
          exact accepted_of_listRoute hlayer hno
  | delete =>
      simp only [hsub] at hcheck
      split at hcheck
      · cases hcheck
      · next layer hlayer =>
          split_ifs at hcheck with habsent
          exact accepted_of_deleteRoute hlayer habsent

theorem keeps_noErrors_sendto {p : Pocket} {dest : Addr}
    (hp : ∀ layer, p.responseLayer = some layer → layer.ok = true) :
    Keeps noErrors (sendto p dest) := by
  refine keeps_bind (keeps_reads _) fun _ => keeps_modify fun s => ⟨[.sent p dest], rfl, ?_⟩
  intro q dest' hmem
  cases List.mem_singleton.mp hmem
  exact hp

theorem keeps_noErrors_postUpload {now : UInt64} {data : Bytes} :
    Keeps noErrors (postUpload env now h data) := by
  refine keeps_bind (keeps_modify fun s => ⟨[.postUpload h.requestID data], rfl, ?_⟩) fun _ => ?_
  · intro q dest hmem
    cases List.mem_singleton.mp hmem
  · split
    · exact keeps_throw _
    · exact keeps_noErrors_onFiles

/-- What `create_handler` sends for the request has a Response that is not ok. -/
def Refuses (env : Env) (amb : Ambient) (request : Pocket) (a : Addr) (s : State) : Prop :=
  ∃ new q dest error, (final (createHandler env amb request a s)).log = s.log ++ new ∧
    .sent q dest ∈ new ∧ q.responseLayer = some error ∧ ResponseLayer.ok error = false

/-- Only a rejected request is answered with an error. -/
theorem rejects_of_refuses (h : Refuses env amb request a s) :
    ∃ reason t, Rejects env amb request a s reason t := by
  obtain ⟨new, q, dest, error, hlog, hsent, hlayer, hok⟩ := h
  by_contra hnot
  have hkept : noErrors.rel s (final (createHandler env amb request a s)) := by
    unfold createHandler
    cases hrequest : request.requestLayer with
    | none => exact noErrors.refl s
    | some layer =>
        have haccount : accountRejection env layer s.fs = none := by
          rw [Option.eq_none_iff_forall_ne_some]
          exact fun reason hcheck => hnot ⟨reason, s, .account hrequest hcheck⟩
        refine rel_bind (accepted_of_chooseStorage haccount) fun storagePath? t hchosen => ?_
        cases storagePath? with
        | none => exact noErrors.refl t
        | some storagePath =>
            refine rel_bind (accepted_of_route ?_) fun routed? u hrouted => ?_
            · rw [Option.eq_none_iff_forall_ne_some]
              exact fun reason hcheck => hnot ⟨reason, t, .route hrequest hchosen hcheck⟩
            · cases routed? with
              | none => exact noErrors.refl u
              | some routed =>
                  have hres : ∀ dataSize segmentsAmount singleSegmentSize layer,
                      (okResponse routed.res dataSize segmentsAmount
                        singleSegmentSize).responseLayer = some layer → layer.ok = true := by
                    rintro _ _ _ layer ⟨⟩
                    rfl
                  refine keeps_ite (fun _ => ?_) (fun _ => ?_) u
                  · exact keeps_bind (keeps_noErrors_sendto (hres _ _ _)) fun _ =>
                      keeps_bind (keeps_when fun _ => keeps_noErrors_postUpload) fun _ =>
                        keeps_pure _
                  · exact keeps_bind (keeps_noErrors_sendto (hres _ _ _)) fun _ => keeps_pure _
  obtain ⟨new', hnew', hall⟩ := hkept
  rw [hlog, List.append_cancel_left_eq] at hnew'
  have htrue := hall q dest (hnew' ▸ hsent) error hlayer
  rw [hok] at htrue
  cases htrue

end Rejected

-- ============================================================================
-- The answer
-- ============================================================================

/-- The text has a length that fits in one byte. -/
theorem errorResponse_encodes_iff (message : Str) :
    (∃ bs, (errorResponse message).toBytes = .ok bs) ↔ message.length ≤ 255 := by
  constructor
  · rintro ⟨bs, h⟩
    obtain ⟨-, tail, -, htail, -⟩ := Pocket.toBytes_ok_iff.mp h
    obtain ⟨lb, hlb, -⟩ := except_bind_ok_iff.mp htail
    obtain ⟨head, -, hhead, -, -⟩ := ResponseLayer.toBytes_ok_iff.mp hlb
    have hfits := fits_of_pack hhead
    simp only [List.forall₂_cons] at hfits
    have hlen : message.length < 2 ^ 8 := hfits.2.1
    omega
  · intro hlen
    have hmessage : Code.B.Fits message.length := by
      show message.length < 2 ^ 8
      omega
    obtain ⟨basic, hbasic⟩ := pack_of_fits .native (.cons (by decide) (.cons (by decide)
      (.cons (by decide) .nil)) : List.Forall₂ Code.Fits [.B, .B, .Q]
        [PocketType.response.code, PocketSubType.unknown.code, 0])
    obtain ⟨head, hhead⟩ := pack_of_fits .native (.cons (by decide) (.cons hmessage .nil) :
      List.Forall₂ Code.Fits [.bool, .B] [0, message.length])
    obtain ⟨tail, htail⟩ := pack_of_fits .native (.cons (by decide) (.cons (by decide)
      (.cons (by decide) .nil)) : List.Forall₂ Code.Fits [.Q, .Q, .Q] [0, 0, 0])
    have hlayer : (errorResponse message).layerBytes =
        .ok (head ++ (encode message ++ tail)) := by
      have hlb := ResponseLayer.toBytes_ok_iff (l := ⟨false, message, 0, 0, 0⟩).mpr
        ⟨head, tail, hhead, htail, rfl⟩
      rw [Pocket.layerBytes, errorResponse]
      simp only [hlb]
      rfl
    exact ⟨_, Pocket.toBytes_ok_iff.mpr ⟨basic, _, hbasic, hlayer, rfl⟩⟩

/-- The text is read back exactly when it is ASCII. -/
theorem errorResponse_read_iff {message : Str} {bs : Bytes}
    (h : (errorResponse message).toBytes = .ok bs) :
    (∃ p layer, Pocket.fromBytes bs = .ok p ∧ p.responseLayer = some layer ∧ layer.ok = false ∧
      layer.errorMessage = message) ↔ Ascii message := by
  constructor
  · rintro ⟨p, layer, hdecode, hlayer, -, hmessage⟩
    obtain ⟨head, lb, post, layer', rfl, hlb, hread, hresponse⟩ :=
      Pocket.response_parts h rfl rfl rfl hdecode
    rw [hlayer, Option.some_inj] at hresponse
    rw [← hresponse] at hread
    exact (ResponseLayer.of_fromBytes_toBytes hlb head post rfl hread).2.mp hmessage
  · intro hascii
    obtain ⟨head, tail, hhead, htail, rfl⟩ := Pocket.toBytes_ok_iff.mp h
    obtain ⟨lb, hlb, hend⟩ := except_bind_ok_iff.mp htail
    cases hend
    have hread := ResponseLayer.fromBytes_toBytes_of_ascii hlb hascii head [] rfl
    rw [List.append_nil, BasicLayer.length_of_toBytes hhead] at hread
    refine ⟨{ basicLayer := (errorResponse message).basicLayer,
              responseLayer := some ⟨false, message, 0, 0, 0⟩ }, _, ?_, rfl, rfl, rfl⟩
    rw [Pocket.fromBytes, BasicLayer.fromBytes_toBytes hhead, except_ok_bind]
    show (ResponseLayer.fromBytes _ _ >>= _) = _
    rw [hread]
    rfl

/-- The requester at `a` gets one Response and nothing else happens: what its client
    decodes of the datagram is not ok, and tells the text. -/
def Answered (env : Env) (amb : Ambient) (request : Pocket) (a : Addr) (s : State)
    (message : Str) : Prop :=
  ∃ t res bs, createHandler env amb request a s = .ok none t ∧
    t.log = s.log ++ [.sent res a] ∧ res.basicLayer.pocketType = .response ∧
    res.toBytes = .ok bs ∧ ∃ p layer, Pocket.fromBytes bs = .ok p ∧
      p.responseLayer = some layer ∧ layer.ok = false ∧ layer.errorMessage = message

theorem answered_of_rejects {amb : Ambient} {request : Pocket} {a : Addr} {s t : State}
    {reason : Reason} (hrejects : Rejects env amb request a s reason t) :
    Answered env amb request a s reason.message ↔ reason.Readable := by
  obtain ⟨hrun, hlog⟩ := createHandler_rejected hrejects
  rw [← Reason.readable_iff, Answered, hrun]
  constructor
  · rintro ⟨u, res, bs, hsent, hnew, -, hbs, hread⟩
    obtain ⟨_, u', hsend, hend⟩ := bind_ok_iff.mp hsent
    cases hend
    obtain ⟨bs', v, hlift, hrecord⟩ := bind_ok_iff.mp hsend
    obtain ⟨hbs', hv⟩ := reads_ok_iff.mp hlift
    cases hrecord
    simp only [hv, hlog] at hnew
    rw [List.append_cancel_left_eq, List.singleton_inj, Action.sent.injEq] at hnew
    rw [← hnew.1] at hbs
    exact ⟨(errorResponse_encodes_iff _).mp ⟨bs, hbs⟩, (errorResponse_read_iff hbs).mp hread⟩
  · rintro ⟨hlen, hascii⟩
    obtain ⟨bs, hbs⟩ := (errorResponse_encodes_iff _).mpr hlen
    refine ⟨{ t with log := t.log ++ [.sent (errorResponse reason.message) a] }, _, bs, ?_, ?_, ?_,
      hbs, (errorResponse_read_iff hbs).mpr hascii⟩
    · have hsend : sendError reason.message a t = .ok ()
          { t with log := t.log ++ [.sent (errorResponse reason.message) a] } := by
        rw [sendError, sendto, lift_ok_bind hbs]
        rfl
      rw [bind_of_ok hsend]
      rfl
    · rw [hlog]
    · rfl

/-- **A rejected request is answered**, with its text, exactly when the text can be sent
    and read; and no other request is answered with an error. -/
theorem answered_iff {amb : Ambient} {request : Pocket} {a : Addr} {s : State} :
    (∀ reason t, Rejects env amb request a s reason t →
      (Answered env amb request a s reason.message ↔ reason.Readable)) ∧
    (Refuses env amb request a s → ∃ reason t, Rejects env amb request a s reason t) :=
  ⟨fun _ _ => answered_of_rejects, rejects_of_refuses⟩

/-- A Download of a path outside the storage is answered. -/
theorem answered_iff_prying :
    Answered default default prying (['c'], 8001) (installedState false)
      (Reason.missing "../private/x".toList).message := by
  have hrejects : Rejects default default prying (['c'], 8001) (installedState false)
      (.missing "../private/x".toList) (installedState false) :=
    .route rfl rfl (by decide +kernel)
  exact (answered_iff.1 _ _ hrejects).mpr ⟨by decide, by decide⟩

/-- A Download of a path of 217 characters, which names nothing. -/
def longDownload : Pocket :=
  { basicLayer := ⟨0, .request, .download⟩
    requestLayer := some ⟨0, 1000, true, [], []⟩
    downloadRequestLayer := some ⟨List.replicate 217 'a'⟩ }

/-- The text for `longDownload` has 256 characters: `send_error` raises. -/
theorem not_answered :
    ¬ ∀ (env : Env) (amb : Ambient) (data : Bytes) (request : Pocket) (a : Addr) (s t : State)
      (reason : Reason), Pocket.fromBytes data = .ok request →
      request.basicLayer.pocketType = .request → Rejects env amb request a s reason t →
      Answered env amb request a s reason.message := by
  intro hall
  have hrejects : Rejects default default longDownload (['c'], 8001) (installedState false)
      (.missing (List.replicate 217 'a')) (installedState false) :=
    .route rfl rfl (by decide +kernel)
  obtain ⟨t, -, -, hrun, -⟩ := hall default default longDownload.datagram longDownload
    (['c'], 8001) _ _ _ (by decide +kernel) rfl hrejects
  have hraises : (match createHandler default default longDownload (['c'], 8001)
      (installedState false) with
      | .ok _ _ => false
      | .error _ _ => true) = true := by
    decide +kernel
  rw [hrun] at hraises
  cases hraises

end App
end NetworkingFinal
