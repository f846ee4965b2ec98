/-
  NetworkingFinal.App.StoreRuns

  The storage application refines the store of files.

  What the process has stored, after any run, is what its log of completed uploads
  and deletions says: at each path the content that the last of them at or above
  the path put there (`file_store`).
-/
import NetworkingFinal.App.FileStore
import NetworkingFinal.App.Ownership
import NetworkingFinal.App.Rejections

namespace NetworkingFinal
namespace App

open Py Py.Prog Py.Os Py.PosixPath Py.Struct Ftp Lib

variable {env : Env}

-- ============================================================================
-- Requests that change no file
-- ============================================================================

/-- The filesystem is as it was. -/
def sameFiles : Frame State where
  rel s t := t.fs = s.fs
  refl _ := rfl
  trans h h' := h'.trans h

section Same

variable {α : Type} {h : RequestHandler}

theorem sameFiles_onFiles {x : Prog FileTree α} (hx : Keeps unchanged x) :
    Keeps sameFiles (onFiles x) :=
  keeps_zoom hx fun _ _ hrel => hrel

theorem sameFiles_sendto {p : Pocket} {a : Addr} : Keeps sameFiles (sendto p a) :=
  keeps_bind (keeps_reads _) fun _ => keeps_modify fun _ => rfl

theorem sameFiles_refuse {msg : Str} : Keeps sameFiles (refuse (α := α) h msg) :=
  keeps_bind sameFiles_sendto fun _ => keeps_pure _

theorem sameFiles_drawID : Keeps sameFiles createNewRequestID := fun _ => rfl

theorem sameFiles_uploadRoute : Keeps sameFiles (uploadRoute env h) := by
  unfold uploadRoute
  split
  · exact sameFiles_refuse
  · refine keeps_ite (fun _ => sameFiles_refuse) fun _ => keeps_bind (keeps_reads _) fun _ =>
      keeps_ite (fun _ => sameFiles_refuse) fun _ => ?_
    exact keeps_bind sameFiles_drawID fun _ => keeps_pure _

theorem sameFiles_downloadRoute : Keeps sameFiles (downloadRoute env h) := by
  unfold downloadRoute
  split
  · exact sameFiles_refuse
  · refine keeps_bind (sameFiles_onFiles keeps_probe) fun o => ?_
    split
    · exact sameFiles_refuse
    · refine keeps_bind (keeps_reads _) fun _ => keeps_ite (fun _ => sameFiles_refuse) fun _ => ?_
      refine keeps_bind (keeps_reads _) fun _ => keeps_bind (sameFiles_onFiles ?_) fun _ =>
        keeps_bind sameFiles_drawID fun _ => keeps_pure _
      exact keeps_ite (fun _ => keeps_readFile) fun _ => keeps_archive

theorem sameFiles_listRoute : Keeps sameFiles (listRoute env h) := by
  unfold listRoute
  split
  · exact sameFiles_refuse
  · refine keeps_bind (sameFiles_onFiles keeps_isdir) fun _ =>
      keeps_ite (fun _ => sameFiles_refuse) fun _ => ?_
    refine keeps_bind (keeps_reads _) fun _ => keeps_ite (fun _ => sameFiles_refuse) fun _ => ?_
    refine keeps_bind (sameFiles_onFiles (keeps_reads _)) fun _ => ?_
    exact keeps_bind (sameFiles_onFiles keeps_loadDirectory) fun _ =>
      keeps_bind sameFiles_drawID fun _ => keeps_pure _

end Same

-- ============================================================================
-- Choosing the storage
-- ============================================================================

/-- What a frame says of the files of the process. -/
def filesKept (F : Frame FileTree) : Frame State where
  rel s t := F.rel s.fs t.fs
  refl s := F.refl s.fs
  trans h h' := F.trans h h'

/-- Apart from the account file, the files are as they were. -/
def accountsOnly (env : Env) : Frame FileTree where
  rel s t := ∀ p, p ≠ accountFile env → t.fileAt p = s.fileAt p
  refl _ _ _ := rfl
  trans h h' p hp := (h' p hp).trans (h p hp)

section Choosing

variable {F : Frame FileTree} {amb : Ambient} {layer : RequestLayer} {a : Addr} {s t : State}

theorem filesKept_of_sameFiles {α : Type} {x : Prog State α} (h : Keeps sameFiles x) :
    Keeps (filesKept F) x := by
  refine h.mono fun s t hrel => ?_
  show F.rel s.fs t.fs
  rw [show t.fs = s.fs from hrel]
  exact F.refl s.fs

/-- A registration makes the directory of a drawn id and writes the account file. -/
theorem keeps_registerUser {storageData : StorageData}
    (hmkdir : ∀ id ∈ amb.uuids, Keeps F (mkdir env.cwd amb.now (userDirectory env id)))
    (hwrite : ∀ data, Keeps F (writeFile env.cwd amb.now (dataFile env) data)) :
    Keeps F (registerUser env amb storageData layer) := by
  have hfresh : ∀ ids, Keeps F (freshId env ids) := by
    intro ids
    induction ids with
    | nil => exact keeps_throw _
    | cons id ids ih =>
        exact keeps_bind keeps_isdir fun _ => keeps_ite (fun _ => ih) fun _ => keeps_pure _
  refine keeps_bind_of (fun id => id ∈ amb.uuids) (hfresh _)
    (fun _ _ _ hid => (mem_of_freshId hid).1) fun id hid => ?_
  exact keeps_bind (hmkdir id hid) fun _ => keeps_bind (hwrite _) fun _ => keeps_pure _

theorem keeps_writeAccounts {data : Bytes}
    (h : ∀ s t, put (.file data amb.now) s (accountFile env) = some t → F.rel s t) :
    Keeps F (writeFile env.cwd amb.now (dataFile env) data) :=
  keeps_update_abspath env.cwd_abs env.cwd_plain h

/-- Choosing the storage changes what a registration changes. -/
theorem keeps_chooseStorage
    (h : ∀ storageData, Keeps F (registerUser env amb storageData layer)) :
    Keeps (filesKept F) (chooseStorage env amb layer a) := by
  have hrefuse : ∀ msg, Keeps (filesKept F)
      (sendError msg a >>= fun _ => (pure none : Prog State (Option Str))) := fun msg =>
    filesKept_of_sameFiles (keeps_bind sameFiles_sendto fun _ => keeps_pure _)
  unfold chooseStorage
  refine keeps_ite (fun _ => keeps_pure _) fun _ => keeps_ite (fun _ => hrefuse _) fun _ => ?_
  refine keeps_bind (filesKept_of_sameFiles (sameFiles_onFiles keeps_readFile)) fun content => ?_
  split
  · exact keeps_throw _
  · split
    · exact keeps_ite (fun _ => keeps_pure _) fun _ => hrefuse _
    · exact keeps_bind (keeps_zoom (h _) fun _ _ hrel => hrel) fun _ => keeps_pure _

/-- Choosing the storage writes no file but the account file. -/
theorem accountsOnly_chooseStorage :
    Keeps (filesKept (accountsOnly env)) (chooseStorage env amb layer a) := by
  refine keeps_chooseStorage fun storageData => keeps_registerUser (fun id _ => ?_) fun data => ?_
  · exact Archive.filesStay_mkdir.mono fun _ _ hrel q _ => hrel q
  · refine keeps_writeAccounts fun s t hput p hp => ?_
    rw [Archive.fileAt_of_put hput, if_neg hp]

/-- Work on files does not look at the rest of the state. -/
theorem coupled_onFiles_same {α : Type} (x : Prog FileTree α) :
    Coupled (fun s t : State => s.fs = t.fs) (onFiles x) (onFiles x) := by
  refine coupled_zoom (D := Eq) (fun s t hst => ?_) (fun _ _ hst => hst) fun _ _ _ _ _ h => h
  subst hst
  cases x s with
  | ok b u => exact ⟨rfl, rfl⟩
  | error e u => exact ⟨rfl, rfl⟩

/-- The choice depends on the files only. -/
theorem coupled_chooseStorage :
    Coupled (fun s t : State => s.fs = t.fs) (chooseStorage env amb layer a)
      (chooseStorage env amb layer a) := by
  have hrefuse : ∀ msg, Coupled (fun s t : State => s.fs = t.fs)
      (sendError msg a >>= fun _ => (pure none : Prog State (Option Str)))
      (sendError msg a >>= fun _ => pure none) := fun msg =>
    coupled_bind (coupled_bind (coupled_reads fun _ _ _ => rfl) fun _ =>
      coupled_modify fun _ _ h => h) fun _ => coupled_pure _
  unfold chooseStorage
  refine coupled_ite (fun _ => coupled_pure _) fun _ =>
    coupled_ite (fun _ => hrefuse _) fun _ => ?_
  refine coupled_bind (coupled_onFiles_same _) fun content => ?_
  split
  · exact coupled_throw _
  · split
    · exact coupled_ite (fun _ => coupled_pure _) fun _ => hrefuse _
    · exact coupled_bind (coupled_onFiles_same _) fun _ => coupled_pure _

/-- The same files give the same choice. -/
theorem chooseStorage_congr {u : State} {r : Option Str} (hfs : s.fs = t.fs)
    (h : chooseStorage env amb layer a s = .ok r u) :
    ∃ v, chooseStorage env amb layer a t = .ok r v ∧ v.fs = u.fs := by
  have hcoupled : Coupled (fun s t : State => s.fs = t.fs) (chooseStorage env amb layer a)
    (chooseStorage env amb layer a) := coupled_chooseStorage
  have hsame := hcoupled s t hfs
  rw [h] at hsame
  cases hrun : chooseStorage env amb layer a t with
  | ok r' v =>
      rw [hrun] at hsame
      exact ⟨v, by rw [hsame.1], hsame.2.symm⟩
  | error e v =>
      rw [hrun] at hsame
      exact hsame.elim

end Choosing

-- ============================================================================
-- Carrying a request out
-- ============================================================================

section Carrying

variable {amb : Ambient} {request : Pocket} {layer : RequestLayer} {a : Addr}
  {storagePath : Str} {s t : State}

/-- A Delete request: the change it makes, also when it is rejected and makes none. -/
theorem files_of_deleteRoute {h : RequestHandler} {routed : Option Routed}
    (hroute : deleteRoute env h s = .ok routed t) (p : Path) :
    t.fs.fileAt p =
      putAll p (s.fs.fileAt p) (deleteChange env h.request h.storagePath s.fs) := by
  have hsame : ∀ {u : State}, u.fs = s.fs → deleteChange env h.request h.storagePath s.fs = [] →
      u.fs.fileAt p =
        putAll p (s.fs.fileAt p) (deleteChange env h.request h.storagePath s.fs) := by
    intro u hfs hno
    rw [hno, putAll_nil, hfs]
  cases hlayer : h.request.deleteRequestLayer with
  | none =>
      unfold deleteRoute at hroute
      simp only [hlayer] at hroute
      refine hsame (sameFiles_refuse.of_ok hroute) ?_
      simp only [deleteChange, hlayer]
  | some layer =>
      have hp := normal_getPath env layer.path h.storagePath
      have hprobe := probe_eq env hp.spells s.fs
      obtain ⟨legal, hlegal⟩ := inStorage_total env layer.path h.storagePath
      unfold deleteRoute at hroute
      simp only [hlayer] at hroute
      rw [bind_of_ok (onFiles_of_ok hprobe)] at hroute
      by_cases hthere : s.fs.get? (targetOf env layer.path h.storagePath) = none
      · rw [if_pos hthere] at hroute
        refine hsame (sameFiles_refuse.of_ok hroute) ?_
        simp [deleteChange, hlayer, hthere]
      · rw [if_neg hthere] at hroute
        simp only [lift_ok_bind hlegal] at hroute
        cases legal with
        | false =>
            refine hsame (sameFiles_refuse.of_ok hroute) ?_
            simp [deleteChange, hlayer, hlegal]
        | true =>
            obtain ⟨_, u, hfiles, hend⟩ := bind_ok_iff.mp hroute
            obtain ⟨fs, hfs, rfl⟩ := zoom_ok_iff.mp hfiles
            cases hend
            have hchange : deleteChange env h.request h.storagePath s.fs =
                [⟨targetOf env layer.path h.storagePath, fun _ => none⟩] := by
              simp [deleteChange, hlayer, hlegal, Option.isSome_iff_ne_none, hthere]
            rw [hchange]
            cases hfile : s.fs.isFile (targetOf env layer.path h.storagePath) with
            | true =>
                rw [hfile, if_pos rfl] at hfs
                have hgone := of_update_ok hp.spells
                  (show remove env.cwd _ s.fs = .ok () fs from hfs)
                rw [if_pos hfile, Option.some_inj] at hgone
                have hne : targetOf env layer.path h.storagePath ≠ [] := by
                  intro hnil
                  rw [hnil] at hfile
                  cases hfile
                show fs.fileAt p = _
                rw [← hgone]
                exact fileAt_of_removeTree hne p
            | false =>
                rw [hfile] at hfs
                exact fileAt_of_deleteDirectory hp (FileTree.isDir_of_get? hthere hfile) hfs p

/-- Nothing is stored for an upload that announced nothing: its data has no first byte. -/
theorem postUpload_nil_ne_ok {now : UInt64} {h : RequestHandler} :
    postUpload env now h [] s ≠ .ok () t := by
  intro hpost
  obtain ⟨_, u, hrecord, hpost⟩ := bind_ok_iff.mp hpost
  cases hlayer : h.request.uploadRequestLayer with
  | none =>
      simp only [hlayer] at hpost
      cases hpost
  | some layer =>
      simp only [hlayer] at hpost
      obtain ⟨fs, hstore, -⟩ := zoom_ok_iff.mp hpost
      have hp := normal_getPath env layer.path h.storagePath
      exact (storeUpload_ok hp (ne_nil_of_storeUpload hp hstore) hstore).2.elim

theorem files_of_route {h : RequestHandler} {routed : Option Routed}
    (hroute : route env h s = .ok routed t) (p : Path) :
    t.fs.fileAt p = putAll p (s.fs.fileAt p)
      (if h.request.basicLayer.pocketSubType = .delete then
        deleteChange env h.request h.storagePath s.fs
      else []) := by
  have hsame : ∀ {x : Prog State (Option Routed)}, Keeps sameFiles x → x s = .ok routed t →
      h.request.basicLayer.pocketSubType ≠ .delete →
      t.fs.fileAt p = putAll p (s.fs.fileAt p)
        (if h.request.basicLayer.pocketSubType = .delete then
          deleteChange env h.request h.storagePath s.fs
        else []) := by
    intro x hx hrun hother
    rw [if_neg hother, putAll_nil, show t.fs = s.fs from hx.of_ok hrun]
  unfold route at hroute
  cases hsub : h.request.basicLayer.pocketSubType with
  | unknown =>
      simp only [hsub] at hroute
      cases hroute
  | upload =>
      simp only [hsub] at hroute hsame ⊢
      exact hsame sameFiles_uploadRoute hroute fun h => by cases h
  | download =>
      simp only [hsub] at hroute hsame ⊢
      exact hsame sameFiles_downloadRoute hroute fun h => by cases h
  | list =>
      simp only [hsub] at hroute hsame ⊢
      exact hsame sameFiles_listRoute hroute fun h => by cases h
  | delete =>
      simp only [hsub] at hroute
      rw [if_pos rfl]
      exact files_of_deleteRoute hroute p

theorem files_of_openRequest {result : Option (Handler × Pocket)}
    (hopen : openRequest env amb request layer a storagePath s = .ok result t) (p : Path) :
    t.fs.fileAt p = putAll p (s.fs.fileAt p)
      (if request.basicLayer.pocketSubType = .delete then
        deleteChange env request storagePath s.fs
      else []) := by
  obtain ⟨routed, u, hroute, hopen⟩ := bind_ok_iff.mp hopen
  rw [← files_of_route hroute p]
  cases routed with
  | none =>
      cases hopen
      rfl
  | some routed =>
      simp only at hopen
      generalize (if request.basicLayer.pocketSubType = .upload then layer.pocketFullSize
        else (routed.data.getD []).length) = dataSize at hopen
      rw [apply_ite (fun x : Prog State (Option (Handler × Pocket)) => x u)] at hopen
      split at hopen
      · obtain ⟨_, v, hsent, hopen⟩ := bind_ok_iff.mp hopen
        obtain ⟨_, w, hpost, hopen⟩ := bind_ok_iff.mp hopen
        cases hopen
        have hfs : v.fs = u.fs := sameFiles_sendto.of_ok hsent
        by_cases hupload : request.basicLayer.pocketSubType = .upload
        · rw [when, if_pos (decide_eq_true hupload)] at hpost
          exact absurd hpost postUpload_nil_ne_ok
        · rw [when, if_neg (by simpa using hupload)] at hpost
          cases hpost
          rw [hfs]
      · obtain ⟨_, v, hsent, hopen⟩ := bind_ok_iff.mp hopen
        cases hopen
        have hfs : t.fs = u.fs := sameFiles_sendto.of_ok hsent
        rw [hfs]

/-- A Request that does not end the main loop changes the store as it says. -/
theorem files_of_createHandler {pre : List Action} {result : Option (Handler × Pocket)}
    (hcreate : createHandler env amb request a { s with log := s.log ++ pre } = .ok result t)
    {p : Path} (hp : p ≠ accountFile env) :
    t.fs.fileAt p = putAll p (s.fs.fileAt p) (requestChange env amb s request a) := by
  cases hlayer : request.requestLayer with
  | none =>
      simp only [createHandler, hlayer] at hcreate
      cases hcreate
  | some layer =>
      simp only [createHandler, hlayer] at hcreate
      obtain ⟨choice, u, hchoose, hopen⟩ := bind_ok_iff.mp hcreate
      have hsame : ({ s with log := s.log ++ pre } : State).fs = s.fs := rfl
      obtain ⟨v, hchoose', hfs⟩ := chooseStorage_congr hsame hchoose
      have hkept := accountsOnly_chooseStorage.of_ok hchoose p hp
      cases choice with
      | none =>
          cases hopen
          simp only [requestChange, hlayer, hchoose', putAll_nil]
          exact hkept
      | some storagePath =>
          have hfiles := files_of_openRequest hopen p
          rw [hkept] at hfiles
          simp only [requestChange, hlayer, hchoose', hfs]
          exact hfiles

end Carrying

-- ============================================================================
-- Runs
-- ============================================================================

/-- One step of a process that goes on. -/
theorem files_of_step {s t : Server} {e : Event} (h : App.step env s e = some t)
    (hrun : t.stopped = none) {p : Path} (hp : p ≠ accountFile env) :
    s.stopped = none ∧
      t.app.fs.fileAt p = (changesOf env s e).foldl (Change.put p) (s.app.fs.fileAt p) := by
  cases e with
  | timeout => exact ⟨step_timeout h ▸ hrun, by rw [step_timeout h]; rfl⟩
  | task i clk =>
      obtain ⟨hfs, hstop⟩ := fs_of_task h
      exact ⟨hstop ▸ hrun, by rw [hfs]; rfl⟩
  | recv data a amb =>
      obtain ⟨hstop, hwork⟩ := fileWork_of_recv h
      refine ⟨hstop, ?_⟩
      show _ = putAll p (s.app.fs.fileAt p) (changesOf env s (.recv data a amb))
      rcases hwork with ⟨hfails, hfs⟩ | ⟨q, ok, hdecode, hwork, hok⟩
      · cases hdecode : Pocket.fromBytes data with
        | ok q => exact absurd hdecode (hfails q)
        | error e => simp only [changesOf, hdecode, putAll_nil, hfs]
      · rw [hok hrun] at hwork
        generalize hfs : t.app.fs = fs at hwork
        simp only [changesOf, hdecode]
        cases hwork with
        | idle quiet =>
            obtain ⟨hother, hnone⟩ := quiet rfl
            rw [if_neg hother]
            simp only [hnone, putAll_nil]
        | request type run =>
            rw [if_pos type]
            exact files_of_createHandler run hp
        | @stored _ u layer _ other completed request run =>
            rw [if_neg other]
            simp only [completed, uploadChange, request]
            exact fileAt_of_storeUpload (normal_getPath env layer.path u.storagePath) run p

theorem files_of_exec {fs : FileTree} {es : List Event} {s : Server}
    (h : exec (App.step env) (Server.init fs) es = some s) (hrun : s.stopped = none) {p : Path}
    (hp : p ≠ accountFile env) :
    s.app.fs.fileAt p =
      putAll p (fs.fileAt p) (observed (App.step env) (changesOf env) (Server.init fs) es) :=
  exec_refines (P := fun s : Server => s.stopped = none) (fun s => s.app.fs.fileAt p)
    (fun _ _ _ hstep hgoes => files_of_step hstep hgoes hp) h hrun

/-- **The file store.**  After every run of the process whose main loop goes on, what is
    stored at a path is what the last completed upload or accepted deletion at the path
    or above it put there, and what was there at the start when there is none. -/
theorem file_store {fs : FileTree} {es : List Event} {s : Server}
    (h : exec (App.step env) (Server.init fs) es = some s) (hrun : s.stopped = none) {p : Path}
    (hp : p ≠ accountFile env) :
    (∀ pre c post, observed (App.step env) (changesOf env) (Server.init fs) es = pre ++ c :: post →
      c.place <+: p → (∀ d ∈ post, ¬ d.place <+: p) → s.app.fs.fileAt p = c.content p) ∧
    ((∀ d ∈ observed (App.step env) (changesOf env) (Server.init fs) es, ¬ d.place <+: p) →
      s.app.fs.fileAt p = fs.fileAt p) := by
  have hfiles := files_of_exec h hrun hp
  constructor
  · intro pre c post hlog hc hpost
    rw [hfiles, hlog, putAll_eq_last hc hpost]
  · intro hnone
    rw [hfiles, putAll_of_uncovered hnone]

theorem file_store_strangerRun :
    ∃ s, exec (App.step default) (Server.init (installed default)) strangerRun = some s ∧
      s.app.fs.fileAt (targetOf default ['f'] (publicPath default)) = some [7] := by
  have hcheck : (exec (App.step default) (Server.init (installed default)) strangerRun).map
      Server.stopped = some none := by decide +kernel
  have hlog : (observed (App.step default) (changesOf default) (Server.init (installed default))
      strangerRun).map (fun c => (c.place, c.content (targetOf default ['f'] (publicPath default)))) =
        [(targetOf default ['f'] (publicPath default), some [7])] := by decide +kernel
  obtain ⟨s, hs, hrun⟩ := Option.map_eq_some_iff.mp hcheck
  obtain ⟨c, log, hchanges, hc, hnil⟩ := List.map_eq_cons_iff.mp hlog
  rw [List.map_eq_nil_iff] at hnil
  subst hnil
  simp only [Prod.mk.injEq] at hc
  have hother : targetOf default ['f'] (publicPath default) ≠ accountFile default := by
    decide +kernel
  have hstore := (file_store hs hrun hother).1 [] c [] hchanges (hc.1 ▸ List.prefix_refl _)
    fun d hd => by cases hd
  exact ⟨s, hs, hstore.trans hc.2⟩

end App
end NetworkingFinal
