/-
  NetworkingFinal.App.Restart

  The storage application over restarts.

  The tables, the request ids and the workers go with the process; what is in the
  filesystem stays, and `init_strorage` makes what is missing of the storage.

  - `file_store_survives`: over any lifetime the files are what the log of completed
    uploads and deletions says, as long as no turn fails at or above them.
  - `private_survives`: so are the account of a user and the user's directory.
-/
import NetworkingFinal.App.Isolation
import NetworkingFinal.Lib.Restart

namespace NetworkingFinal
namespace App

open Py Py.Prog Py.Os Py.PosixPath Py.Struct Ftp Lib

variable {env : Env}

/-- A new process on the filesystem: an exception in `init_strorage` ends it. -/
def Server.restart (env : Env) (now : UInt64) (s : Server) : Server :=
  match initStorage env now s.app.fs with
  | .error e fs => { Server.init fs with stopped := some e }
  | .ok _ fs => Server.init fs

/-- The steps of the process and its restarts, each at a time. -/
def lifetime (env : Env) : Server → Life Event UInt64 → Option Server :=
  life (App.step env) (Server.restart env)

-- ============================================================================
-- The files of a turn that fails
-- ============================================================================

/-- The file at `p` is as it was. -/
def fileStays (p : Path) : Frame FileTree where
  rel s t := t.fileAt p = s.fileAt p
  refl _ := rfl
  trans h h' := h'.trans h

/-- Where the paths that an Upload or a Delete request names lead. -/
def namedPlaces (env : Env) (request : Pocket) (storagePath : Str) : List Path :=
  (request.uploadRequestLayer.toList.map UploadRequestLayer.path ++
    request.deleteRequestLayer.toList.map DeleteRequestLayer.path).map
      fun path => targetOf env path storagePath

/-- Where a Request leads, when it gets a storage. -/
def requestPlaces (env : Env) (amb : Ambient) (s : State) (request : Pocket) (a : Addr) :
    List Path :=
  match request.requestLayer with
  | none => []
  | some layer =>
      match chooseStorage env amb layer a s with
      | .ok (some storagePath) _ => namedPlaces env request storagePath
      | _ => []

/-- The places that a step of the process works at: those of a Request, and of an upload
    that is completed. -/
def placesOf (env : Env) (s : Server) : Event → List Path
  | .recv data a amb =>
      match Pocket.fromBytes data with
      | .error _ => []
      | .ok p =>
          if p.basicLayer.pocketType = .request then requestPlaces env amb s.app p a
          else
            match completedBy s.handlers p with
            | none => []
            | some u => namedPlaces env u.request u.storagePath
  | .timeout => []
  | .task _ _ => []

section Failing

variable {amb : Ambient} {request : Pocket} {layer : RequestLayer} {a : Addr}
  {storagePath : Str} {p : Path}

theorem mem_namedPlaces_upload {layer : UploadRequestLayer}
    (h : request.uploadRequestLayer = some layer) :
    targetOf env layer.path storagePath ∈ namedPlaces env request storagePath := by
  simp [namedPlaces, h]

theorem mem_namedPlaces_delete {layer : DeleteRequestLayer}
    (h : request.deleteRequestLayer = some layer) :
    targetOf env layer.path storagePath ∈ namedPlaces env request storagePath := by
  simp [namedPlaces, h]

/-- Work at and below a place that does not cover `p`. -/
theorem fileStays_of_outside {α : Type} {q : Path} {x : Prog FileTree α}
    (hq : ¬ q <+: p) (h : Keeps (filesOutside q) x) : Keeps (fileStays p) x :=
  h.mono fun _ _ hrel => hrel p hq

theorem fileStays_removeEntry {path : Str} {q r : Path} (hp : Spells path q) (hr : r <+: q) :
    Keeps (filesOutside r) (removeEntry env path) := by
  refine keeps_bind (keeps_query _) fun _ => keeps_ite (fun _ => ?_) fun _ => ?_
  · exact filesOutside_remove hp hr
  · exact keeps_bind keeps_isdir fun _ => keeps_when fun _ => filesOutside_rmtree hp hr

theorem filesOutside_deleteDirectory {h : RequestHandler} {targetPath : Str} {q : Path}
    (hp : Normal targetPath q) : Keeps (filesOutside q) (deleteDirectory env h targetPath) := by
  refine keeps_ite (fun _ => ?_) fun _ => filesOutside_rmtree hp.spells (List.prefix_refl q)
  refine keeps_bind_of (fun names => ∀ name ∈ names, Plain name) keeps_listdir
    (fun _ _ _ hnames => plain_of_listdir hnames) fun names hplain => ?_
  exact keeps_each fun name hname =>
    fileStays_removeEntry (hp.spells.child (hplain name hname)) (List.prefix_append _ _)

theorem fileStays_deleteRoute {h : RequestHandler}
    (hout : ∀ q ∈ namedPlaces env h.request h.storagePath, ¬ q <+: p) :
    Keeps (filesKept (fileStays p)) (deleteRoute env h) := by
  unfold deleteRoute
  split
  · exact filesKept_of_sameFiles sameFiles_refuse
  · next layer hlayer =>
      have hq := hout _ (mem_namedPlaces_delete hlayer)
      have hp := normal_getPath env layer.path h.storagePath
      refine keeps_bind (filesKept_of_sameFiles (sameFiles_onFiles keeps_probe)) fun o => ?_
      split
      · exact filesKept_of_sameFiles sameFiles_refuse
      · refine keeps_bind (keeps_reads _) fun _ =>
          keeps_ite (fun _ => filesKept_of_sameFiles sameFiles_refuse) fun _ => ?_
        refine keeps_bind (keeps_zoom (fileStays_of_outside hq ?_) fun _ _ hrel => hrel) fun _ =>
          keeps_bind (filesKept_of_sameFiles sameFiles_drawID) fun _ => keeps_pure _
        exact keeps_ite (fun _ => filesOutside_remove hp.spells (List.prefix_refl _)) fun _ =>
          filesOutside_deleteDirectory hp

theorem fileStays_route {h : RequestHandler}
    (hout : ∀ q ∈ namedPlaces env h.request h.storagePath, ¬ q <+: p) :
    Keeps (filesKept (fileStays p)) (route env h) := by
  unfold route
  split
  · exact filesKept_of_sameFiles sameFiles_uploadRoute
  · exact filesKept_of_sameFiles sameFiles_downloadRoute
  · exact filesKept_of_sameFiles sameFiles_listRoute
  · exact fileStays_deleteRoute hout
  · exact keeps_throw _

theorem fileStays_postUpload {now : UInt64} {h : RequestHandler} {data : Bytes}
    (hout : ∀ q ∈ namedPlaces env h.request h.storagePath, ¬ q <+: p) :
    Keeps (filesKept (fileStays p)) (postUpload env now h data) := by
  refine keeps_bind (filesKept_of_sameFiles fun _ => rfl) fun _ => ?_
  split
  · exact keeps_throw _
  · next layer hlayer =>
      exact keeps_zoom (fileStays_of_outside (hout _ (mem_namedPlaces_upload hlayer))
        (filesOutside_storeUpload (normal_getPath env layer.path h.storagePath)))
        fun _ _ hrel => hrel

theorem fileStays_openRequest (hout : ∀ q ∈ namedPlaces env request storagePath, ¬ q <+: p) :
    Keeps (filesKept (fileStays p)) (openRequest env amb request layer a storagePath) := by
  refine keeps_bind (fileStays_route hout) fun o => ?_
  split
  · exact keeps_pure _
  · refine keeps_ite (fun _ => ?_) fun _ =>
      keeps_bind (filesKept_of_sameFiles sameFiles_sendto) fun _ => keeps_pure _
    exact keeps_bind (filesKept_of_sameFiles sameFiles_sendto) fun _ =>
      keeps_bind (keeps_when fun _ => fileStays_postUpload hout) fun _ => keeps_pure _

/-- A Request leaves the files elsewhere alone, also when it fails. -/
theorem fileAt_of_createHandler {s : State} {pre : List Action} (hp : p ≠ accountFile env)
    (hout : ∀ q ∈ requestPlaces env amb s request a, ¬ q <+: p) :
    (final (createHandler env amb request a { s with log := s.log ++ pre })).fs.fileAt p =
      s.fs.fileAt p := by
  cases hlayer : request.requestLayer with
  | none =>
      simp only [createHandler, hlayer]
      rfl
  | some layer =>
      have hkept : (final (chooseStorage env amb layer a
          { s with log := s.log ++ pre })).fs.fileAt p = s.fs.fileAt p :=
        accountsOnly_chooseStorage _ p hp
      rw [final_createHandler hlayer]
      cases hrun : chooseStorage env amb layer a { s with log := s.log ++ pre } with
      | error e u =>
          rw [hrun] at hkept
          exact hkept
      | ok choice u =>
          rw [hrun, final_ok] at hkept
          cases choice with
          | none => exact hkept
          | some storagePath =>
              have hsame : ({ s with log := s.log ++ pre } : State).fs = s.fs := rfl
              obtain ⟨v, hrun', -⟩ := chooseStorage_congr hsame hrun
              simp only [requestPlaces, hlayer, hrun'] at hout
              exact (fileStays_openRequest hout u).trans hkept

/-- A step leaves the files alone that are not at or below the places it works at. -/
theorem fileAt_of_step {s t : Server} {e : Event} (h : App.step env s e = some t)
    (hp : p ≠ accountFile env) (hout : ∀ q ∈ placesOf env s e, ¬ q <+: p) :
    t.app.fs.fileAt p = s.app.fs.fileAt p := by
  cases e with
  | timeout => rw [step_timeout h]
  | task i clk => rw [(fs_of_task h).1]
  | recv data a amb =>
      rcases (fileWork_of_recv h).2 with ⟨-, hfs⟩ | ⟨q, ok, hdecode, hwork, -⟩
      · rw [hfs]
      · simp only [placesOf, hdecode] at hout
        have hstored : ∀ u layer, completedBy s.handlers q = some u →
            q.basicLayer.pocketType ≠ .request → u.request.uploadRequestLayer = some layer →
            (final (storeUpload env amb.now (getPath env layer.path u.storagePath)
              (assembled u.segments) s.app.fs)).fileAt p = s.app.fs.fileAt p := by
          intro u layer hcompleted hother hlayer
          rw [if_neg hother, hcompleted] at hout
          exact filesOutside_storeUpload (normal_getPath env layer.path u.storagePath)
            s.app.fs p (hout _ (mem_namedPlaces_upload hlayer))
        generalize hfs : t.app.fs = fs at hwork
        cases hwork with
        | idle _ => rfl
        | @request pre _ u type run =>
            rw [if_pos type] at hout
            have hkept : (final (createHandler env amb q a
                { s.app with log := s.app.log ++ pre })).fs.fileAt p = s.app.fs.fileAt p :=
              fileAt_of_createHandler hp hout
            rwa [run, final_ok] at hkept
        | @requestFailed pre _ u type run =>
            rw [if_pos type] at hout
            have hkept : (final (createHandler env amb q a
                { s.app with log := s.app.log ++ pre })).fs.fileAt p = s.app.fs.fileAt p :=
              fileAt_of_createHandler hp hout
            rwa [run, final_error] at hkept
        | @stored _ u layer _ other completed request run =>
            have hkept := hstored u layer completed other request
            rwa [run, final_ok] at hkept
        | @storeFailed u layer _ _ other completed request run =>
            have hkept := hstored u layer completed other request
            rwa [run, final_error] at hkept

section Places

variable {c : Change Str Bytes} {s : State}

theorem place_of_uploadChange {u : UploadRequestHandler} (h : c ∈ uploadChange env u) :
    c.place ∈ namedPlaces env u.request u.storagePath := by
  rw [uploadChange] at h
  split at h
  · cases h
  · next layer hlayer =>
      rw [List.mem_singleton.mp h]
      exact mem_namedPlaces_upload hlayer

theorem place_of_deleteChange {fs : FileTree} (h : c ∈ deleteChange env request storagePath fs) :
    c.place ∈ namedPlaces env request storagePath := by
  rw [deleteChange] at h
  split at h
  · cases h
  · next layer hlayer =>
      simp only at h
      split at h
      · rw [List.mem_singleton.mp h]
        exact mem_namedPlaces_delete hlayer
      · cases h

theorem place_of_requestChange (h : c ∈ requestChange env amb s request a) :
    c.place ∈ requestPlaces env amb s request a := by
  rw [requestChange] at h
  rw [requestPlaces]
  cases hlayer : request.requestLayer with
  | none =>
      rw [hlayer] at h
      cases h
  | some layer =>
      simp only [hlayer] at h ⊢
      cases hrun : chooseStorage env amb layer a s with
      | error e t =>
          rw [hrun] at h
          cases h
      | ok choice t =>
          rw [hrun] at h
          cases choice with
          | none => cases h
          | some storagePath =>
              dsimp only at h ⊢
              split at h
              · exact place_of_deleteChange h
              · cases h

end Places

/-- What a step changes, it changes at the places it works at. -/
theorem place_mem_placesOf {s : Server} {e : Event} {c : Change Str Bytes}
    (h : c ∈ changesOf env s e) : c.place ∈ placesOf env s e := by
  cases e with
  | timeout => cases h
  | task i clk => cases h
  | recv data a amb =>
      simp only [changesOf] at h
      simp only [placesOf]
      cases hdecode : Pocket.fromBytes data with
      | error e =>
          rw [hdecode] at h
          cases h
      | ok q =>
          simp only [hdecode] at h ⊢
          split at h
          · next htype =>
              rw [if_pos htype]
              exact place_of_requestChange h
          · next htype =>
              rw [if_neg htype]
              cases hcompleted : completedBy s.handlers q with
              | none =>
                  rw [hcompleted] at h
                  cases h
              | some u =>
                  rw [hcompleted] at h
                  exact place_of_uploadChange h

end Failing

-- ============================================================================
-- Starting again
-- ============================================================================

/-- The directories that `init_strorage` makes. -/
def storageDirs (env : Env) : List Path :=
  [rootOf env env.config.APP_STORAGE_PATH,
    rootOf env (env.config.APP_STORAGE_PATH ++ STORAGE_PUBLIC), privateRoot env]

/-- What `init_strorage` puts where nothing is. -/
inductive Installed (env : Env) (fs : FileTree) (p : Path) : Prop where
  | dir (mem : p ∈ storageDirs env) (made : fs.isDir p = true)
  | accounts (file : p = accountFile env)
      (written : fs.fileAt p = some (env.dumpStorage ⟨Dict.empty⟩))

theorem Installed.there {fs : FileTree} {p : Path} (h : Installed env fs p) : fs.get? p ≠ none := by
  cases h with
  | dir _ made => exact FileTree.get?_ne_none_of_isDir made
  | accounts _ written =>
      intro hnone
      rw [FileTree.fileAt_eq_none_of_get? hnone] at written
      cases written

theorem Installed.congr {fs fs' : FileTree} {p : Path} (h : Installed env fs p)
    (hp : fs'.get? p = fs.get? p) : Installed env fs' p := by
  cases h with
  | dir mem made => exact .dir mem (by rw [FileTree.isDir, hp]; exact made)
  | accounts file written => exact .accounts file (by rw [fileAt_congr hp, written])

/-- What is there stays, and what is new `init_strorage` made. -/
def installs (env : Env) : Frame FileTree where
  rel s t := ∀ p, t.get? p = s.get? p ∨ s.get? p = none ∧ Installed env t p
  refl _ _ := Or.inl rfl
  trans := by
    intro s t u h h' p
    rcases h' p with hsame' | ⟨hnone, hnew⟩
    · rcases h p with hsame | ⟨hnone, hnew⟩
      · exact Or.inl (hsame'.trans hsame)
      · exact Or.inr ⟨hnone, hnew.congr hsame'⟩
    · rcases h p with hsame | ⟨-, hthere⟩
      · exact Or.inr ⟨hsame ▸ hnone, hnew⟩
      · exact absurd hnone hthere.there

section Starting

variable {now : UInt64} {fs fs' : FileTree} {p : Path}

theorem installs_mkdir {path : Str} (hpath : rootOf env path ∈ storageDirs env) :
    Keeps (installs env) (mkdir env.cwd now path) := by
  refine keeps_update_abspath env.cwd_abs env.cwd_plain fun s t hmk p => ?_
  have hmade : t.isDir (rootOf env path) = true := isDir_of_mkdirAt hmk
  obtain ⟨hnone, hput⟩ := put_of_mkdirAt hmk
  rw [get?_of_put hput]
  split
  · next hp =>
      subst hp
      exact Or.inr ⟨hnone, .dir hpath hmade⟩
  · exact Or.inl rfl

/-- The account file is written where nothing is. -/
theorem installs_accounts {s t : FileTree} (hfile : isfile env.cwd (dataFile env) s = .ok false t) :
    (installs env).rel s
      (final (writeFile env.cwd now (dataFile env) (env.dumpStorage ⟨Dict.empty⟩) s)) := by
  refine final_of_wp (wp_update (fun q u hq hput p => ?_) fun _ => (installs env).refl s)
  simp only [isfile, query, reads, hq, EStateM.Result.ok.injEq] at hfile
  have hnone : s.get? q = none := by
    by_contra hthere
    have hdir := FileTree.isDir_of_get? hthere hfile.1
    rw [(put_eq_some_iff.mp hput).1.2.2.1] at hdir
    cases hdir
  have hwritten : u.fileAt q = some (env.dumpStorage ⟨Dict.empty⟩) := by
    rw [Archive.fileAt_of_put hput, if_pos rfl]
  rw [get?_of_put hput]
  split
  · next hp =>
      subst hp
      exact Or.inr ⟨hnone, .accounts
        (eq_comps_abspath_of_resolve env.cwd_abs env.cwd_plain hq) hwritten⟩
  · exact Or.inl rfl

theorem installs_initStorage : Keeps (installs env) (initStorage env now) := by
  refine keeps_bind keeps_isdir fun _ => keeps_bind (keeps_when fun _ => installs_mkdir ?_) fun _ =>
    keeps_bind keeps_isdir fun _ => keeps_bind (keeps_when fun _ => installs_mkdir ?_) fun _ =>
    keeps_bind keeps_isdir fun _ => keeps_bind (keeps_when fun _ => installs_mkdir ?_) fun _ => ?_
  · simp [storageDirs]
  · simp [storageDirs]
  · simp [storageDirs, privateRoot]
  · refine fun s => rel_bind (keeps_isfile s) fun there t hthere => ?_
    cases there with
    | true => exact (installs env).refl t
    | false =>
        have hsame : t = s := keeps_isfile (F := unchanged) |>.of_ok hthere
        subst hsame
        exact installs_accounts hthere

/-- What a restart makes of the files. -/
theorem installs_restart (s : Server) :
    (installs env).rel s.app.fs (s.restart env now).app.fs := by
  have hrel : (installs env).rel s.app.fs (final (initStorage env now s.app.fs)) :=
    installs_initStorage s.app.fs
  rw [Server.restart]
  cases hrun : initStorage env now s.app.fs with
  | ok _ fs =>
      rw [hrun] at hrel
      exact hrel
  | error e fs =>
      rw [hrun] at hrel
      exact hrel

/-- A restart changes no file but the account file. -/
theorem fileAt_restart {s : Server} (hp : p ≠ accountFile env) :
    (s.restart env now).app.fs.fileAt p = s.app.fs.fileAt p := by
  have hinstalls : (installs env).rel s.app.fs (s.restart env now).app.fs := installs_restart s
  rcases hinstalls p with hsame | ⟨hnone, hnew⟩
  · exact fileAt_congr hsame
  · rw [FileTree.fileAt_eq_none_of_get? hnone]
    cases hnew with
    | dir _ made => exact FileTree.fileAt_eq_none_of_isDir made
    | accounts file _ => exact absurd file hp

/-- A restart leaves what is there alone. -/
theorem get?_restart {s : Server} (hp : s.app.fs.get? p ≠ none) :
    (s.restart env now).app.fs.get? p = s.app.fs.get? p :=
  (installs_restart s p).resolve_right fun h => hp h.1

/-- Nothing is made below the directory of a user. -/
theorem below_restart {s : Server} {id : Str} (hid : Plain id) (hp : userRoot env id <+: p) :
    (s.restart env now).app.fs.get? p = s.app.fs.get? p := by
  refine (installs_restart s p).resolve_right fun h => ?_
  rcases h with ⟨-, hnew⟩
  cases hnew with
  | dir mem _ =>
      have hlong := hp.length_le
      rw [userRoot, privateRoot_eq] at hlong
      have hshort : p.length ≤ (rootOf env env.config.APP_STORAGE_PATH).length + 1 := by
        rw [storageDirs, List.mem_cons, List.mem_cons, List.mem_singleton] at mem
        rcases mem with rfl | rfl | rfl
        · exact Nat.le_succ _
        · rw [← rootOf_slash (by simp [STORAGE_PUBLIC_eq]), ← publicPath, rootOf_publicPath]
          simp
        · rw [privateRoot_eq]
          simp
      simp at hlong
      omega
  | accounts file _ => exact accountFile_not_below hid (file ▸ hp)

end Starting

-- ============================================================================
-- The file store over lifetimes
-- ============================================================================

/-- The step does not end the main loop, or works neither at the path nor above it. -/
def FailsElsewhere (env : Env) (p : Path) (s : Server) (e : Event) : Prop :=
  (∀ t ∈ App.step env s e, t.stopped = none) ∨ ∀ q ∈ placesOf env s e, ¬ q <+: p

instance decidableFailsElsewhere (p : Path) (s : Server) (e : Event) :
    Decidable (FailsElsewhere env p s e) :=
  inferInstanceAs (Decidable ((∀ t ∈ App.step env s e, t.stopped = none) ∨
    ∀ q ∈ placesOf env s e, ¬ q <+: p))

theorem files_of_life {s t : Server} {l : Life Event UInt64} {p : Path} (hp : p ≠ accountFile env)
    (hfails : l.Meets (FailsElsewhere env p) s) (h : lifetime env s l = some t) :
    t.app.fs.fileAt p = (l.seen (changesOf env) s).foldl (Change.put p) (s.app.fs.fileAt p) := by
  cases l with
  | restart now =>
      cases h
      exact fileAt_restart hp
  | event e =>
      have hstep : App.step env s e = some t := h
      rcases hfails with hgoes | hout
      · exact (files_of_step hstep (hgoes t hstep) hp).2
      · have hchanges : putAll p (s.app.fs.fileAt p) (changesOf env s e) = s.app.fs.fileAt p :=
          putAll_of_uncovered fun c hc => hout _ (place_mem_placesOf hc)
        rw [fileAt_of_step hstep hp hout]
        exact hchanges.symm

/-- **Stored files survive restarts.**  Over any lifetime of the process, with restarts
    anywhere and turns that fail anywhere but at the path or above it, what is stored at
    the path is what the last completed upload or accepted deletion at the path or above it
    put there, and what was there at the start when there is none. -/
theorem file_store_survives {fs : FileTree} {ls : List (Life Event UInt64)} {s : Server} {p : Path}
    (hp : p ≠ accountFile env) (h : exec (lifetime env) (Server.init fs) ls = some s)
    (hfails : AllSteps (lifetime env) (Life.Meets (FailsElsewhere env p)) (Server.init fs) ls) :
    (∀ pre c post, observed (lifetime env) (Life.seen (changesOf env)) (Server.init fs) ls =
        pre ++ c :: post → c.place <+: p → (∀ d ∈ post, ¬ d.place <+: p) →
        s.app.fs.fileAt p = c.content p) ∧
      ((∀ d ∈ observed (lifetime env) (Life.seen (changesOf env)) (Server.init fs) ls,
          ¬ d.place <+: p) →
        s.app.fs.fileAt p = fs.fileAt p) := by
  have hfiles : s.app.fs.fileAt p = putAll p (fs.fileAt p)
      (observed (lifetime env) (Life.seen (changesOf env)) (Server.init fs) ls) :=
    exec_refines_of (fun s => s.app.fs.fileAt p)
      (fun _ _ _ hfails hstep => files_of_life hp hfails hstep) hfails h
  constructor
  · intro pre c post hlog hc hpost
    rw [hfiles, hlog, putAll_eq_last hc hpost]
  · intro hnone
    rw [hfiles, putAll_of_uncovered hnone]

/-- A datagram that ends the main loop, and a restart. -/
def crash : List (Life Event UInt64) := [.event (.recv [1] (['c'], 8001) ⟨0, []⟩), .restart 5]

/-- The same after a file was stored. -/
def crashedStore : List (Life Event UInt64) := strangerRun.map .event ++ crash

theorem file_store_survives_crashedStore :
    ∃ s, exec (lifetime default) (Server.init (installed default)) crashedStore = some s ∧
      s.app.fs.fileAt (targetOf default ['f'] (publicPath default)) = some [7] := by
  have hruns : (exec (lifetime default) (Server.init (installed default)) crashedStore).isSome := by
    decide +kernel
  have hlog : (observed (lifetime default) (Life.seen (changesOf default))
      (Server.init (installed default)) crashedStore).map
        (fun c => (c.place, c.content (targetOf default ['f'] (publicPath default)))) =
        [(targetOf default ['f'] (publicPath default), some [7])] := by decide +kernel
  have hfails : AllSteps (lifetime default)
      (Life.Meets (FailsElsewhere default (targetOf default ['f'] (publicPath default))))
      (Server.init (installed default)) crashedStore := by decide +kernel
  obtain ⟨s, hs⟩ := Option.isSome_iff_exists.mp hruns
  obtain ⟨c, log, hchanges, hc, hnil⟩ := List.map_eq_cons_iff.mp hlog
  rw [List.map_eq_nil_iff] at hnil
  subst hnil
  simp only [Prod.mk.injEq] at hc
  have hother : targetOf default ['f'] (publicPath default) ≠ accountFile default := by
    decide +kernel
  have hstore := (file_store_survives hother hs hfails).1 [] c [] hchanges
    (hc.1 ▸ List.prefix_refl _) fun d hd => by cases hd
  exact ⟨s, hs, hstore.trans hc.2⟩

-- ============================================================================
-- The users over lifetimes
-- ============================================================================

/-- The ids that are drawn are new, and nobody acts for the user. -/
def Apart (env : Env) (name : Str) (userData : UserData) (s : Server) (e : Event) : Prop :=
  FreshIds env s e ∧ ¬ ActsFor s e name userData

section Users

variable {s t : Server}

theorem raises_initStorage {now : UInt64} : Raises NotKeyError (initStorage env now) := by
  have hmake : ∀ path, Raises NotKeyError (mkdir env.cwd now path) := fun _ =>
    raises_update notKeyError_of_file
  exact raises_bind raises_query fun _ => raises_bind (raises_when (hmake _)) fun _ =>
    raises_bind raises_query fun _ => raises_bind (raises_when (hmake _)) fun _ =>
    raises_bind raises_query fun _ => raises_bind (raises_when (hmake _)) fun _ =>
    raises_bind raises_query fun _ => raises_when (raises_update notKeyError_of_file)

/-- A process that could not start holds nothing. -/
theorem appInv_ended {fs : FileTree} {e : Exn} (he : e ≠ .keyError) :
    AppInv { Server.init fs with stopped := some e } where
  server :=
    { tables := (serverInv_init fs).tables
      uploads := fun hrun => by cases hrun
      stopped := fun hstop => he (Option.some.inj hstop)
      failed := (serverInv_init fs).failed }
  log :=
    { posts := (appInv_init fs).log.posts
      segments := (appInv_init fs).log.segments
      responses := (appInv_init fs).log.responses }

theorem appInv_restart (s : Server) (now : UInt64) : AppInv (s.restart env now) := by
  rw [Server.restart]
  split
  · next e fs hrun => exact appInv_ended (raises_initStorage _ e fs hrun)
  · exact appInv_init _

theorem handlers_restart (s : Server) (now : UInt64) :
    (s.restart env now).handlers = Dict.empty := by
  rw [Server.restart]
  split <;> rfl

/-- The account file is as it was, or there were no accounts and there are none. -/
theorem accounts_restart (hlossless : Lossless env) (s : Server) (now : UInt64) :
    (s.restart env now).app.fs.get? (accountFile env) = s.app.fs.get? (accountFile env) ∨
      ∀ name, account env s.app.fs name = none ∧
        account env (s.restart env now).app.fs name = none := by
  have hinstalls : (installs env).rel s.app.fs (s.restart env now).app.fs := installs_restart s
  refine (hinstalls (accountFile env)).imp_right ?_
  rintro ⟨hnone, hnew⟩ name
  refine ⟨by rw [account, storedAccounts, hnone, Option.bind_none], ?_⟩
  cases hnew with
  | dir _ made =>
      obtain ⟨u, hu⟩ := FileTree.isDir_iff.mp made
      rw [account, storedAccounts, hu, Option.bind_none]
  | accounts _ written =>
      obtain ⟨u, hu⟩ := FileTree.fileAt_eq_some_iff.mp written
      have hempty : storedAccounts env (s.restart env now).app.fs = some ⟨Dict.empty⟩ := by
        rw [storedAccounts, hu]
        exact hlossless _
      exact account_of_empty hempty name

theorem AccountsOwn.of_none {fs : FileTree} (h : ∀ name, account env fs name = none) :
    AccountsOwn env fs where
  plain name _ haccount := by
    rw [h] at haccount
    cases haccount
  distinct name _ _ _ haccount := by
    rw [h] at haccount
    cases haccount

theorem isolated_restart {now : UInt64} (hlossless : Lossless env) (h : Isolated env s) :
    Isolated env (s.restart env now) ∧ AccountsStay env s.app.fs (s.restart env now).app.fs := by
  have haccounts := accounts_restart hlossless s now
  refine ⟨⟨appInv_restart s now, .of_users ?_, ?_, fun r g hg => ?_⟩, ?_⟩
  · have husers : s.app.fs.isDir (privateRoot env) = true := h.ready.users
    have hsame : (s.restart env now).app.fs.get? (privateRoot env) =
        s.app.fs.get? (privateRoot env) :=
      get?_restart (FileTree.get?_ne_none_of_isDir husers)
    show (s.restart env now).app.fs.isDir (privateRoot env) = true
    rw [FileTree.isDir, hsame]
    exact husers
  · rcases haccounts with hfile | hnone
    · exact h.accounts.of_file hfile
    · exact .of_none fun name => (hnone name).2
  · rw [handlers_restart] at hg
    cases hg
  · rcases haccounts with hfile | hnone
    · exact .of_file hfile
    · intro name userData haccount
      rw [(hnone name).1] at haccount
      cases haccount

/-- A step of a lifetime that the user has no part in. -/
theorem private_of_life {l : Life Event UInt64} {name : Str} {userData : UserData}
    (hlossless : Lossless env) (hs : Isolated env s) (hapart : l.Meets (Apart env name userData) s)
    (h : lifetime env s l = some t) (haccount : account env s.app.fs name = some userData) :
    Isolated env t ∧ account env t.app.fs name = some userData ∧
      ∀ p, userRoot env userData.id <+: p → t.app.fs.get? p = s.app.fs.get? p := by
  cases l with
  | restart now =>
      cases h
      obtain ⟨hisolated, hstay⟩ : Isolated env (s.restart env now) ∧ _ :=
        isolated_restart hlossless hs
      exact ⟨hisolated, hstay _ _ haccount, fun p hp =>
        below_restart (hs.accounts.plain _ _ haccount) hp⟩
  | event e =>
      obtain ⟨hfresh, hapart⟩ := hapart
      obtain ⟨hisolated, hturn⟩ := hs.step hlossless hfresh h
      have hstays := hturn.stay _ _ haccount
      refine ⟨hisolated, hstays, fun p hp => ?_⟩
      by_contra hchange
      exact hapart (hturn.users _ _ hstays p hp hchange)

theorem isolated_of_life {fs : FileTree} {ls : List (Life Event UInt64)} (hlossless : Lossless env)
    (hready : StorageReady env fs) (haccounts : AccountsOwn env fs)
    (hfresh : AllSteps (lifetime env) (Life.Meets (FreshIds env)) (Server.init fs) ls)
    (h : exec (lifetime env) (Server.init fs) ls = some s) : Isolated env s := by
  refine exec_invariant_of (Isolated env) (Life.Meets (FreshIds env))
    (isolated_init hready haccounts) (fun t l u ht hfresh hstep => ?_) hfresh h
  cases l with
  | restart now =>
      cases hstep
      exact (isolated_restart hlossless ht).1
  | event e => exact (ht.step hlossless hfresh hstep).1

/-- **The users survive restarts.**  After any lifetime of the process, and over any that
    follows it, with restarts and failures anywhere: as long as no step opens a request with
    the user's name and password or completes an upload of one, the user's account stays, and
    all that is in the user's directory. -/
theorem private_survives {fs : FileTree} {ls ls' : List (Life Event UInt64)}
    (hlossless : Lossless env) (hready : StorageReady env fs) (haccounts : AccountsOwn env fs)
    (hfresh : AllSteps (lifetime env) (Life.Meets (FreshIds env)) (Server.init fs) ls)
    (hs : exec (lifetime env) (Server.init fs) ls = some s)
    {name : Str} {userData : UserData} (haccount : account env s.app.fs name = some userData)
    (hapart : AllSteps (lifetime env) (Life.Meets (Apart env name userData)) s ls')
    (ht : exec (lifetime env) s ls' = some t) :
    account env t.app.fs name = some userData ∧
      ∀ p, userRoot env userData.id <+: p → t.app.fs.get? p = s.app.fs.get? p := by
  have hisolated := isolated_of_life hlossless hready haccounts hfresh hs
  refine (exec_invariant_of (fun u => Isolated env u ∧
    account env u.app.fs name = some userData ∧
      ∀ p, userRoot env userData.id <+: p → u.app.fs.get? p = s.app.fs.get? p)
    (Life.Meets (Apart env name userData)) ⟨hisolated, haccount, fun _ _ => rfl⟩
    (fun u l v ⟨hu, hname, hbelow⟩ hapart hstep => ?_) hapart ht).2
  obtain ⟨hv, hname', hbelow'⟩ := private_of_life hlossless hu hapart hstep hname
  exact ⟨hv, hname', fun p hp => (hbelow' p hp).trans (hbelow p hp)⟩

theorem private_survives_crash :
    ∃ s t, exec (lifetime accountEnv) (Server.init (installed accountEnv))
        ((annEvents ++ [annSegment]).map .event) = some s ∧
      exec (lifetime accountEnv) s crash = some t ∧
      account accountEnv t.app.fs "ann".toList = some ⟨annId, "secret".toList⟩ ∧
      t.app.fs.fileAt (userRoot accountEnv annId ++ ["f".toList]) = some [7] := by
  have hcheck : ((exec (lifetime accountEnv) (Server.init (installed accountEnv))
      ((annEvents ++ [annSegment]).map .event)).bind fun s =>
        (exec (lifetime accountEnv) s crash).map fun _ =>
          (account accountEnv s.app.fs "ann".toList,
            s.app.fs.get? (userRoot accountEnv annId ++ ["f".toList]))) =
      some (some ⟨annId, "secret".toList⟩, some (.file [7] 0)) := by decide +kernel
  obtain ⟨s, hs, hcheck⟩ := Option.bind_eq_some_iff.mp hcheck
  obtain ⟨t, ht, hfacts⟩ := Option.map_eq_some_iff.mp hcheck
  obtain ⟨haccount, hfile⟩ := Prod.mk.inj hfacts
  obtain ⟨hready, haccounts, hfresh⟩ := isolated_annEvents
  have hbroken : ∀ p, Pocket.fromBytes [1] ≠ .ok p := by
    intro p hp
    have hfails : (Pocket.fromBytes [1]).toOption = none := by decide +kernel
    rw [hp] at hfails
    cases hfails
  have hapart : AllSteps (lifetime accountEnv)
      (Life.Meets (Apart accountEnv "ann".toList ⟨annId, "secret".toList⟩)) s crash := by
    refine allSteps_cons ⟨fun id hid => (by cases hid), ?_⟩ fun _ _ =>
      allSteps_cons trivial fun _ _ => allSteps_nil
    rintro ⟨data, a, amb, p, heq, hdecode, -⟩
    cases heq
    exact hbroken p hdecode
  obtain ⟨haccount', hbelow⟩ := private_survives lossless_accountEnv hready haccounts
    hfresh.map_event hs haccount hapart ht
  exact ⟨s, t, hs, ht, haccount', by
    rw [FileTree.fileAt, hbelow _ (List.prefix_append _ _), hfile]⟩

end Users

end App
end NetworkingFinal
