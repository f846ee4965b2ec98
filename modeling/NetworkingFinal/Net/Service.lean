/-
  NetworkingFinal.Net.Service

  What the service gives its users: a download returns the files of the store.

  - `DownloadOf`: the data that the files of the store make of a Download.
  - `download_of_store`: what `download_data` returns is the answer of the log of
    uploads and deletions up to the request, whatever happens afterwards.
  - `download_of_upload`: after an upload of a file, and until something is stored or
    deleted at the path or above it, that is the body of the upload.
-/
import NetworkingFinal.App.Isolation
import NetworkingFinal.Net.Directories
import NetworkingFinal.Net.Download

namespace NetworkingFinal
namespace Net

open Py Py.Prog Py.Os Py.PosixPath Py.Archive Ftp App Client Lib

variable {env : Env}

-- ============================================================================
-- Answers of the store
-- ============================================================================

/-- What a Download of `path` sends when the store holds `files`: a flag with the content of
    a file, or with the archive of all files below a directory, named from the storage
    root. -/
inductive DownloadOf (env : Env) (files : Path → Option Bytes) (path storagePath : Str) : Bytes → Prop
  | file {content : Bytes} (there : files (targetOf env path storagePath) = some content) :
      DownloadOf env files path storagePath (1 :: content)
  | directory {members : List (Str × Bytes)} {up : Path}
      (place : targetOf env path storagePath = rootOf env storagePath ++ up)
      (noFile : files (targetOf env path storagePath) = none)
      (members_iff : ∀ name content, (name, content) ∈ members ↔ ∃ rel, rel ≠ [] ∧
        files (targetOf env path storagePath ++ rel) = some content ∧ name = joinSep (up ++ rel)) :
      DownloadOf env files path storagePath (0 :: env.zipBytes members)

section Answers

variable {files files' : Path → Option Bytes} {path storagePath : Str} {data : Bytes}

/-- Only the files of the storage matter. -/
theorem DownloadOf.congr (h : DownloadOf env files path storagePath data)
    (hlegal : rootOf env storagePath <+: targetOf env path storagePath)
    (heq : ∀ p, rootOf env storagePath <+: p → files' p = files p) :
    DownloadOf env files' path storagePath data := by
  have hbelow : ∀ rel, files' (targetOf env path storagePath ++ rel) =
      files (targetOf env path storagePath ++ rel) :=
    fun rel => heq _ (hlegal.trans (List.prefix_append _ _))
  have hself := heq _ hlegal
  cases h with
  | file there => exact .file (hself.trans there)
  | directory place noFile members_iff =>
      refine .directory place (hself.trans noFile) fun name content => ?_
      simp only [hbelow]
      exact members_iff name content

/-- The answer where a file is. -/
theorem DownloadOf.eq_of_file {content : Bytes} (h : DownloadOf env files path storagePath data)
    (hfile : files (targetOf env path storagePath) = some content) : data = 1 :: content := by
  cases h with
  | file there =>
      rw [hfile, Option.some_inj] at there
      rw [there]
  | directory _ noFile _ =>
      rw [hfile] at noFile
      cases noFile

theorem downloadOf_downloadRoute {h : RequestHandler} {routed : Routed} {s t : State}
    (hlayer : h.request.downloadRequestLayer = some ⟨path⟩)
    (hroute : downloadRoute env h s = .ok (some routed) t) :
    rootOf env h.storagePath <+: targetOf env path h.storagePath ∧
      DownloadOf env s.fs.fileAt path h.storagePath (routed.data.getD []) := by
  obtain ⟨hlegal, isFile, content, fs, hkind, hcontent, hdata⟩ := of_downloadRoute_ok hlayer hroute
  have hinside := prefix_of_inStorage env hlegal
  have hn := normal_getPath env path h.storagePath
  have hres := resolve_of_spells env.cwd s.fs hn.spells
  refine ⟨hinside, ?_⟩
  rw [hdata, Option.getD_some]
  cases isFile with
  | true =>
      obtain ⟨q, hq, hfile, -⟩ := readFile_ok_iff.mp hcontent
      rw [hres, Except.ok.injEq] at hq
      exact .file (hq ▸ hfile)
  | false =>
      rw [if_neg (by simp), archive_eq] at hcontent
      obtain ⟨members, u, hmembers, hbytes⟩ := bind_ok_iff.mp hcontent
      cases hbytes
      obtain ⟨up, hup⟩ := hinside
      have hstart : comps (abspath env.cwd (getPath env ".".toList h.storagePath)) =
          rootOf env h.storagePath := by
        rw [(normal_getPath env ".".toList h.storagePath).abspath_eq, ← targetOf_dot]
        rfl
      exact .directory hup.symm (FileTree.fileAt_eq_none_of_isDir hkind)
        (mem_packFiles_iff env.cwd_abs env.cwd_plain hres hstart hup.symm hmembers)

/-- The data of an accepted Download is the answer of the files at its turn. -/
theorem downloadOf_createHandler {amb : Ambient} {request res : Pocket} {a : Addr} {s t : State}
    {g : DownloadRequestHandler} (hsub : request.basicLayer.pocketSubType = .download)
    (hpath : request.downloadRequestLayer = some ⟨path⟩) (hroot : StorageRoot env g.storagePath)
    (h : createHandler env amb request a s = .ok (some (.download g, res)) t) :
    DownloadOf env s.fs.fileAt path g.storagePath g.data ∧
      rootOf env g.storagePath <+: targetOf env path g.storagePath := by
  obtain ⟨layer, storage, u, -, hchoose, hopen⟩ := of_createHandler_ok h
  obtain ⟨routed, v, segmentsAmount, hroute, hg⟩ := of_openRequest_ok hopen
  rw [openedHandler, if_neg (by simp [hsub])] at hg
  cases hg
  simp only [route, hsub] at hroute
  obtain ⟨hlegal, hanswers⟩ := downloadOf_downloadRoute hpath hroute
  refine ⟨hanswers.congr hlegal fun p hp => ?_, hlegal⟩
  -- a registration only writes the account file
  have hother : p ≠ accountFile env := by
    rintro rfl
    exact not_prefix_accountFile hroot hp
  exact (accountsOnly_chooseStorage.of_ok hchoose p hother).symm

end Answers

-- ============================================================================
-- Runs
-- ============================================================================

section Runs

variable {fs : FileTree} {es₀ : List Event} {data : Bytes} {a : Addr} {amb : Ambient}
  {request res : Pocket} {r : Nat} {s : Server} {g : DownloadRequestHandler} {path : Str}

/-- The turn that accepted a Download, after any run of the process. -/
structure Opens (env : Env) (fs : FileTree) (es₀ : List Event) (data : Bytes) (a : Addr)
    (amb : Ambient) (request : Pocket) (r : Nat) (res : Pocket) (s : Server)
    (g : DownloadRequestHandler) : Prop where
  turn : exec (App.step env) (Server.init fs) (es₀ ++ [.recv data a amb]) = some s
  decoded : Pocket.fromBytes data = .ok request
  download : request.basicLayer.pocketSubType = .download
  answered : s.app.log.getLast? = some (.sent res a)
  fresh : ∀ t, exec (App.step env) (Server.init fs) es₀ = some t → t.handlers.get? r = none
  taken : s.handlers.get? r = some (.download g)

theorem Opens.accepts (h : Opens env fs es₀ data a amb request r res s g) :
    ∃ s₀, Accepts env fs request r res s₀ s := by
  obtain ⟨s₀, h₀, hstep⟩ := exec_concat_iff.mp h.turn
  exact ⟨s₀, ⟨es₀, h₀⟩, ⟨data, a, amb, hstep, h.decoded, h.answered⟩, h.fresh s₀ h₀, by
    rw [h.taken]
    exact Option.some_ne_none _⟩

/-- The data of the download is the answer of the store at its turn. -/
theorem downloadOf_opens (hlossless : Lossless env) (hready : StorageReady env fs)
    (haccounts : AccountsOwn env fs)
    (hids : AllSteps (App.step env) (FreshIds env) (Server.init fs) (es₀ ++ [.recv data a amb]))
    (h : Opens env fs es₀ data a amb request r res s g)
    (hpath : request.downloadRequestLayer = some ⟨path⟩) :
    DownloadOf env (fun p => putAll p (fs.fileAt p)
      (observed (App.step env) (changesOf env) (Server.init fs) es₀)) path g.storagePath g.data := by
  obtain ⟨s₀, h₀, hstep⟩ := exec_concat_iff.mp h.turn
  have hisolated := isolated_of_exec hlossless hready haccounts hids h.turn
  have hroot : StorageRoot env g.storagePath := (hisolated.owns r _ h.taken).root
  obtain ⟨hrunning, -⟩ := step_recv hstep
  have happ := (isolated_of_exec hlossless hready haccounts hids.of_concat h₀).app
  cases origin_of_step happ hstep h.taken with
  | kept found _ _ =>
      rw [h.fresh s₀ h₀] at found
      cases found
  | @opened _ _ _ p _ pre _ event decoded run _ =>
      cases event
      rw [h.decoded, Except.ok.injEq] at decoded
      subst decoded
      obtain ⟨hanswers, hlegal⟩ := downloadOf_createHandler h.download hpath hroot run
      refine hanswers.congr hlegal fun q hq => ?_
      have hother : q ≠ accountFile env := by
        rintro rfl
        exact not_prefix_accountFile hroot hq
      exact (files_of_exec h₀ hrunning hother).symm

/-- The client runs `download_data` on the Response of the Download, over a network that
    loses, duplicates, reorders and delays, and returns. -/
inductive Returns (env : Env) (request res : Pocket) (r : Nat) (s : Server)
    (g : DownloadRequestHandler) (w : Pair Download) : Prop
  | intro {layer : RequestLayer} {resPocket : Pocket} {d : Download} {es : List PairEvent}
      (requestLayer : request.requestLayer = some layer)
      (size : 1024 ≤ segmentSize env layer.maxSingleSegmentSize ∨
        g.data.length ≤ 2 ^ 54 * segmentSize env layer.maxSingleSegmentSize)
      (arrives : Arrives res resPocket) (start : Download.start resPocket = .ok d)
      (network : AllSteps (Pair.step env Download.step) (Exchanged r) ⟨s, d⟩ es)
      (run : exec (Pair.step env Download.step) ⟨s, d⟩ es = some w)
      (returned : w.client.phase = .returned)

theorem Returns.returned {w : Pair Download} (h : Returns env request res r s g w) :
    w.client.phase = .returned := by
  obtain ⟨-, -, -, -, -, -, hreturned⟩ := h
  exact hreturned

/-- A client that returns from `download_data` has the data of the handler. -/
theorem Opens.result_eq {w : Pair Download} (h : Opens env fs es₀ data a amb request r res s g)
    (hreturns : Returns env request res r s g w) : w.client.result = g.data := by
  obtain ⟨hlayer, hsize, harrives, hstart, hex, hrun, hreturned⟩ := hreturns
  obtain ⟨s₀, haccepts⟩ := h.accepts
  obtain ⟨hinit, hfits⟩ := downloadInv_start haccepts hlayer h.taken harrives hstart
  have hinv := exec_invariant_of (DownloadInv r _ _ g.data) (Exchanged r) hinit
    (fun _ _ _ hw hC ht => hw.step hC ht) hex hrun
  have hlen : g.data.length < 2 ^ 64 := hfits
  refine hinv.client.result_eq (hinv.client.finishing (hreturned ▸ trivial)) ?_
  apply le_segmentsAmountOf_mul (segmentSize_pos env _)
  omega

/-- **Downloads return what is stored.**  A Download that is accepted after any run of the
    process gives the client that fetches it the answer of the store at the turn of the
    request: the content of the file, or the archive of the files below the directory, as
    the log of uploads and deletions up to then left them. -/
theorem download_of_store {w : Pair Download} (hlossless : Lossless env)
    (hready : StorageReady env fs) (haccounts : AccountsOwn env fs)
    (hids : AllSteps (App.step env) (FreshIds env) (Server.init fs) (es₀ ++ [.recv data a amb]))
    (h : Opens env fs es₀ data a amb request r res s g)
    (hpath : request.downloadRequestLayer = some ⟨path⟩)
    (hreturns : Returns env request res r s g w) :
    DownloadOf env (fun p => putAll p (fs.fileAt p)
      (observed (App.step env) (changesOf env) (Server.init fs) es₀)) path g.storagePath
      w.client.result := by
  rw [h.result_eq hreturns]
  exact downloadOf_opens hlossless hready haccounts hids h hpath

/-- A Download of the file that `strangerRun` uploads. -/
def fetchRequest : Pocket := { downloadRequest with downloadRequestLayer := some ⟨['f']⟩ }

def fetchEvent : Event := .recv fetchRequest.datagram (['c'], 8001) default

def fetchResponse : Pocket :=
  { basicLayer := ⟨2, .response, .download⟩, responseLayer := some ⟨true, [], 2, 1, 1500⟩ }

def fetchClient : Download :=
  { requestID := 2, segmentsAmount := 1, neededSegments := [0], segments := [[]] }

/-- The only segment is sent and arrives, and the client reports completion. -/
def fetchExchange : List PairEvent :=
  [.client (.proceed 0),
   .server (.recv (readyPocket 2).datagram (['c'], 8001) default),
   .server (.task 0 ⟨0, 0, 0⟩), .server (.task 0 ⟨0, 0, 0⟩),
   .client (.receive (.datagram (segmentPocket 2 0 [1, 7]).datagram) ⟨0, 0, 0⟩),
   .client (.proceed 0),
   .server (.recv (complitedPocket 2).datagram (['c'], 8001) default),
   .client (.receive (.datagram closePocket.datagram) ⟨0, 0, 0⟩)]

theorem freshIds_strangerRun :
    AllSteps (App.step accountEnv) (FreshIds accountEnv) (Server.init (installed accountEnv))
      (strangerRun ++ [fetchEvent]) := by
  have hnone : ∀ fs, NewIds accountEnv fs default := fun _ _ hid => by cases hid
  exact allSteps_cons (hnone _) fun _ _ => allSteps_cons (hnone _) fun _ _ =>
    allSteps_cons (hnone _) fun _ _ => allSteps_nil

theorem returns_fetchExchange : ∃ s g w,
    Opens accountEnv (installed accountEnv) strangerRun fetchRequest.datagram (['c'], 8001) default
      fetchRequest 2 fetchResponse s g ∧
    Returns accountEnv fetchRequest fetchResponse 2 s g w ∧
      g.storagePath = publicPath accountEnv := by
  have hcheck : (exec (App.step accountEnv) (Server.init (installed accountEnv))
      (strangerRun ++ [fetchEvent])).map (fun s =>
        (s.app.log.getLast?, (s.handlers.get? 2).map fun h => (h.isDownload, h.base.storagePath),
          (exec (Pair.step accountEnv Download.step) ⟨s, fetchClient⟩
            fetchExchange).map (fun w => w.client.phase),
          decide (AllSteps (Pair.step accountEnv Download.step) (Exchanged 2) ⟨s, fetchClient⟩
            fetchExchange))) =
      some (some (.sent fetchResponse (['c'], 8001)), some (true, publicPath accountEnv),
        some .returned, true) := by
    decide +kernel
  have hbefore : (exec (App.step accountEnv) (Server.init (installed accountEnv)) strangerRun).map
      (fun s => (s.handlers.get? 2).isNone) = some true := by decide +kernel
  obtain ⟨s, hs, hfacts⟩ := Option.map_eq_some_iff.mp hcheck
  simp only [Prod.mk.injEq, decide_eq_true_eq] at hfacts
  obtain ⟨hlast, hhandler, hphase, hex⟩ := hfacts
  obtain ⟨w, hw, hret⟩ := Option.map_eq_some_iff.mp hphase
  obtain ⟨h, hh, hkind⟩ := Option.map_eq_some_iff.mp hhandler
  simp only [Prod.mk.injEq] at hkind
  cases h with
  | upload h => cases hkind.1
  | download g =>
      refine ⟨s, g, w, ⟨hs, by rfl, rfl, hlast, fun t ht => ?_, hh⟩, ?_, hkind.2⟩
      · rw [ht, Option.map_some, Option.some_inj, Option.isNone_iff_eq_none] at hbefore
        exact hbefore
      · exact .intro rfl (Or.inl (by decide))
          (show Arrives fetchResponse fetchResponse from ⟨_, rfl, by rfl⟩)
          (show Download.start fetchResponse = .ok fetchClient by rfl) hex hw hret

theorem download_of_store_fetchExchange : ∃ w : Pair Download,
    DownloadOf accountEnv (fun p => putAll p ((installed accountEnv).fileAt p)
      (observed (App.step accountEnv) (changesOf accountEnv) (Server.init (installed accountEnv))
        strangerRun)) ['f'] (publicPath accountEnv) w.client.result := by
  obtain ⟨s, g, w, hopens, hreturns, hroot⟩ := returns_fetchExchange
  obtain ⟨hready, haccounts, -⟩ := isolated_annEvents
  have hanswers := download_of_store lossless_accountEnv hready haccounts freshIds_strangerRun hopens
    rfl hreturns
  exact ⟨w, hroot ▸ hanswers⟩

/-- The change of a turn that completes the upload of a file. -/
theorem changesOf_completed {s₁ : Server} {p : Pocket} {u : UploadRequestHandler} {path' : Str}
    (hdecode : Pocket.fromBytes data = .ok p) (hcompleted : completedBy s₁.handlers p = some u)
    (hpath' : u.request.uploadRequestLayer = some ⟨path'⟩) :
    changesOf env s₁ (.recv data a amb) =
      [⟨targetOf env path' u.storagePath,
        uploadedFiles env (targetOf env path' u.storagePath) (assembled u.segments)⟩] := by
  obtain ⟨_, _, -, -, htype, -, -⟩ := completedBy_eq_some_iff.mp hcompleted
  have hother : ¬ p.basicLayer.pocketType = .request := by
    rw [htype]
    exact PocketType.noConfusion
  simp only [changesOf, hdecode, if_neg hother, hcompleted, uploadChange, hpath']

/-- **A download returns the last upload.**  After the turn that completes the upload of a
    file, and as long as nothing is stored or deleted at its path or above it, a download
    of the path gives the client the body of the upload. -/
theorem download_of_upload {w : Pair Download} {es₁ es₂ : List Event} {data' : Bytes} {a' : Addr}
    {amb' : Ambient} {s₁ s₂ : Server} {p : Pocket} {u : UploadRequestHandler} {path' : Str}
    {content : Bytes} (hlossless : Lossless env)
    (hready : StorageReady env fs) (haccounts : AccountsOwn env fs)
    (hids : AllSteps (App.step env) (FreshIds env) (Server.init fs) (es₀ ++ [.recv data a amb]))
    (h : Opens env fs es₀ data a amb request r res s g)
    (hpath : request.downloadRequestLayer = some ⟨path⟩)
    (hbefore : es₀ = es₁ ++ .recv data' a' amb' :: es₂)
    (h₁ : exec (App.step env) (Server.init fs) es₁ = some s₁)
    (hdecode : Pocket.fromBytes data' = .ok p) (hcompleted : completedBy s₁.handlers p = some u)
    (hbody : assembled u.segments = 1 :: content)
    (hpath' : u.request.uploadRequestLayer = some ⟨path'⟩)
    (hsame : targetOf env path' u.storagePath = targetOf env path g.storagePath)
    (h₂ : App.step env s₁ (.recv data' a' amb') = some s₂)
    (huntouched : ∀ c ∈ observed (App.step env) (changesOf env) s₂ es₂,
      ¬ c.place <+: targetOf env path g.storagePath)
    (hreturns : Returns env request res r s g w) : w.client.result = assembled u.segments := by
  rw [h.result_eq hreturns, hbody]
  refine (downloadOf_opens hlossless hready haccounts hids h hpath).eq_of_file ?_
  have hlog : observed (App.step env) (changesOf env) (Server.init fs) es₀ =
      observed (App.step env) (changesOf env) (Server.init fs) es₁ ++
        ⟨targetOf env path' u.storagePath,
          uploadedFiles env (targetOf env path' u.storagePath) (assembled u.segments)⟩ ::
        observed (App.step env) (changesOf env) s₂ es₂ := by
    rw [hbefore, observed_append h₁, observed, h₂, changesOf_completed hdecode hcompleted hpath',
      List.singleton_append]
  rw [hlog, putAll_eq_last (hsame ▸ List.prefix_refl _) huntouched]
  simp only [uploadedFiles, hbody, hsame, if_pos]
  rw [if_neg (by decide)]

/-- What the upload of `strangerRun` has when its segment arrives. -/
theorem completedBy_strangerRun : ∃ s₁ s₂ u,
    exec (App.step accountEnv) (Server.init (installed accountEnv))
      [.recv uploadRequest.datagram (['c'], 8001) default] = some s₁ ∧
    App.step accountEnv s₁ (.recv (segmentPocket 1 0 [1, 7]).datagram (['d'], 8002) default) =
      some s₂ ∧
    completedBy s₁.handlers (segmentPocket 1 0 [1, 7]) = some u ∧ assembled u.segments = [1, 7] ∧
    u.request.uploadRequestLayer = some ⟨['f']⟩ ∧ u.storagePath = publicPath accountEnv := by
  have hcheck : (exec (App.step accountEnv) (Server.init (installed accountEnv))
      [.recv uploadRequest.datagram (['c'], 8001) default]).bind (fun s₁ =>
        (App.step accountEnv s₁
          (.recv (segmentPocket 1 0 [1, 7]).datagram (['d'], 8002) default)).bind fun _ =>
            (completedBy s₁.handlers (segmentPocket 1 0 [1, 7])).map fun u =>
              (assembled u.segments, u.request.uploadRequestLayer, u.storagePath)) =
      some ([1, 7], some ⟨['f']⟩, publicPath accountEnv) := by decide +kernel
  obtain ⟨s₁, h₁, hcheck⟩ := Option.bind_eq_some_iff.mp hcheck
  obtain ⟨s₂, h₂, hcheck⟩ := Option.bind_eq_some_iff.mp hcheck
  obtain ⟨u, hu, hfacts⟩ := Option.map_eq_some_iff.mp hcheck
  simp only [Prod.mk.injEq] at hfacts
  exact ⟨s₁, s₂, u, h₁, h₂, hu, hfacts⟩

theorem download_of_upload_fetchExchange :
    ∃ w : Pair Download, w.client.phase = .returned ∧ w.client.result = [1, 7] := by
  obtain ⟨s, g, w, hopens, hreturns, hroot⟩ := returns_fetchExchange
  obtain ⟨hready, haccounts, -⟩ := isolated_annEvents
  obtain ⟨s₁, s₂, u, h₁, h₂, hcompleted, hbody, hpath, hstorage⟩ := completedBy_strangerRun
  have hresult := download_of_upload lossless_accountEnv hready haccounts freshIds_strangerRun hopens
    rfl rfl h₁ (by rfl) hcompleted hbody hpath (by rw [hstorage, hroot]) h₂
    (fun c hc => by cases hc) hreturns
  exact ⟨w, hreturns.returned, hresult.trans hbody⟩

end Runs

end Net
end NetworkingFinal
