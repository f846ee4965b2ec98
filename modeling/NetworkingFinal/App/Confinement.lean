/-
  NetworkingFinal.App.Confinement

  A request stays in its storage root: what it changes lies at or below the root,
  and what it answers depends on nothing else.

  - `StorageRoot`: the roots `createHandler` chooses; each lies in a directory of
    an installed storage.
  - `keeps_*`: nothing outside the root changes.
  - `coupled_*`: from two filesystems that agree below the root, a request ends
    the same way.
  - `storage_confinement`: both, for every request and path.
-/
import NetworkingFinal.App.Controller

namespace NetworkingFinal
namespace App

open Py Py.Prog Py.Os Py.PosixPath Py.Struct Ftp

variable {env : Env}

-- ============================================================================
-- Storage roots
-- ============================================================================

/-- A storage root that `create_handler` chooses: the public one, or that of a user,
    whose id is the name of a directory. -/
def StorageRoot (env : Env) (storagePath : Str) : Prop :=
  storagePath = publicPath env ∨ ∃ id, Plain id ∧ storagePath = userDirectory env id ++ ['/']

theorem STORAGE_PUBLIC_eq : STORAGE_PUBLIC = '/' :: "public".toList := by decide

theorem STORAGE_PRIVATE_eq : STORAGE_PRIVATE = '/' :: "private".toList := by decide

theorem rootOf_child {p c : Str} (hne : p ≠ []) (hc : Plain c) :
    rootOf env (p ++ '/' :: c) = rootOf env p ++ [c] :=
  comps_abspath_child env.cwd_abs env.cwd_plain hne hc

theorem rootOf_slash {p : Str} (hne : p ≠ []) : rootOf env (p ++ ['/']) = rootOf env p :=
  comps_abspath_slash env.cwd_abs env.cwd_plain hne

theorem rootOf_publicPath :
    rootOf env (publicPath env) =
      rootOf env env.config.APP_STORAGE_PATH ++ ["public".toList] := by
  rw [publicPath, STORAGE_PUBLIC_eq, rootOf_slash (by simp),
    rootOf_child env.config.path_ne (by decide)]

theorem rootOf_private :
    rootOf env (env.config.APP_STORAGE_PATH ++ STORAGE_PRIVATE) =
      rootOf env env.config.APP_STORAGE_PATH ++ ["private".toList] := by
  rw [STORAGE_PRIVATE_eq, rootOf_child env.config.path_ne (by decide)]

theorem rootOf_userDirectory {id : Str} (hid : Plain id) :
    rootOf env (userDirectory env id ++ ['/']) =
      rootOf env (env.config.APP_STORAGE_PATH ++ STORAGE_PRIVATE) ++ [id] := by
  have hne : env.config.APP_STORAGE_PATH ++ STORAGE_PRIVATE ≠ [] := by
    simp [env.config.path_ne]
  rw [rootOf_slash (by simp [userDirectory]), userDirectory, List.append_assoc _ ['/'] id,
    List.singleton_append, rootOf_child hne hid]

/-- In an installed storage, a storage root lies in a directory. -/
theorem StorageRoot.parent {storagePath : Str} {fs : FileTree}
    (h : StorageRoot env storagePath) (hready : StorageReady env fs) :
    fs.isDir (rootOf env storagePath).dropLast = true := by
  rcases h with rfl | ⟨id, hid, rfl⟩
  · rw [rootOf_publicPath, List.dropLast_concat]
    exact hready.storage
  · rw [rootOf_userDirectory hid, List.dropLast_concat]
    exact hready.users

-- ============================================================================
-- The file work of a request
-- ============================================================================

section FileWork

variable {E : FileTree → FileTree → Prop} {now : UInt64} {targetPath : Str} {q r : Path}
  {data : Bytes} {h : RequestHandler} [hE : Couples r E]

/-- Storing an upload keeps what the calls it makes keep. -/
theorem keeps_storeUpload_of {F : Frame FileTree} (hremove : Keeps F (remove env.cwd targetPath))
    (hrmtree : Keeps F (rmtree env.cwd targetPath))
    (hupper : Keeps F (query env.cwd FileTree.isDir (dirname targetPath) >>= fun b =>
      when (!b) (makedirs env.cwd now (dirname targetPath))))
    (hwrite : ∀ data, Keeps F (writeFile env.cwd now targetPath data))
    (hextract : ∀ members, Keeps F (ZipFile.extractall env.cwd now targetPath members)) :
    Keeps F (storeUpload env now targetPath data) := by
  refine keeps_bind keeps_isfile fun _ => keeps_bind (keeps_when fun _ => hremove) fun _ => ?_
  refine keeps_bind keeps_isdir fun _ => keeps_bind (keeps_when fun _ => hrmtree) fun _ => ?_
  refine keeps_bind (keeps_when fun _ => hupper) fun _ => keeps_bind (keeps_reads _) fun flag => ?_
  apply keeps_ite
  · exact fun _ => hwrite _
  · intro _
    split
    · exact keeps_throw _
    · exact hextract _

theorem keeps_storeUpload (hp : Normal targetPath q) (hr : r <+: q) :
    Keeps (confined r) (storeUpload env now targetPath data) := by
  apply keeps_storeUpload_of
  · exact keeps_remove hp.spells hr
  · exact keeps_rmtree hp.spells hr
  · exact keeps_makedirs_unless hp.normal_dirname.spells (prefix_dropLast_or hr) fun _ hdir => hdir
  · exact fun _ => keeps_writeFile hp.spells hr
  · exact fun members => ZipFile.keeps_extractall hp.spells hr members

theorem coupled_storeUpload (hp : Normal targetPath q) (hr : r <+: q) :
    Coupled E (storeUpload env now targetPath data)
      (storeUpload env now targetPath data) := by
  have hupper : Coupled E
      (query env.cwd FileTree.isDir (dirname targetPath) >>= fun b =>
        when (!b) (makedirs env.cwd now (dirname targetPath)))
      (query env.cwd FileTree.isDir (dirname targetPath) >>= fun b =>
        when (!b) (makedirs env.cwd now (dirname targetPath))) :=
    coupled_makedirs_unless hp.normal_dirname.spells (prefix_dropLast_or hr) (fun _ hdir => hdir)
      fun hbelow _ _ hst => FileTree.isDir_congr (hE.agree hst).below hbelow
  refine coupled_bind (coupled_isfile hp.spells hr) fun _ => ?_
  refine coupled_bind (coupled_when fun _ => coupled_remove hp.spells hr) fun _ => ?_
  refine coupled_bind (coupled_isdir hp.spells hr) fun _ => ?_
  refine coupled_bind (coupled_when fun _ => coupled_rmtree hp.spells hr) fun _ => ?_
  refine coupled_bind (coupled_when fun _ => hupper) fun _ => ?_
  refine coupled_bind (coupled_reads fun _ _ _ => rfl) fun flag => ?_
  apply coupled_ite
  · intro _
    exact coupled_writeFile hp.spells hr
  · intro _
    split
    · exact coupled_throw _
    · exact ZipFile.coupled_extractall hp.spells hr _

/-- `probe` changes nothing and answers for every path. -/
theorem probe_total (env : Env) (targetPath : Str) (fs : FileTree) :
    ∃ o, probe env targetPath fs = .ok o fs := by
  obtain ⟨file, hfile⟩ := query_total env.cwd targetPath FileTree.isFile fs
  obtain ⟨directory, hdirectory⟩ := query_total env.cwd targetPath FileTree.isDir fs
  unfold probe isfile isdir
  rw [bind_of_ok hfile]
  cases file with
  | true => exact ⟨_, rfl⟩
  | false =>
      simp only [Bool.false_eq_true, if_false]
      rw [bind_of_ok hdirectory]
      exact ⟨_, rfl⟩

theorem keeps_probe {F : Frame FileTree} : Keeps F (probe env targetPath) := by
  intro fs
  obtain ⟨o, ho⟩ := probe_total env targetPath fs
  rw [ho]
  exact F.refl fs

theorem coupled_probe (hp : Spells targetPath q) (hr : r <+: q) :
    Coupled E (probe env targetPath) (probe env targetPath) := by
  refine coupled_bind (coupled_isfile hp hr) fun file => ?_
  apply coupled_ite
  · exact fun _ => coupled_pure _
  · exact fun _ => coupled_bind (coupled_isdir hp hr) fun _ => coupled_pure _

theorem keeps_archive {F : Frame FileTree} : Keeps F (archive env h targetPath) := by
  refine keeps_bind (keeps_reads _) fun fuel => ?_
  refine keeps_bind keeps_walkFiles fun directories => ?_
  refine keeps_bind (keeps_collect fun file _ => ?_) fun members => keeps_pure _
  exact keeps_bind keeps_readFile fun _ => keeps_pure _

theorem coupled_archive (hp : Spells targetPath q) (hr : r <+: q) :
    Coupled E (archive env h targetPath) (archive env h targetPath) := by
  refine coupled_bind (coupled_depthBound hp hr) fun fuel => ?_
  refine coupled_bind_of
    (fun dirs => ∀ d ∈ dirs, ∃ q', q <+: q' ∧ Spells d.1 q' ∧ ∀ name ∈ d.2, Plain name)
    (coupled_walkFiles hp hr) (fun _ _ _ hdirs => spells_of_walkFiles hp hdirs) fun dirs hdirs => ?_
  refine coupled_bind (coupled_collect fun file hfile => ?_) fun members => coupled_pure _
  obtain ⟨⟨root, names⟩, hd, hfile⟩ := List.mem_flatMap.mp hfile
  obtain ⟨name, hname, rfl⟩ := List.mem_map.mp hfile
  obtain ⟨q', hq', hspells, hplain⟩ := hdirs _ hd
  have hbelow : r <+: q' ++ [name] := (hr.trans hq').trans (List.prefix_append _ _)
  exact coupled_bind (coupled_readFile (hspells.spells_join_plain (hplain name hname)) hbelow)
    fun _ => coupled_pure _

theorem keeps_loadDirectory {F : Frame FileTree} {fuel : Nat} {directoryPath parent : Str}
    {recursive : Bool} : Keeps F (loadDirectory env fuel directoryPath parent recursive) := by
  induction fuel generalizing directoryPath parent with
  | zero => exact keeps_throw _
  | succ fuel ih =>
      refine keeps_bind keeps_listdir fun names => ?_
      refine keeps_bind (keeps_select fun _ _ => keeps_isdir) fun directories => ?_
      refine keeps_bind (keeps_select fun _ _ => keeps_isfile) fun files => ?_
      refine keeps_bind (keeps_collect fun name _ => ?_) fun directoryBlocks => ?_
      · refine keeps_bind keeps_getmtime fun _ => keeps_bind (keeps_reads _) fun block => ?_
        exact keeps_ite (fun _ => keeps_bind ih fun _ => keeps_pure _) fun _ => keeps_pure _
      · refine keeps_bind (keeps_collect fun name _ => ?_) fun fileBlocks => keeps_pure _
        exact keeps_bind keeps_getmtime fun _ => keeps_bind keeps_fileSize fun _ => keeps_reads _

theorem mem_sortNames {name : Str} {names : List Str} : name ∈ sortNames names ↔ name ∈ names :=
  (List.perm_insertionSort _ names).mem_iff

theorem coupled_loadDirectory {fuel : Nat} {directoryPath parent : Str} {recursive : Bool}
    (hp : Spells directoryPath q) (hr : r <+: q) :
    Coupled E (loadDirectory env fuel directoryPath parent recursive)
      (loadDirectory env fuel directoryPath parent recursive) := by
  induction fuel generalizing directoryPath parent q with
  | zero => exact coupled_throw _
  | succ fuel ih =>
      refine coupled_bind_of (fun names => ∀ name ∈ names, Plain name) (coupled_listdir hp hr)
        (fun _ _ _ hnames => plain_of_listdir hnames) fun names hplain => ?_
      have hbelow : ∀ name : Str, r <+: q ++ [name] := fun name =>
        hr.trans (List.prefix_append _ _)
      have hchild : ∀ name ∈ names, Spells (directoryPath ++ ['/'] ++ name) (q ++ [name]) :=
        fun name hname => hp.child (hplain name hname)
      refine coupled_bind_of (fun directories => ∀ name ∈ directories, name ∈ names)
        (coupled_select fun name hname => coupled_isdir (hchild name hname) (hbelow name))
        (fun _ _ _ hdirs => mem_of_mem_select hdirs) fun directories hdirectories => ?_
      refine coupled_bind_of (fun files => ∀ name ∈ files, name ∈ names)
        (coupled_select fun name hname => coupled_isfile (hchild name hname) (hbelow name))
        (fun _ _ _ hfs => mem_of_mem_select hfs) fun files hfiles => ?_
      refine coupled_bind (coupled_collect fun name hname => ?_) fun directoryBlocks => ?_
      · have hspells := hchild name (hdirectories name (mem_sortNames.mp hname))
        refine coupled_bind (coupled_getmtime hspells (hbelow name)) fun _ => ?_
        refine coupled_bind (coupled_reads fun _ _ _ => rfl) fun block => ?_
        apply coupled_ite
        · intro _
          exact coupled_bind (ih hspells (hbelow name)) fun _ => coupled_pure _
        · exact fun _ => coupled_pure _
      · refine coupled_bind (coupled_collect fun name hname => ?_) fun fileBlocks => coupled_pure _
        have hspells := hchild name (hfiles name (mem_sortNames.mp hname))
        refine coupled_bind (coupled_getmtime hspells (hbelow name)) fun _ => ?_
        exact coupled_bind (coupled_fileSize hspells (hbelow name)) fun _ =>
          coupled_reads fun _ _ _ => rfl

theorem keeps_removeEntry {path : Str} (hp : Spells path q) (hr : r <+: q) :
    Keeps (confined r) (removeEntry env path) := by
  refine keeps_bind keeps_isfile fun _ => ?_
  apply keeps_ite
  · exact fun _ => keeps_remove hp hr
  · exact fun _ => keeps_bind keeps_isdir fun _ => keeps_when fun _ => keeps_rmtree hp hr

theorem coupled_removeEntry {path : Str} (hp : Spells path q) (hr : r <+: q) :
    Coupled E (removeEntry env path) (removeEntry env path) := by
  refine coupled_bind (coupled_isfile hp hr) fun _ => ?_
  apply coupled_ite
  · exact fun _ => coupled_remove hp hr
  · exact fun _ => coupled_bind (coupled_isdir hp hr) fun _ =>
      coupled_when fun _ => coupled_rmtree hp hr

theorem keeps_deleteDirectory (hp : Spells targetPath q) (hr : r <+: q) :
    Keeps (confined r) (deleteDirectory env h targetPath) := by
  apply keeps_ite
  · intro _
    refine keeps_bind_of (fun names => ∀ name ∈ names, Plain name) keeps_listdir
      (fun _ _ _ hnames => plain_of_listdir hnames) fun names hplain => ?_
    exact keeps_each fun name hname =>
      keeps_removeEntry (hp.child (hplain name hname)) (hr.trans (List.prefix_append _ _))
  · exact fun _ => keeps_rmtree hp hr

theorem coupled_deleteDirectory (hp : Spells targetPath q) (hr : r <+: q) :
    Coupled E (deleteDirectory env h targetPath) (deleteDirectory env h targetPath) := by
  apply coupled_ite
  · intro _
    refine coupled_bind_of (fun names => ∀ name ∈ names, Plain name) (coupled_listdir hp hr)
      (fun _ _ _ hnames => plain_of_listdir hnames) fun names hplain => ?_
    exact coupled_each fun name hname =>
      coupled_removeEntry (hp.child (hplain name hname)) (hr.trans (List.prefix_append _ _))
  · exact fun _ => coupled_rmtree hp hr

end FileWork

-- ============================================================================
-- Routes
-- ============================================================================

/-- When `r` lies in a directory, no file outside `r` changes. -/
def confinedIn (r : Path) : Frame State where
  rel s t := (confined r).rel s.fs t.fs
  refl s := (confined r).refl s.fs
  trans h h' := (confined r).trans h h'

/-- The filesystems are in the relation, and the processes have drawn the same request ids
    and done the same. -/
structure AgreeIn (E : FileTree → FileTree → Prop) (s t : State) : Prop where
  fs : E s.fs t.fs
  lastRequestID : s.lastRequestID = t.lastRequestID
  log : s.log = t.log

section Routes

variable {α : Type} {r : Path} {h : RequestHandler} {E : FileTree → FileTree → Prop}

theorem keeps_onFiles {x : Prog FileTree α} (hx : Keeps (confined r) x) :
    Keeps (confinedIn r) (onFiles x) :=
  keeps_zoom hx fun _ _ hrel => hrel

theorem coupled_onFiles {x : Prog FileTree α} (hx : Coupled E x x) :
    Coupled (AgreeIn E) (onFiles x) (onFiles x) :=
  coupled_zoom hx (fun _ _ hst => hst.fs) fun _ _ _ _ hst hfs => ⟨hfs, hst.lastRequestID, hst.log⟩

theorem keeps_record (a : Action) : Keeps (confinedIn r) (record a) :=
  keeps_modify fun s => (confined r).refl s.fs

theorem coupled_record (a : Action) : Coupled (AgreeIn E) (record a) (record a) :=
  coupled_modify fun _ _ hst =>
    ⟨hst.fs, hst.lastRequestID, congrArg (fun log => log ++ [a]) hst.log⟩

theorem keeps_sendto {p : Pocket} {a : Addr} : Keeps (confinedIn r) (sendto p a) :=
  keeps_bind (keeps_reads _) fun _ => keeps_record _

theorem coupled_sendto {p : Pocket} {a : Addr} :
    Coupled (AgreeIn E) (sendto p a) (sendto p a) :=
  coupled_bind (coupled_reads fun _ _ _ => rfl) fun _ => coupled_record _

theorem keeps_refuse {errorMessage : Str} :
    Keeps (confinedIn r) (refuse (α := α) h errorMessage) :=
  keeps_bind keeps_sendto fun _ => keeps_pure _

theorem coupled_refuse {errorMessage : Str} :
    Coupled (AgreeIn E) (refuse (α := α) h errorMessage) (refuse h errorMessage) :=
  coupled_bind coupled_sendto fun _ => coupled_pure _

theorem keeps_createNewRequestID : Keeps (confinedIn r) createNewRequestID :=
  fun s => (confined r).refl s.fs

theorem coupled_createNewRequestID :
    Coupled (AgreeIn E) createNewRequestID createNewRequestID := by
  intro s t hst
  have hid : s.lastRequestID + 1 = t.lastRequestID + 1 := congrArg (· + 1) hst.lastRequestID
  exact ⟨hid, hst.fs, hid, hst.log⟩

theorem onFiles_of_ok {x : Prog FileTree α} {s : State} {a : α} (hx : x s.fs = .ok a s.fs) :
    onFiles x s = .ok a s := by
  rw [onFiles, zoom_ok_iff]
  exact ⟨s.fs, hx, rfl⟩

/-- A refusal that is the same whether the probed path exists or not. -/
theorem probe_outside {targetPath : Str} {legal : Except Exn Bool} (hout : legal = .ok false)
    (refusal : Prog State α) (k : Bool → Prog State α) :
    (onFiles (probe env targetPath) >>= fun o =>
      match o with
      | none => refusal
      | some isFile => lift legal >>= fun b => if b = false then refusal else k isFile) =
      refusal := by
  funext s
  obtain ⟨o, ho⟩ := probe_total env targetPath s.fs
  rw [bind_of_ok (onFiles_of_ok ho)]
  cases o with
  | none => rfl
  | some isFile =>
      simp only [lift_ok_bind hout]
      rfl

/-- A path that is not in the storage, or one that leads to the root or below it. -/
theorem inStorage_cases (env : Env) (path storagePath : Str) :
    inStorage env path storagePath = .ok false ∨
      ∃ q, Spells (getPath env path storagePath) q ∧ rootOf env storagePath <+: q := by
  obtain ⟨legal, hlegal⟩ := inStorage_total env path storagePath
  cases legal with
  | false => exact Or.inl hlegal
  | true =>
      exact Or.inr ⟨_, (normal_getPath env path storagePath).spells,
        prefix_of_inStorage env hlegal⟩

/-- A Download of a path outside the root. -/
theorem downloadRoute_outside {layer : DownloadRequestLayer}
    (hlayer : h.request.downloadRequestLayer = some layer)
    (hout : inStorage env layer.path h.storagePath = .ok false) :
    downloadRoute env h = refuse h (missingMessage layer.path) := by
  unfold downloadRoute
  simp only [hlayer]
  exact probe_outside hout _ _

/-- A Delete of a path outside the root. -/
theorem deleteRoute_outside {layer : DeleteRequestLayer}
    (hlayer : h.request.deleteRequestLayer = some layer)
    (hout : inStorage env layer.path h.storagePath = .ok false) :
    deleteRoute env h = refuse h (missingMessage layer.path) := by
  unfold deleteRoute
  simp only [hlayer]
  exact probe_outside hout _ _

/-- A List of a path outside the root. -/
theorem listRoute_outside {layer : ListRequestLayer}
    (hlayer : h.request.listRequestLayer = some layer)
    (hout : inStorage env layer.path h.storagePath = .ok false) :
    listRoute env h = refuse h (missingDirectoryMessage layer.path) := by
  unfold listRoute
  simp only [hlayer]
  funext s
  obtain ⟨directory, hdirectory⟩ := query_total env.cwd
    (getPath env layer.path h.storagePath) FileTree.isDir s.fs
  rw [bind_of_ok (onFiles_of_ok (x := isdir env.cwd _) hdirectory)]
  cases directory with
  | false => rfl
  | true =>
      simp only [lift_ok_bind hout]
      rfl

theorem keeps_uploadRoute : Keeps (confinedIn r) (uploadRoute env h) := by
  unfold uploadRoute
  split
  · exact keeps_refuse
  · apply keeps_ite
    · exact fun _ => keeps_refuse
    · refine fun _ => keeps_bind (keeps_reads _) fun legal => keeps_ite (fun _ => keeps_refuse) ?_
      exact fun _ => keeps_bind keeps_createNewRequestID fun _ => keeps_pure _

theorem coupled_uploadRoute : Coupled (AgreeIn E) (uploadRoute env h) (uploadRoute env h) := by
  unfold uploadRoute
  split
  · exact coupled_refuse
  · apply coupled_ite
    · exact fun _ => coupled_refuse
    · refine fun _ => coupled_bind (coupled_reads fun _ _ _ => rfl) fun legal =>
        coupled_ite (fun _ => coupled_refuse) ?_
      exact fun _ => coupled_bind coupled_createNewRequestID fun _ => coupled_pure _

theorem keeps_downloadRoute : Keeps (confinedIn r) (downloadRoute env h) := by
  unfold downloadRoute
  split
  · exact keeps_refuse
  · refine keeps_bind (keeps_onFiles keeps_probe) fun o => ?_
    split
    · exact keeps_refuse
    · next isFile =>
        refine keeps_bind (keeps_reads _) fun legal => keeps_ite (fun _ => keeps_refuse) fun _ => ?_
        refine keeps_bind (keeps_reads _) fun flag => ?_
        refine keeps_bind (keeps_onFiles ?_) fun content =>
          keeps_bind keeps_createNewRequestID fun _ => keeps_pure _
        exact keeps_ite (fun _ => keeps_readFile) fun _ => keeps_archive

theorem coupled_downloadRoute [Couples (rootOf env h.storagePath) E] :
    Coupled (AgreeIn E) (downloadRoute env h) (downloadRoute env h) := by
  cases hlayer : h.request.downloadRequestLayer with
  | none =>
      unfold downloadRoute
      simp only [hlayer]
      exact coupled_refuse
  | some layer =>
      rcases inStorage_cases env layer.path h.storagePath with hout | ⟨q, hp, hr⟩
      · rw [downloadRoute_outside hlayer hout]
        exact coupled_refuse
      · unfold downloadRoute
        simp only [hlayer]
        refine coupled_bind (coupled_onFiles (coupled_probe hp hr)) fun o => ?_
        split
        · exact coupled_refuse
        · next isFile =>
            refine coupled_bind (coupled_reads fun _ _ _ => rfl) fun legal =>
              coupled_ite (fun _ => coupled_refuse) fun _ => ?_
            refine coupled_bind (coupled_reads fun _ _ _ => rfl) fun flag => ?_
            refine coupled_bind (coupled_onFiles ?_) fun content =>
              coupled_bind coupled_createNewRequestID fun _ => coupled_pure _
            exact coupled_ite (fun _ => coupled_readFile hp hr) fun _ => coupled_archive hp hr

theorem keeps_listRoute : Keeps (confinedIn r) (listRoute env h) := by
  unfold listRoute
  split
  · exact keeps_refuse
  · refine keeps_bind (keeps_onFiles keeps_isdir) fun directory => ?_
    refine keeps_ite (fun _ => keeps_refuse) fun _ => ?_
    refine keeps_bind (keeps_reads _) fun legal => keeps_ite (fun _ => keeps_refuse) fun _ => ?_
    refine keeps_bind (keeps_onFiles (keeps_reads _)) fun fuel => ?_
    exact keeps_bind (keeps_onFiles keeps_loadDirectory) fun data =>
      keeps_bind keeps_createNewRequestID fun _ => keeps_pure _

theorem coupled_listRoute [Couples (rootOf env h.storagePath) E] :
    Coupled (AgreeIn E) (listRoute env h) (listRoute env h) := by
  cases hlayer : h.request.listRequestLayer with
  | none =>
      unfold listRoute
      simp only [hlayer]
      exact coupled_refuse
  | some layer =>
      rcases inStorage_cases env layer.path h.storagePath with hout | ⟨q, hp, hr⟩
      · rw [listRoute_outside hlayer hout]
        exact coupled_refuse
      · unfold listRoute
        simp only [hlayer]
        refine coupled_bind (coupled_onFiles (coupled_isdir hp hr)) fun directory => ?_
        refine coupled_ite (fun _ => coupled_refuse) fun _ => ?_
        refine coupled_bind (coupled_reads fun _ _ _ => rfl) fun legal =>
          coupled_ite (fun _ => coupled_refuse) fun _ => ?_
        refine coupled_bind (coupled_onFiles (coupled_depthBound hp hr)) fun fuel => ?_
        exact coupled_bind (coupled_onFiles (coupled_loadDirectory hp hr)) fun data =>
          coupled_bind coupled_createNewRequestID fun _ => coupled_pure _

theorem keeps_deleteRoute : Keeps (confinedIn (rootOf env h.storagePath)) (deleteRoute env h) := by
  cases hlayer : h.request.deleteRequestLayer with
  | none =>
      unfold deleteRoute
      simp only [hlayer]
      exact keeps_refuse
  | some layer =>
      rcases inStorage_cases env layer.path h.storagePath with hout | ⟨q, hp, hr⟩
      · rw [deleteRoute_outside hlayer hout]
        exact keeps_refuse
      · unfold deleteRoute
        simp only [hlayer]
        refine keeps_bind (keeps_onFiles keeps_probe) fun o => ?_
        split
        · exact keeps_refuse
        · next isFile =>
            refine keeps_bind (keeps_reads _) fun legal =>
              keeps_ite (fun _ => keeps_refuse) fun _ => ?_
            refine keeps_bind (keeps_onFiles ?_) fun _ =>
              keeps_bind keeps_createNewRequestID fun _ => keeps_pure _
            exact keeps_ite (fun _ => keeps_remove hp hr) fun _ => keeps_deleteDirectory hp hr

theorem coupled_deleteRoute [Couples (rootOf env h.storagePath) E] :
    Coupled (AgreeIn E) (deleteRoute env h) (deleteRoute env h) := by
  cases hlayer : h.request.deleteRequestLayer with
  | none =>
      unfold deleteRoute
      simp only [hlayer]
      exact coupled_refuse
  | some layer =>
      rcases inStorage_cases env layer.path h.storagePath with hout | ⟨q, hp, hr⟩
      · rw [deleteRoute_outside hlayer hout]
        exact coupled_refuse
      · unfold deleteRoute
        simp only [hlayer]
        refine coupled_bind (coupled_onFiles (coupled_probe hp hr)) fun o => ?_
        split
        · exact coupled_refuse
        · next isFile =>
            refine coupled_bind (coupled_reads fun _ _ _ => rfl) fun legal =>
              coupled_ite (fun _ => coupled_refuse) fun _ => ?_
            refine coupled_bind (coupled_onFiles ?_) fun _ =>
              coupled_bind coupled_createNewRequestID fun _ => coupled_pure _
            exact coupled_ite (fun _ => coupled_remove hp hr) fun _ =>
              coupled_deleteDirectory hp hr

/-- The path of an Upload request is one that `in_storage` accepts. -/
def AcceptedPath (env : Env) (request : Pocket) (storagePath : Str) : Prop :=
  ∀ layer, request.uploadRequestLayer = some layer →
    inStorage env layer.path storagePath = .ok true

/-- An accepted Upload request: its path is accepted, and no file has changed. -/
theorem uploadRoute_ok {routed : Routed} {s s' : State}
    (hroute : uploadRoute env h s = .ok (some routed) s') :
    (∃ layer, h.request.uploadRequestLayer = some layer ∧
      inStorage env layer.path h.storagePath = .ok true) ∧ s'.fs = s.fs := by
  unfold uploadRoute at hroute
  cases hlayer : h.request.uploadRequestLayer with
  | none =>
      simp only [hlayer] at hroute
      obtain ⟨_, t, -, hroute⟩ := bind_ok_iff.mp hroute
      cases hroute
  | some layer =>
      simp only [hlayer] at hroute
      obtain ⟨legal, hlegal⟩ := inStorage_total env layer.path h.storagePath
      split at hroute
      · obtain ⟨_, t, -, hroute⟩ := bind_ok_iff.mp hroute
        cases hroute
      · rw [lift_ok_bind hlegal] at hroute
        cases legal with
        | true =>
            cases hroute
            exact ⟨⟨layer, rfl, hlegal⟩, rfl⟩
        | false =>
            obtain ⟨_, t, -, hroute⟩ := bind_ok_iff.mp hroute
            cases hroute

/-- `route` accepts an Upload request only when its path is. -/
theorem acceptedPath_of_route {routed : Routed} {s s' : State}
    (hsub : h.request.basicLayer.pocketSubType = .upload)
    (hroute : route env h s = .ok (some routed) s') : AcceptedPath env h.request h.storagePath := by
  intro layer hlayer
  unfold route at hroute
  simp only [hsub] at hroute
  obtain ⟨⟨layer', hlayer', hlegal⟩, -⟩ := uploadRoute_ok hroute
  rw [hlayer, Option.some_inj] at hlayer'
  rw [hlayer']
  exact hlegal

theorem keeps_route (h : RequestHandler) :
    Keeps (confinedIn (rootOf env h.storagePath)) (route env h) := by
  unfold route
  split
  · exact keeps_uploadRoute
  · exact keeps_downloadRoute
  · exact keeps_listRoute
  · exact keeps_deleteRoute
  · exact keeps_throw _

theorem coupled_route (h : RequestHandler) [Couples (rootOf env h.storagePath) E] :
    Coupled (AgreeIn E) (route env h) (route env h) := by
  unfold route
  split
  · exact coupled_uploadRoute
  · exact coupled_downloadRoute
  · exact coupled_listRoute
  · exact coupled_deleteRoute
  · exact coupled_throw _

theorem keeps_postUpload {now : UInt64} {data : Bytes} (h : RequestHandler)
    (haccepted : AcceptedPath env h.request h.storagePath) :
    Keeps (confinedIn (rootOf env h.storagePath)) (postUpload env now h data) := by
  refine keeps_bind (keeps_record _) fun _ => ?_
  split
  · exact keeps_throw _
  · next layer hlayer =>
      have hr := prefix_of_inStorage env (haccepted layer hlayer)
      exact keeps_onFiles (keeps_storeUpload (normal_getPath env layer.path h.storagePath) hr)

theorem coupled_postUpload {now : UInt64} {data : Bytes} (h : RequestHandler)
    [Couples (rootOf env h.storagePath) E]
    (haccepted : AcceptedPath env h.request h.storagePath) :
    Coupled (AgreeIn E) (postUpload env now h data)
      (postUpload env now h data) := by
  refine coupled_bind (coupled_record _) fun _ => ?_
  split
  · exact coupled_throw _
  · next layer hlayer =>
      have hr := prefix_of_inStorage env (haccepted layer hlayer)
      exact coupled_onFiles (coupled_storeUpload (normal_getPath env layer.path h.storagePath) hr)

end Routes

-- ============================================================================
-- Requests
-- ============================================================================

section Requests

variable {amb : Ambient} {request : Pocket} {layer : RequestLayer} {clientAddress : Addr}
  {storagePath : Str} {E : FileTree → FileTree → Prop}

theorem keeps_openRequest : Keeps (confinedIn (rootOf env storagePath))
    (openRequest env amb request layer clientAddress storagePath) := by
  have hkeeps : Keeps (confinedIn (rootOf env storagePath))
      (route env { request, clientAddress, storagePath }) :=
    keeps_route { request, clientAddress, storagePath }
  refine keeps_bind_of
    (fun o => ∀ routed, o = some routed → request.basicLayer.pocketSubType = .upload →
      AcceptedPath env request storagePath) hkeeps
    (fun _ _ _ hroute routed hsome hsub => ?_) fun o haccepted => ?_
  · rw [hsome] at hroute
    exact acceptedPath_of_route hsub hroute
  · split
    · exact keeps_pure _
    · next routed =>
        apply keeps_ite
        · intro _
          refine keeps_bind keeps_sendto fun _ => keeps_bind (keeps_when fun hsub => ?_) fun _ =>
            keeps_pure _
          exact keeps_postUpload
            { request, clientAddress, storagePath, requestID := routed.requestID }
            (haccepted routed rfl (of_decide_eq_true hsub))
        · exact fun _ => keeps_bind keeps_sendto fun _ => keeps_pure _

theorem coupled_openRequest [Couples (rootOf env storagePath) E] : Coupled (AgreeIn E)
    (openRequest env amb request layer clientAddress storagePath)
    (openRequest env amb request layer clientAddress storagePath) := by
  have hcoupled : Coupled (AgreeIn E)
      (route env { request, clientAddress, storagePath })
      (route env { request, clientAddress, storagePath }) :=
    coupled_route { request, clientAddress, storagePath }
  refine coupled_bind_of
    (fun o => ∀ routed, o = some routed → request.basicLayer.pocketSubType = .upload →
      AcceptedPath env request storagePath) hcoupled
    (fun _ _ _ hroute routed hsome hsub => ?_) fun o haccepted => ?_
  · rw [hsome] at hroute
    exact acceptedPath_of_route hsub hroute
  · split
    · exact coupled_pure _
    · next routed =>
        apply coupled_ite
        · intro _
          refine coupled_bind coupled_sendto fun _ =>
            coupled_bind (coupled_when fun hsub => ?_) fun _ => coupled_pure _
          exact coupled_postUpload
            { request, clientAddress, storagePath, requestID := routed.requestID }
            (haccepted routed rfl (of_decide_eq_true hsub))
        · exact fun _ => coupled_bind coupled_sendto fun _ => coupled_pure _

/-- The upload handler of an opened request. -/
theorem openRequest_upload {u : UploadRequestHandler} {res : Pocket} {s s' : State}
    (h : openRequest env amb request layer clientAddress storagePath s =
      .ok (some (.upload u, res)) s') :
    u.storagePath = storagePath ∧ AcceptedPath env u.request u.storagePath := by
  obtain ⟨o, t, hroute, h⟩ := bind_ok_iff.mp h
  cases o with
  | none => cases h
  | some routed =>
      simp only at h
      generalize hsize : (if request.basicLayer.pocketSubType = .upload then layer.pocketFullSize
        else (routed.data.getD []).length) = dataSize at h
      rw [apply_ite (fun x : Prog State (Option (Handler × Pocket)) => x t)] at h
      split at h
      · obtain ⟨_, _, -, h⟩ := bind_ok_iff.mp h
        obtain ⟨_, _, -, h⟩ := bind_ok_iff.mp h
        cases h
      · obtain ⟨_, _, -, h⟩ := bind_ok_iff.mp h
        rw [pure_apply, EStateM.Result.ok.injEq, Option.some_inj, Prod.mk.injEq] at h
        obtain ⟨⟨hopened, -⟩, -⟩ := h
        unfold openedHandler at hopened
        split at hopened
        · next hsub =>
            cases hopened
            exact ⟨rfl, acceptedPath_of_route hsub hroute⟩
        · cases hopened

end Requests

-- ============================================================================
-- Confinement
-- ============================================================================

/-- The entries at and below `r` are the same, in the same order, and so is what the
    processes have drawn and done. -/
structure SameBelow (r : Path) (s t : State) : Prop where
  below : s.fs.below r = t.fs.below r
  lastRequestID : s.lastRequestID = t.lastRequestID
  log : s.log = t.log

/-- The program stays in a storage root: it changes nothing outside, and ends the same
    way from two states that agree below the root. -/
structure Confined {α : Type} (env : Env) (storagePath : Str) (x : Prog State α) : Prop where
  outside : ∀ s, StorageReady env s.fs → ∀ p, ¬ rootOf env storagePath <+: p →
    (final (x s)).fs.get? p = s.fs.get? p
  same : ∀ s t, StorageReady env s.fs → StorageReady env t.fs →
    SameBelow (rootOf env storagePath) s t →
      SameEnd (SameBelow (rootOf env storagePath)) (x s) (x t)

theorem confined_of {α : Type} {storagePath : Str} {x : Prog State α}
    (hroot : StorageRoot env storagePath) (hkeeps : Keeps (confinedIn (rootOf env storagePath)) x)
    (hcoupled : Coupled (AgreeIn (Agree (rootOf env storagePath))) x x) : Confined env storagePath x where
  outside s hready := hkeeps s (hroot.parent hready)
  same s t hs ht hst := by
    have hagree : AgreeIn (Agree (rootOf env storagePath)) s t :=
      ⟨⟨hst.below, hroot.parent hs, hroot.parent ht⟩, hst.lastRequestID, hst.log⟩
    exact (hcoupled s t hagree).mono fun _ _ h => ⟨h.fs.below, h.lastRequestID, h.log⟩

/-- The path of a Download, List or Delete request, and the text that refuses it. -/
def refusal (request : Pocket) : Option (Str × Str) :=
  match request.basicLayer.pocketSubType with
  | .download => request.downloadRequestLayer.map fun layer => (layer.path, missingMessage layer.path)
  | .list => request.listRequestLayer.map fun layer =>
      (layer.path, missingDirectoryMessage layer.path)
  | .delete => request.deleteRequestLayer.map fun layer => (layer.path, missingMessage layer.path)
  | _ => none

/-- `route` refuses a path outside the root with the text for a missing one. -/
theorem route_outside {h : RequestHandler} {path message : Str}
    (hrefusal : refusal h.request = some (path, message))
    (hout : inStorage env path h.storagePath = .ok false) :
    route env h = refuse h message := by
  unfold refusal at hrefusal
  unfold route
  split at hrefusal
  · next hsub =>
      obtain ⟨layer, hlayer, heq⟩ := Option.map_eq_some_iff.mp hrefusal
      cases heq
      simp only [hsub]
      exact downloadRoute_outside hlayer hout
  · next hsub =>
      obtain ⟨layer, hlayer, heq⟩ := Option.map_eq_some_iff.mp hrefusal
      cases heq
      simp only [hsub]
      exact listRoute_outside hlayer hout
  · next hsub =>
      obtain ⟨layer, hlayer, heq⟩ := Option.map_eq_some_iff.mp hrefusal
      cases heq
      simp only [hsub]
      exact deleteRoute_outside hlayer hout
  · cases hrefusal

/-- **Storage confinement**, for every request and every path in it.  Opening the
    request, and storing an upload once it is complete, stay in the storage root; a
    Download, List or Delete of a path outside the root is answered with an error that
    depends on the path alone. -/
theorem storage_confinement {storagePath : Str} (hroot : StorageRoot env storagePath)
    (amb : Ambient) (request : Pocket) (layer : RequestLayer) (clientAddress : Addr) :
    Confined env storagePath
        (openRequest env amb request layer clientAddress storagePath) ∧
      (∀ u res s s', openRequest env amb request layer clientAddress storagePath s =
          .ok (some (.upload u, res)) s' → ∀ now data,
        Confined env storagePath (postUpload env now u.toRequestHandler data)) ∧
      ∀ path message, refusal request = some (path, message) →
        ¬ rootOf env storagePath <+: targetOf env path storagePath → ∀ s,
          openRequest env amb request layer clientAddress storagePath s =
            (sendError message clientAddress >>= fun _ => return none) s := by
  refine ⟨confined_of hroot keeps_openRequest coupled_openRequest, ?_, ?_⟩
  · intro u res s s' hopen now data
    obtain ⟨rfl, haccepted⟩ := openRequest_upload hopen
    exact confined_of hroot (keeps_postUpload u.toRequestHandler haccepted)
      (coupled_postUpload u.toRequestHandler haccepted)
  · intro path message hrefusal hout s
    have hlegal : inStorage env path storagePath = .ok false := by
      obtain ⟨legal, hlegal⟩ := inStorage_total env path storagePath
      cases legal with
      | false => exact hlegal
      | true => exact absurd (prefix_of_inStorage env hlegal) hout
    have hroute : route env { request, clientAddress, storagePath } =
        refuse { request, clientAddress, storagePath } message := route_outside hrefusal hlegal
    unfold openRequest
    rw [hroute, refuse, bind_assoc]
    rfl

/-- A Download of `../private/x` by an anonymous client. -/
def prying : Pocket :=
  { basicLayer := ⟨0, .request, .download⟩
    requestLayer := some ⟨0, 1000, true, [], []⟩
    downloadRequestLayer := some ⟨"../private/x".toList⟩ }

/-- An installed storage, with or without the directory of a user `x`. -/
def installedState (withUser : Bool) : State where
  fs :=
    if withUser then
      final (mkdir ['/'] 0 (userDirectory default ['x']) (installed default))
    else installed default
  lastRequestID := 0
  log := []

/-- The directory is there in one of the states, and the answers are the same. -/
theorem storage_confinement_prying :
    (installedState true).fs.isDir (targetOf default "../private/x".toList (publicPath default)) =
        true ∧
      (installedState false).fs.isDir
        (targetOf default "../private/x".toList (publicPath default)) = false ∧
      SameEnd (SameBelow (rootOf default (publicPath default)))
        (openRequest default default prying ⟨0, 1000, true, [], []⟩ (['c'], 8001)
          (publicPath default) (installedState true))
        (openRequest default default prying ⟨0, 1000, true, [], []⟩ (['c'], 8001)
          (publicPath default) (installedState false)) := by
  have hready : ∀ b, StorageReady default (installedState b).fs := by
    intro b
    cases b with
    | true => exact ⟨by decide +kernel, by decide +kernel⟩
    | false => exact ⟨by decide +kernel, by decide +kernel⟩
  refine ⟨by decide +kernel, by decide +kernel, ?_⟩
  have hroot : StorageRoot default (publicPath default) := Or.inl rfl
  have hconfined := (storage_confinement hroot default prying ⟨0, 1000, true, [], []⟩
    (['c'], 8001)).1
  exact hconfined.same _ _ (hready true) (hready false) ⟨by decide +kernel, rfl, rfl⟩

end App
end NetworkingFinal
