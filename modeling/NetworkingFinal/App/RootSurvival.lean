/-
  NetworkingFinal.App.RootSurvival

  Whether a storage root survives the requests on it.

  A Delete request that names the root removes its content only, but knows the root
  by its path string; storing an upload that names the root removes it and makes
  what the upload says.  `SparesRoot` is the condition on a request under which the
  root is a directory afterwards, and `root_survives_iff` says so for whole runs.
-/
import NetworkingFinal.App.Confinement
import NetworkingFinal.Lib.Runs

namespace NetworkingFinal
namespace App

open Py Py.Prog Py.Os Py.PosixPath Py.Struct Ftp Lib

variable {env : Env}

-- ============================================================================
-- Requests that are carried out
-- ============================================================================

/-- An Upload request with the data that was sent for it, or a Delete request, on a
    storage root. -/
inductive FileRequest (env : Env) where
  | upload (h : RequestHandler) (root : StorageRoot env h.storagePath) (now : UInt64)
      (data : Bytes)
  | delete (h : RequestHandler) (root : StorageRoot env h.storagePath)

/-- The state after a request that is accepted and completed. -/
def serve (env : Env) (s : State) : FileRequest env → Option State
  | .upload h _ now data =>
      match uploadRoute env h s with
      | .ok (some routed) t =>
          match postUpload env now { h with requestID := routed.requestID } data t with
          | .ok () u => some u
          | .error _ _ => none
      | _ => none
  | .delete h _ =>
      match deleteRoute env h s with
      | .ok (some _) t => some t
      | _ => none

/-- Unpacking the member makes the target a directory: it is one, or lies below. -/
def makesTarget (m : ZipFile.Member) : Bool := !m.parts.isEmpty || m.isDir

/-- The data of an upload that makes a directory at its path: the archive of a
    directory, whose first member does so. -/
def makesDirectory (env : Env) : Bytes → Bool
  | [] => false
  | flag :: content =>
      flag == 0 && (env.zipMembers content).any fun members => members.head?.any makesTarget

/-- The request leaves the root `r` a directory: an upload to it makes a directory
    there, and a Delete of it spells it as `get_path(".")` does. -/
def SparesRoot (r : Path) : FileRequest env → Prop
  | .upload h _ _ data => ∀ layer ∈ h.request.uploadRequestLayer,
      targetOf env layer.path h.storagePath = r → makesDirectory env data = true
  | .delete h _ => ∀ layer ∈ h.request.deleteRequestLayer,
      targetOf env layer.path h.storagePath = r →
        getPath env layer.path h.storagePath = getPath env ".".toList h.storagePath

-- ============================================================================
-- Storage roots do not contain each other
-- ============================================================================

theorem StorageRoot.ne_nil {storagePath : Str} (h : StorageRoot env storagePath) :
    rootOf env storagePath ≠ [] := by
  rcases h with rfl | ⟨id, hid, rfl⟩
  · rw [rootOf_publicPath]
    simp
  · rw [rootOf_userDirectory hid]
    simp

theorem StorageRoot.eq_of_below {p q : Str} (hp : StorageRoot env p) (hq : StorageRoot env q)
    (h : rootOf env p <+: rootOf env q) : rootOf env p = rootOf env q := by
  rcases hp with rfl | ⟨i, hi, rfl⟩
  · rcases hq with rfl | ⟨j, hj, rfl⟩
    · rfl
    · rw [rootOf_publicPath, rootOf_userDirectory hj, rootOf_private, List.append_assoc,
        List.prefix_append_right_inj] at h
      exact absurd h (by simp)
  · rcases hq with rfl | ⟨j, hj, rfl⟩
    · have hlen := h.length_le
      rw [rootOf_publicPath, rootOf_userDirectory hi, rootOf_private] at hlen
      simp at hlen
    · rw [rootOf_userDirectory hi, rootOf_userDirectory hj] at h ⊢
      exact h.eq_of_length (by simp)

/-- A path accepted for one root leads to another root, or above it, only when they are
    the same. -/
theorem target_eq_root {p q : Str} {path : Str} (hp : StorageRoot env p)
    (hq : StorageRoot env q) (hlegal : inStorage env path p = .ok true)
    (h : targetOf env path p <+: rootOf env q) : targetOf env path p = rootOf env q := by
  have hbelow := prefix_of_inStorage env hlegal
  have hroots := hp.eq_of_below hq (hbelow.trans h)
  rw [hroots] at hbelow
  exact h.eq_of_length (Nat.le_antisymm h.length_le hbelow.length_le)

-- ============================================================================
-- File work elsewhere
-- ============================================================================

section Elsewhere

variable {now : UInt64} {targetPath : Str} {q r : Path} {data : Bytes} {h : RequestHandler}

theorem dirStays_storeUpload (hp : Normal targetPath q) (hqr : ¬ q <+: r) :
    Keeps (dirStays r) (storeUpload env now targetPath data) := by
  apply keeps_storeUpload_of
  · exact dirStays_remove hp.spells hqr
  · exact dirStays_rmtree hp.spells hqr
  · exact keeps_bind (keeps_query _) fun _ =>
      keeps_when fun _ => dirStays_of_kindsStay kindsStay_makedirs
  · exact fun _ => dirStays_of_kindsStay kindsStay_writeFile
  · exact fun members => dirStays_of_kindsStay (ZipFile.kindsStay_extractall members)

theorem dirStays_removeEntry {path : Str} (hp : Spells path q) (hqr : ¬ q <+: r) :
    Keeps (dirStays r) (removeEntry env path) := by
  refine keeps_bind keeps_isfile fun _ => ?_
  apply keeps_ite
  · exact fun _ => dirStays_remove hp hqr
  · exact fun _ => keeps_bind keeps_isdir fun _ => keeps_when fun _ => dirStays_rmtree hp hqr

/-- Deleting a directory elsewhere, or the content of the root. -/
theorem dirStays_deleteDirectory (hp : Spells targetPath q)
    (hqr : ¬ q <+: r ∨ q = r ∧ targetPath = getPath env ".".toList h.storagePath) :
    Keeps (dirStays r) (deleteDirectory env h targetPath) := by
  apply keeps_ite
  · intro _
    refine keeps_bind_of (fun names => ∀ name ∈ names, Plain name) keeps_listdir
      (fun _ _ _ hnames => plain_of_listdir hnames) fun names hplain => ?_
    refine keeps_each fun name hname =>
      dirStays_removeEntry (hp.child (hplain name hname)) fun hchild => ?_
    -- an entry of the directory is not above `r`
    rcases hqr with hqr | ⟨rfl, -⟩
    · exact hqr ((List.prefix_append q [name]).trans hchild)
    · have hlen := hchild.length_le
      rw [List.length_append, List.length_singleton] at hlen
      omega
  · intro hne
    rcases hqr with hqr | ⟨-, heq⟩
    · exact dirStays_rmtree hp hqr
    · exact absurd heq hne

end Elsewhere

-- ============================================================================
-- File work at the root
-- ============================================================================

section AtRoot

variable {now : UInt64} {targetPath : Str} {r : Path} {h : RequestHandler}

theorem isDir_removeTree {t : FileTree} (hr : r ≠ []) : (t.removeTree r).isDir r = false := by
  rw [FileTree.isDir, FileTree.get?_removeTree hr, if_pos List.prefix_rfl]

/-- The archive of an upload makes its path a directory exactly when its first member
    does. -/
theorem isDir_of_extractall {fs t : FileTree} {members : List ZipFile.Member}
    (hp : Spells targetPath r) (hdir : fs.isDir r = false)
    (h : ZipFile.extractall env.cwd now targetPath members fs = .ok () t) :
    t.isDir r = members.head?.any makesTarget := by
  cases members with
  | nil =>
      cases h
      exact hdir
  | cons m members =>
      show t.isDir r = makesTarget m
      obtain ⟨_, u, hfirst, hothers⟩ := bind_ok_iff.mp h
      have hrest : kindsStay.rel u t := (ZipFile.kindsStay_extractall members).of_ok hothers
      by_cases hm : m.parts ≠ [] ∨ m.isDir = true
      · rw [(hrest r).1 (ZipFile.isDir_of_extractMember hp hm hfirst)]
        simpa [makesTarget] using hm
      · -- the member is a file at the path, and stays one
        rw [not_or, not_not, Bool.not_eq_true] at hm
        obtain ⟨hparts, hfile⟩ := hm
        have hentry := ZipFile.entry_of_extractMember hp hfirst
        rw [hparts, List.append_nil, hfile] at hentry
        rcases hentry with ⟨htrue, -⟩ | ⟨-, hisFile⟩
        · cases htrue
        · rw [FileTree.isDir_eq_false ((hrest r).2 hisFile), makesTarget, hparts, hfile]
          rfl

/-- Storing an upload where something is first removes it; the directory that holds it
    is there. -/
theorem storeUpload_eq {fs : FileTree} {data : Bytes} (hp : Normal targetPath r)
    (hr : r ≠ []) (hthere : fs.get? r ≠ none) :
    storeUpload env now targetPath data fs =
      saveUpload env now targetPath data (fs.removeTree r) := by
  have hquery : ∀ (f : FileTree → Path → Bool) p q s, Spells p q →
      query env.cwd f p s = .ok (f s q) s := by
    intro f p q s hspells
    simp [query, reads, resolve_of_spells env.cwd s hspells]
  have hparent : isdir env.cwd (dirname targetPath) (fs.removeTree r) =
      .ok true (fs.removeTree r) := by
    have hkept : (fs.removeTree r).isDir r.dropLast = true :=
      dirStays_removeTree hr (not_prefix_dropLast hr) (FileTree.isDir_dropLast_of_get? hthere)
    rw [isdir, hquery _ _ _ _ hp.normal_dirname.spells, hkept]
  have hupper : when (decide (dirname targetPath ≠ [])) (do
      let there ← isdir env.cwd (dirname targetPath)
      when (!there) (makedirs env.cwd now (dirname targetPath))) (fs.removeTree r) =
      .ok () (fs.removeTree r) := by
    unfold when
    split
    · rw [bind_of_ok hparent]
      rfl
    · rfl
  have hskip : ∀ x : Prog FileTree Unit, ∀ t, when false x t = .ok () t := fun _ _ => rfl
  have hisfile : isfile env.cwd targetPath fs = .ok (fs.isFile r) fs := hquery _ _ _ _ hp.spells
  unfold storeUpload
  rw [bind_of_ok hisfile]
  cases hfile : fs.isFile r with
  | true =>
      have hremoved : when true (remove env.cwd targetPath) fs = .ok () (fs.removeTree r) :=
        update_ok_iff.mpr ⟨r, resolve_of_spells env.cwd fs hp.spells, if_pos hfile⟩
      have hdirectory : isdir env.cwd targetPath (fs.removeTree r) =
          .ok false (fs.removeTree r) := by
        rw [isdir, hquery _ _ _ _ hp.spells, isDir_removeTree hr]
      rw [bind_of_ok hremoved, bind_of_ok hdirectory, bind_of_ok (hskip _ _), bind_of_ok hupper]
  | false =>
      have hdir : fs.isDir r = true := FileTree.isDir_of_get? hthere hfile
      have hdirectory : isdir env.cwd targetPath fs = .ok true fs := by
        rw [isdir, hquery _ _ _ _ hp.spells, hdir]
      have hremoved : when true (rmtree env.cwd targetPath) fs = .ok () (fs.removeTree r) :=
        update_ok_iff.mpr ⟨r, resolve_of_spells env.cwd fs hp.spells, if_pos ⟨hdir, hr⟩⟩
      rw [bind_of_ok (hskip _ _), bind_of_ok hdirectory, bind_of_ok hremoved, bind_of_ok hupper]

/-- Storing an upload at a directory leaves one exactly when the upload makes one. -/
theorem isDir_of_storeUpload {fs t : FileTree} {data : Bytes} (hp : Normal targetPath r)
    (hr : r ≠ []) (hdir : fs.isDir r = true)
    (h : storeUpload env now targetPath data fs = .ok () t) :
    t.isDir r = makesDirectory env data := by
  have hgone : (fs.removeTree r).isDir r = false := isDir_removeTree hr
  rw [storeUpload_eq hp hr (FileTree.get?_ne_none_of_isDir hdir)] at h
  obtain ⟨flags, u, hflags, hstored⟩ := bind_ok_iff.mp h
  cases data with
  | nil => cases hflags
  | cons flag content =>
      simp only [reads, unpack_flag] at hflags
      cases hflags
      have hdrop : (flag :: content).drop (calcsize .native [.bool]) = content := rfl
      simp only [hdrop] at hstored
      by_cases hflag : flag.toNat = 0
      · have hzero : flag = 0 := UInt8.toNat_inj.mp hflag
        simp only [hflag, if_true, ne_eq, not_true_eq_false, if_false] at hstored
        cases hmembers : env.zipMembers content with
        | none =>
            simp only [hmembers] at hstored
            cases hstored
        | some members =>
            simp only [hmembers] at hstored
            rw [isDir_of_extractall hp.spells hgone hstored, makesDirectory, hzero, hmembers]
            rfl
      · have hfile : writeFile env.cwd now targetPath content (fs.removeTree r) = .ok () t := by
          simpa [hflag] using hstored
        have hne : flag ≠ 0 := by
          rintro rfl
          exact hflag rfl
        rw [FileTree.isDir_eq_false (isFile_of_put (of_update_ok hp.spells hfile)), makesDirectory,
          beq_eq_false_iff_ne.mpr hne]
        rfl

end AtRoot

-- ============================================================================
-- Requests at the root and elsewhere
-- ============================================================================

section Steps

variable {s t : State} {h : RequestHandler}

theorem of_probe_ok {targetPath : Str} {q : Path} {isFile : Bool} {fs fs' : FileTree}
    (hp : Spells targetPath q) (hprobe : probe env targetPath fs = .ok (some isFile) fs') :
    (if isFile then fs.isFile q else fs.isDir q) = true ∧ fs' = fs := by
  obtain ⟨file, u, hfile, hprobe⟩ := bind_ok_iff.mp hprobe
  obtain ⟨hfile, rfl⟩ := of_query_ok hp hfile
  cases file with
  | true =>
      cases hprobe
      exact ⟨hfile, rfl⟩
  | false =>
      obtain ⟨directory, v, hdirectory, hend⟩ := bind_ok_iff.mp hprobe
      obtain ⟨hdirectory, rfl⟩ := of_query_ok hp hdirectory
      cases directory with
      | true =>
          cases hend
          exact ⟨hdirectory, rfl⟩
      | false => cases hend

/-- An accepted Delete request. -/
theorem deleteRoute_ok {routed : Routed} (hroute : deleteRoute env h s = .ok (some routed) t) :
    ∃ layer, h.request.deleteRequestLayer = some layer ∧
      inStorage env layer.path h.storagePath = .ok true ∧
      ∃ isFile : Bool, (if isFile then s.fs.isFile (targetOf env layer.path h.storagePath)
          else s.fs.isDir (targetOf env layer.path h.storagePath)) = true ∧
        (if isFile then remove env.cwd (getPath env layer.path h.storagePath)
          else deleteDirectory env h (getPath env layer.path h.storagePath)) s.fs =
          .ok () t.fs := by
  unfold deleteRoute at hroute
  cases hlayer : h.request.deleteRequestLayer with
  | none =>
      simp only [hlayer] at hroute
      obtain ⟨_, u, -, hroute⟩ := bind_ok_iff.mp hroute
      cases hroute
  | some layer =>
      simp only [hlayer] at hroute
      obtain ⟨o, s₁, hprobe, hrest⟩ := bind_ok_iff.mp hroute
      obtain ⟨fs, hfs, hs₁⟩ := zoom_ok_iff.mp hprobe
      cases o with
      | none =>
          obtain ⟨_, u, -, hend⟩ := bind_ok_iff.mp hrest
          cases hend
      | some isFile =>
          have hspells := (normal_getPath env layer.path h.storagePath).spells
          obtain ⟨hkind, hsame⟩ := of_probe_ok hspells hfs
          have hs : s₁ = s := by
            rw [hs₁, hsame]
            rfl
          rw [hs] at hrest
          obtain ⟨legal, hlegal⟩ := inStorage_total env layer.path h.storagePath
          simp only [lift_ok_bind hlegal] at hrest
          cases legal with
          | false =>
              obtain ⟨_, u, -, hend⟩ := bind_ok_iff.mp hrest
              cases hend
          | true =>
              obtain ⟨_, s₂, hfiles, hend⟩ := bind_ok_iff.mp hrest
              obtain ⟨fs', hfs', hs₂⟩ := zoom_ok_iff.mp hfiles
              cases hend
              refine ⟨layer, rfl, hlegal, isFile, hkind, ?_⟩
              rw [hs₂]
              exact hfs'

/-- An accepted and completed Upload request. -/
theorem serve_upload {root : StorageRoot env h.storagePath} {now : UInt64} {data : Bytes}
    (hserve : serve env s (.upload h root now data) = some t) :
    ∃ layer, h.request.uploadRequestLayer = some layer ∧
      inStorage env layer.path h.storagePath = .ok true ∧
      storeUpload env now (getPath env layer.path h.storagePath) data s.fs = .ok () t.fs := by
  simp only [serve] at hserve
  split at hserve
  · next routed u hroute =>
      obtain ⟨⟨layer, hlayer, hlegal⟩, hsame⟩ := uploadRoute_ok hroute
      split at hserve
      · next v hpost =>
          cases hserve
          obtain ⟨_, u', hrecord, hpost⟩ := bind_ok_iff.mp hpost
          cases hrecord
          simp only [hlayer] at hpost
          obtain ⟨fs, hstore, rfl⟩ := zoom_ok_iff.mp hpost
          exact ⟨layer, hlayer, hlegal, hsame ▸ hstore⟩
      · cases hserve
  · cases hserve

theorem serve_delete {root : StorageRoot env h.storagePath}
    (hserve : serve env s (.delete h root) = some t) :
    ∃ routed, deleteRoute env h s = .ok (some routed) t := by
  simp only [serve] at hserve
  split at hserve
  · next routed u hroute =>
      cases hserve
      exact ⟨routed, hroute⟩
  · cases hserve

/-- **One request**: the root is a directory afterwards exactly when the request spares
    it. -/
theorem serve_isDir {storagePath : Str} (hroot : StorageRoot env storagePath) {e : FileRequest env}
    (hdir : s.fs.isDir (rootOf env storagePath) = true) (hserve : serve env s e = some t) :
    t.fs.isDir (rootOf env storagePath) = true ↔ SparesRoot (rootOf env storagePath) e := by
  cases e with
  | upload h root now data =>
      obtain ⟨layer, hlayer, hlegal, hstore⟩ := serve_upload hserve
      have hp := normal_getPath env layer.path h.storagePath
      have hspares : SparesRoot (rootOf env storagePath) (.upload h root now data) ↔
          (targetOf env layer.path h.storagePath = rootOf env storagePath →
            makesDirectory env data = true) := by
        simp [SparesRoot, hlayer]
      rw [hspares]
      by_cases htarget : targetOf env layer.path h.storagePath = rootOf env storagePath
      · rw [htarget] at hp
        rw [isDir_of_storeUpload hp hroot.ne_nil hdir hstore]
        exact ⟨fun h _ => h, fun h => h htarget⟩
      · have hqr : ¬ targetOf env layer.path h.storagePath <+: rootOf env storagePath := fun h =>
          htarget (target_eq_root root hroot hlegal h)
        exact ⟨fun _ h => absurd h htarget, fun _ =>
          (dirStays_storeUpload hp hqr).of_ok hstore hdir⟩
  | delete h root =>
      obtain ⟨routed, hroute⟩ := serve_delete hserve
      obtain ⟨layer, hlayer, hlegal, isFile, hkind, hfiles⟩ := deleteRoute_ok hroute
      have hp := (normal_getPath env layer.path h.storagePath).spells
      have hspares : SparesRoot (rootOf env storagePath) (.delete h root) ↔
          (targetOf env layer.path h.storagePath = rootOf env storagePath →
            getPath env layer.path h.storagePath = getPath env ".".toList h.storagePath) := by
        simp [SparesRoot, hlayer]
      rw [hspares]
      by_cases htarget : targetOf env layer.path h.storagePath = rootOf env storagePath
      · rw [show targetOf env layer.path h.storagePath = _ from htarget] at hp hkind
        cases isFile with
        | true =>
            rw [if_pos rfl, FileTree.isFile_eq_false hdir] at hkind
            cases hkind
        | false =>
            by_cases hspelt : getPath env layer.path h.storagePath =
                getPath env ".".toList h.storagePath
            · have hstays : Keeps (dirStays (rootOf env storagePath))
                  (deleteDirectory env h (getPath env layer.path h.storagePath)) :=
                dirStays_deleteDirectory hp (Or.inr ⟨rfl, hspelt⟩)
              exact ⟨fun _ _ => hspelt, fun _ => hstays.of_ok hfiles hdir⟩
            · have hdelete : deleteDirectory env h (getPath env layer.path h.storagePath) s.fs =
                  .ok () t.fs := hfiles
              rw [deleteDirectory, if_neg hspelt] at hdelete
              have hgone := of_update_ok hp hdelete
              rw [if_pos ⟨hdir, hroot.ne_nil⟩, Option.some_inj] at hgone
              rw [← hgone, isDir_removeTree hroot.ne_nil]
              exact ⟨fun h => (by cases h), fun h => absurd (h htarget) hspelt⟩
      · have hqr : ¬ targetOf env layer.path h.storagePath <+: rootOf env storagePath := fun h =>
          htarget (target_eq_root root hroot hlegal h)
        refine ⟨fun _ h => absurd h htarget, fun _ => ?_⟩
        cases isFile with
        | true => exact (dirStays_remove hp hqr).of_ok hfiles hdir
        | false => exact (dirStays_deleteDirectory hp (Or.inl hqr)).of_ok hfiles hdir

end Steps

-- ============================================================================
-- Sequences of requests
-- ============================================================================

/-- **The storage root survives** a sequence of completed Upload and Delete requests, on
    this root and on others, exactly when every one of them spares it. -/
theorem root_survives_iff {storagePath : Str} (hroot : StorageRoot env storagePath) {s w : State}
    (hdir : s.fs.isDir (rootOf env storagePath) = true) {es : List (FileRequest env)}
    (hrun : exec (serve env) s es = some w) :
    (∀ es₁ es₂ t, es = es₁ ++ es₂ → exec (serve env) s es₁ = some t →
      t.fs.isDir (rootOf env storagePath) = true) ↔
        ∀ e ∈ es, SparesRoot (rootOf env storagePath) e :=
  exec_invariant_iff (fun t => t.fs.isDir (rootOf env storagePath) = true) (SparesRoot _) hdir
    (fun _ _ _ ht hserve => serve_isDir hroot ht hserve) hrun

/-- The handler of an anonymous request. -/
def anonymous (request : Pocket) : RequestHandler :=
  { request, clientAddress := (['c'], 8001), storagePath := publicPath default }

/-- Upload a file of one byte to the path. -/
def uploadTo (path : Str) : FileRequest default :=
  .upload (anonymous
    { basicLayer := ⟨0, .request, .upload⟩, uploadRequestLayer := some ⟨path⟩ })
    (Or.inl rfl) 0 [1, 7]

/-- Delete what is at the path. -/
def deleteAt (path : Str) : FileRequest default :=
  .delete (anonymous
    { basicLayer := ⟨0, .request, .delete⟩, deleteRequestLayer := some ⟨path⟩ }) (Or.inl rfl)

/-- A file is uploaded, and the content of the root is deleted. -/
def sparingRun : List (FileRequest default) := [uploadTo "a/b".toList, deleteAt "a/..".toList]

theorem root_survives_iff_sparingRun :
    ∃ w, exec (serve default) (installedState false) sparingRun = some w ∧
      w.fs.isDir (rootOf default (publicPath default)) = true := by
  have hrun : (exec (serve default) (installedState false) sparingRun).isSome = true := by
    decide +kernel
  have hdir : (installedState false).fs.isDir (rootOf default (publicPath default)) = true := by
    decide +kernel
  have hspares : ∀ e ∈ sparingRun, SparesRoot (rootOf default (publicPath default)) e := by
    intro e he
    rcases List.mem_pair.mp he with rfl | rfl
    · rintro layer ⟨⟩ htarget
      exact absurd htarget (by decide +kernel)
    · rintro layer ⟨⟩ -
      decide +kernel
  obtain ⟨w, hw⟩ := Option.isSome_iff_exists.mp hrun
  have hall := (root_survives_iff (Or.inl rfl) hdir hw).mpr hspares
  exact ⟨w, hw, hall sparingRun [] w (by simp) hw⟩

/-- Uploading a file to the empty path, which a client derives from a target that ends
    in a slash, leaves a file in place of the root. -/
theorem not_root_survives_uploadTo :
    ¬ ∀ (env : Env) (storagePath : Str) (s w : State) (es : List (FileRequest env)),
      StorageRoot env storagePath → s.fs.isDir (rootOf env storagePath) = true →
      exec (serve env) s es = some w → w.fs.isDir (rootOf env storagePath) = true := by
  intro hall
  have hcheck : (exec (serve default) (installedState false) [uploadTo []]).map
      (fun w => w.fs.isDir (rootOf default (publicPath default))) = some false := by
    decide +kernel
  obtain ⟨w, hw, hgone⟩ := Option.map_eq_some_iff.mp hcheck
  have hdir := hall default (publicPath default) (installedState false) w _ (Or.inl rfl)
    (by decide +kernel) hw
  rw [hgone] at hdir
  cases hdir

/-- Deleting the root by its absolute path with two slashes leaves nothing. -/
example : (exec (serve default) (installedState false) [deleteAt "//storage/public".toList]).map
    (fun w => (w.fs.get? (rootOf default (publicPath default))).isSome) = some false := by
  decide +kernel

end App
end NetworkingFinal
