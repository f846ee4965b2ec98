/-
  NetworkingFinal.Net.Directories

  A directory that `upload_command` stores and `download_command` fetches again:
  the archive of the client on the server's disk, and the archive of the server on
  the client's.

  The client names the members by their paths from the directory, the server by
  their paths from the storage root.  So a file comes back under its path below the
  storage root (`fileAt_fetched`), which is its path in the directory only for the
  root itself (`directory_roundTrip_iff`).
-/
import NetworkingFinal.App.RootSurvival
import NetworkingFinal.Client.Files
import NetworkingFinal.Py.TypedPath
import Mathlib.Logic.Equiv.List

namespace NetworkingFinal
namespace Net

open Py Py.Prog Py.Os Py.PosixPath Py.Struct Py.Archive App Client Ftp

variable {env : Env} {host : Host}

-- ============================================================================
-- The two ends
-- ============================================================================

/-- Reading an archive back gives the names and contents written. -/
def ReadsBack (zipBytes : List (Str × Bytes) → Bytes)
    (zipMembers : Bytes → Option (List ZipFile.Member)) : Prop :=
  ∀ members, zipMembers (zipBytes members) = some (written members)

/-- Below a path that is neither a file nor a directory there is none. -/
theorem fileAt_below_eq_none {t : FileTree} {q : Path} (hfile : t.isFile q = false)
    (hdir : t.isDir q = false) (x : Path) : t.fileAt (q ++ x) = none := by
  cases hcontent : t.fileAt (q ++ x) with
  | none => rfl
  | some data =>
      by_cases hx : x = []
      · rw [hx, List.append_nil] at hcontent
        rw [FileTree.isFile_of_fileAt hcontent] at hfile
        cases hfile
      · have habove := FileTree.isDir_of_prefix (List.prefix_append q x) (by simpa using hx)
          (FileTree.get?_ne_none_of_fileAt hcontent)
        rw [hdir] at habove
        cases habove

/-- Storing the archive of a directory: the archive is unpacked where nothing is. -/
theorem extractall_of_storeUpload {now : UInt64} {targetPath : Str} {q : Path} {content : Bytes}
    {members : List ZipFile.Member} {s t : FileTree} (hp : Normal targetPath q)
    (hmembers : env.zipMembers content = some members)
    (h : storeUpload env now targetPath (0 :: content) s = .ok () t) :
    ∃ u, (∀ x, u.fileAt (q ++ x) = none) ∧
      ZipFile.extractall env.cwd now targetPath members u = .ok () t := by
  unfold storeUpload at h
  obtain ⟨file, s₁, hfile, h₁⟩ := bind_ok_iff.mp h
  obtain ⟨hisFile, hs₁⟩ := of_query_ok hp.spells hfile
  rw [hs₁] at h₁
  obtain ⟨_, s₂, hremove, h₂⟩ := bind_ok_iff.mp h₁
  obtain ⟨directory, s₃, hdirectory, h₃⟩ := bind_ok_iff.mp h₂
  obtain ⟨hisDir, hs₃⟩ := of_query_ok hp.spells hdirectory
  rw [hs₃] at h₃
  obtain ⟨_, s₄, hrmtree, h₄⟩ := bind_ok_iff.mp h₃
  obtain ⟨_, u, hupper, hsave⟩ := bind_ok_iff.mp h₄
  have hnofile : s₂.isFile q = false := by
    cases file with
    | false =>
        cases hremove
        exact hisFile
    | true =>
        have hremoved := of_update_ok hp.spells hremove
        rw [if_pos hisFile, Option.some_inj] at hremoved
        have hq : q ≠ [] := by
          rintro rfl
          cases hisFile
        rw [← hremoved, FileTree.isFile, FileTree.get?_removeTree hq, if_pos List.prefix_rfl]
  have hgone : ∀ x, s₄.fileAt (q ++ x) = none := by
    intro x
    cases directory with
    | false =>
        cases hrmtree
        exact fileAt_below_eq_none hnofile hisDir x
    | true =>
        have hremoved := of_update_ok hp.spells hrmtree
        split at hremoved
        · next hdir =>
            cases hremoved
            exact FileTree.fileAt_eq_none_of_get?
              (by rw [FileTree.get?_removeTree hdir.2, if_pos (List.prefix_append q x)])
        · cases hremoved
  have hdirs : filesStay.rel s₄ u := by
    refine (keeps_when fun _ => ?_ : Py.Prog.Keeps filesStay (when _ _)).of_ok hupper
    exact keeps_bind keeps_isdir fun _ => keeps_when fun _ => filesStay_makedirs
  refine ⟨u, fun x => (hdirs _).trans (hgone x), ?_⟩
  obtain ⟨flags, u', hflags, hstored⟩ := bind_ok_iff.mp hsave
  simp only [reads, unpack_flag] at hflags
  cases hflags
  have hdrop : ((0 : UInt8) :: content).drop (calcsize .native [.bool]) = content := rfl
  simpa [hdrop, hmembers] using hstored

/-- The archive of a directory, named from the storage root. -/
theorem archive_eq (h : RequestHandler) (targetPath : Str) :
    archive env h targetPath =
      packFiles env.cwd targetPath (getPath env ".".toList h.storagePath) >>= fun members =>
        return env.zipBytes members := by
  have habs := (normal_getPath env ".".toList h.storagePath).spells.abs
  have hstart : join targetPath (getPath env ".".toList h.storagePath)
      = getPath env ".".toList h.storagePath := if_pos habs
  simp only [archive, packFiles, hstart, bind_assoc]

/-- What a Download sends: a flag and the content of the file, or of the archive. -/
theorem of_downloadRoute_ok {h : RequestHandler} {path : Str} {routed : Routed} {s t : State}
    (hlayer : h.request.downloadRequestLayer = some ⟨path⟩)
    (hroute : downloadRoute env h s = .ok (some routed) t) :
    inStorage env path h.storagePath = .ok true ∧ ∃ (isFile : Bool) (content : Bytes) (fs : FileTree),
      (if isFile then s.fs.isFile (targetOf env path h.storagePath)
        else s.fs.isDir (targetOf env path h.storagePath)) = true ∧
      (if isFile then readFile env.cwd (getPath env path h.storagePath)
        else archive env h (getPath env path h.storagePath)) s.fs = .ok content fs ∧
      routed.data = some ((if isFile then 1 else 0) :: content) := by
  have hspells := (normal_getPath env path h.storagePath).spells
  simp only [downloadRoute, hlayer] at hroute
  obtain ⟨o, s₁, hprobe, hrest⟩ := bind_ok_iff.mp hroute
  obtain ⟨fs, hfs, hs₁⟩ := zoom_ok_iff.mp hprobe
  cases o with
  | none =>
      obtain ⟨_, u, -, hend⟩ := bind_ok_iff.mp hrest
      cases hend
  | some isFile =>
      obtain ⟨hkind, hsame⟩ := of_probe_ok hspells hfs
      have hs : s₁ = s := by
        rw [hs₁, hsame]
        rfl
      rw [hs] at hrest
      obtain ⟨legal, hlegal⟩ := inStorage_total env path h.storagePath
      simp only [lift_ok_bind hlegal] at hrest
      cases legal with
      | false =>
          obtain ⟨_, u, -, hend⟩ := bind_ok_iff.mp hrest
          cases hend
      | true =>
          have hflag : pack .native [.bool] [isFile.toNat] = .ok [if isFile then 1 else 0] := by
            cases isFile <;> rfl
          simp only [lift_ok_bind hflag] at hrest
          obtain ⟨content, s₂, hcontent, hend⟩ := bind_ok_iff.mp hrest
          obtain ⟨fs', hfs', -⟩ := zoom_ok_iff.mp hcontent
          obtain ⟨requestID, s₃, -, hrouted⟩ := bind_ok_iff.mp hend
          cases hrouted
          exact ⟨hlegal, isFile, content, fs', hkind, hfs', rfl⟩

/-- What a Download of a directory sends. -/
theorem of_downloadRoute {h : RequestHandler} {path : Str} {routed : Routed} {s t : State}
    (hlayer : h.request.downloadRequestLayer = some ⟨path⟩)
    (hdir : s.fs.isFile (targetOf env path h.storagePath) = false)
    (hroute : downloadRoute env h s = .ok (some routed) t) :
    s.fs.isDir (targetOf env path h.storagePath) = true ∧ ∃ members fs,
      packFiles env.cwd (getPath env path h.storagePath)
        (getPath env ".".toList h.storagePath) s.fs = .ok members fs ∧
      routed.data = some (0 :: env.zipBytes members) := by
  obtain ⟨-, isFile, content, fs, hkind, hcontent, hdata⟩ := of_downloadRoute_ok hlayer hroute
  cases isFile with
  | true =>
      have hisFile : s.fs.isFile (targetOf env path h.storagePath) = true := hkind
      rw [hdir] at hisFile
      cases hisFile
  | false =>
      rw [if_neg (by simp), archive_eq] at hcontent
      obtain ⟨members, u, hmembers, hbytes⟩ := bind_ok_iff.mp hcontent
      cases hbytes
      exact ⟨hkind, members, _, hmembers, hdata⟩

/-- What an upload of a directory sends. -/
theorem of_loadUpload {targetName destination : Str} {command : Command} {s t : FileTree}
    (hdir : s.isDir (comps (abspath host.cwd targetName)) = true)
    (h : loadUpload host targetName destination s = .ok (some command) t) :
    ∃ members u, resolve host.cwd s targetName = .ok (comps (abspath host.cwd targetName)) ∧
      packFiles host.cwd targetName (join targetName ".".toList) s = .ok members u ∧
      command = .upload false (host.zipBytes members) destination := by
  unfold loadUpload at h
  obtain ⟨file, s₁, hfile, h₁⟩ := bind_ok_iff.mp h
  cases file with
  | true =>
      obtain ⟨-, q, hres, hisFile⟩ := of_isfileTyped_true hfile
      rw [eq_comps_abspath_of_resolve host.cwd_abs host.cwd_plain hres,
        FileTree.isFile_eq_false hdir] at hisFile
      cases hisFile
  | false =>
      have hs₁ : s₁ = s := (keeps_isfileTyped (F := unchanged)).of_ok hfile
      rw [hs₁] at h₁
      obtain ⟨directory, s₂, hdirectory, h₂⟩ := bind_ok_iff.mp h₁
      cases directory with
      | false => cases h₂
      | true =>
          obtain ⟨hres, -, hs₂⟩ := of_query_true host.cwd_abs host.cwd_plain hdirectory
          rw [hs₂] at h₂
          obtain ⟨members, u, hmembers, hcommand⟩ := bind_ok_iff.mp h₂
          cases hcommand
          exact ⟨members, _, hres, hmembers, rfl⟩

/-- Where nothing is, clearing the destination leaves the files. -/
theorem filesStay_clearDestination {now : UInt64} {destination : Str} {s t : FileTree}
    (hfresh : s.get? (comps (abspath host.cwd destination)) = none)
    (h : clearDestination host now destination s = .ok () t) : filesStay.rel s t := by
  unfold clearDestination at h
  obtain ⟨file, s₁, hfile, h₁⟩ := bind_ok_iff.mp h
  cases file with
  | true =>
      obtain ⟨-, q, hres, hisFile⟩ := of_isfileTyped_true hfile
      rw [eq_comps_abspath_of_resolve host.cwd_abs host.cwd_plain hres, FileTree.isFile,
        hfresh] at hisFile
      cases hisFile
  | false =>
      have hs₁ : s₁ = s := (keeps_isfileTyped (F := unchanged)).of_ok hfile
      rw [hs₁] at h₁
      obtain ⟨_, s₂, hskip, h₂⟩ := bind_ok_iff.mp h₁
      cases hskip
      obtain ⟨directory, s₃, hdirectory, h₃⟩ := bind_ok_iff.mp h₂
      cases directory with
      | true =>
          have hisDir := (of_query_true host.cwd_abs host.cwd_plain hdirectory).2.1
          rw [FileTree.isDir, hfresh] at hisDir
          cases hisDir
      | false =>
          have hs₃ : s₃ = s := (keeps_isdir (F := unchanged)).of_ok hdirectory
          rw [hs₃] at h₃
          obtain ⟨_, s₄, hskip', h₄⟩ := bind_ok_iff.mp h₃
          cases hskip'
          exact (keeps_bind keeps_isdir fun _ => keeps_when fun _ => filesStay_mkdir).of_ok h₄

-- ============================================================================
-- The round trip
-- ============================================================================

/-- `upload_command` stores what is at `targetName` at `path`: the client loads it, and
    the server, when it has the whole body, carries `post_upload` out. -/
inductive Stores (env : Env) (host : Host) (targetName path storagePath : Str)
    (client : FileTree) : State → Prop
  | intro {command : Command} {u : FileTree} {h : RequestHandler} {now : UInt64} {s₀ s : State}
      (loads : loadUpload host targetName path client = .ok (some command) u)
      (layer : h.request.uploadRequestLayer = some ⟨path⟩) (root : h.storagePath = storagePath)
      (stored : postUpload env now h command.body s₀ = .ok () s) :
      Stores env host targetName path storagePath client s

/-- `download_command` fetches `path` into `destination`: the client clears the
    destination, the server routes the request, and the client saves what it gets. -/
inductive Fetches (env : Env) (host : Host) (path storagePath destination : Str) (s : State)
    (client : FileTree) : FileTree → Prop
  | intro {h : RequestHandler} {routed : Routed} {t : State} {data : Bytes} {now now' : UInt64}
      {u client' : FileTree} (clears : clearDestination host now destination client = .ok () u)
      (layer : h.request.downloadRequestLayer = some ⟨path⟩) (root : h.storagePath = storagePath)
      (routes : downloadRoute env h s = .ok (some routed) t) (sends : routed.data = some data)
      (saves : saveDownload host now' destination data u = .ok () client') :
      Fetches env host path storagePath destination s client client'

/-- A stored directory has the files of the one that was uploaded. -/
theorem fileAt_stored {targetName path storagePath : Str} {client : FileTree} {s : State}
    (hup : ReadsBack host.zipBytes env.zipMembers)
    (hdir : client.isDir (host.place targetName) = true)
    (h : Stores env host targetName path storagePath client s) (x : Path) :
    s.fs.fileAt (targetOf env path storagePath ++ x) =
      client.fileAt (host.place targetName ++ x) := by
  obtain @⟨command, u, r, now, s₀, _, hloads, hlayer, rfl, hstored⟩ := h
  obtain ⟨members, u', hres, hpack, rfl⟩ := of_loadUpload hdir hloads
  unfold postUpload at hstored
  obtain ⟨_, s₁, -, hrest⟩ := bind_ok_iff.mp hstored
  simp only [hlayer] at hrest
  obtain ⟨fs, hstore, hs⟩ := zoom_ok_iff.mp hrest
  have hfs : s.fs = fs := by rw [hs]; rfl
  have hp := normal_getPath env path r.storagePath
  obtain ⟨v, hempty, hunpack⟩ := extractall_of_storeUpload hp (hup members) hstore
  have hbase : comps (abspath env.cwd (getPath env path r.storagePath)) =
      targetOf env path r.storagePath := by
    rw [hp.abspath_eq]
    rfl
  rw [← hbase] at hempty
  have hfiles := fileAt_unpacked host.cwd_abs host.cwd_plain env.cwd_abs env.cwd_plain hres hdir
    (comps_abspath_join_dot host.cwd_abs host.cwd_plain targetName) (List.append_nil _).symm
    hpack hempty hunpack x
  rw [hfs, ← hbase, hfiles, if_pos List.nil_prefix, List.length_nil, List.drop_zero]

/-- A fetched directory has the files of the stored one, under their paths from the
    storage root. -/
theorem fileAt_fetched {path storagePath destination : Str} {s : State}
    {client client' : FileTree} {up : Path} (hdown : ReadsBack env.zipBytes host.zipMembers)
    (hup : targetOf env path storagePath = rootOf env storagePath ++ up)
    (hdir : s.fs.isFile (targetOf env path storagePath) = false)
    (hfresh : client.get? (host.place destination) = none)
    (h : Fetches env host path storagePath destination s client client') (x : Path) :
    client'.fileAt (host.place destination ++ x) =
      if up <+: x then s.fs.fileAt (targetOf env path storagePath ++ x.drop up.length)
      else none := by
  obtain @⟨r, routed, t, data, now, now', u, _, hclears, hlayer, rfl, hroutes, hsends, hsaves⟩ := h
  obtain ⟨hisDir, members, fs, hpack, hdata⟩ := of_downloadRoute hlayer hdir hroutes
  rw [hdata, Option.some_inj] at hsends
  subst hsends
  have hstays := filesStay_clearDestination hfresh hclears
  obtain ⟨flags, u', hflags, hsaved⟩ := bind_ok_iff.mp hsaves
  simp only [reads, unpack_flag] at hflags
  cases hflags
  have hdrop : ((0 : UInt8) :: env.zipBytes members).drop (calcsize .native [.bool])
      = env.zipBytes members := rfl
  have hunpack : ZipFile.extractall host.cwd now' destination (written members) u
      = .ok () client' := by
    simpa [hdrop, hdown members] using hsaved
  have hempty : ∀ y, u.fileAt (host.place destination ++ y) = none := fun y =>
    (hstays _).trans (fileAt_below_eq_none (by rw [FileTree.isFile, hfresh])
      (by rw [FileTree.isDir, hfresh]) y)
  have hn := normal_getPath env path r.storagePath
  have hres := resolve_of_spells env.cwd s.fs hn.spells
  have hstart : comps (abspath env.cwd (getPath env ".".toList r.storagePath))
      = rootOf env r.storagePath := by
    rw [(normal_getPath env ".".toList r.storagePath).abspath_eq, ← targetOf_dot]
    rfl
  exact fileAt_unpacked env.cwd_abs env.cwd_plain host.cwd_abs host.cwd_plain hres hisDir hstart
    hup hpack hempty hunpack x

/-- Fetching a stored directory gives its files back exactly when it was stored at the
    storage root: below it, every file comes back under the path it was stored at. -/
theorem directory_roundTrip_iff {targetName path storagePath destination : Str}
    {client client' client'' : FileTree} {s s' : State}
    (hup : ReadsBack host.zipBytes env.zipMembers) (hdown : ReadsBack env.zipBytes host.zipMembers)
    (hlegal : inStorage env path storagePath = .ok true)
    (hdir : client.isDir (host.place targetName) = true)
    (hfile : ∃ x, client.fileAt (host.place targetName ++ x) ≠ none)
    (hstores : Stores env host targetName path storagePath client s) (hsame : s'.fs = s.fs)
    (hfresh : client'.get? (host.place destination) = none)
    (hfetches : Fetches env host path storagePath destination s' client' client'') :
    (∀ x, client''.fileAt (host.place destination ++ x) =
      client.fileAt (host.place targetName ++ x)) ↔
      targetOf env path storagePath = rootOf env storagePath := by
  have hstored := fileAt_stored hup hdir hstores
  obtain ⟨up, hbelow⟩ := prefix_of_inStorage env hlegal
  have hnofile : s'.fs.isFile (targetOf env path storagePath) = false := by
    have hroot := hstored []
    rw [List.append_nil, List.append_nil, FileTree.fileAt_eq_none_of_isDir hdir] at hroot
    rw [hsame, ← Bool.not_eq_true, FileTree.isFile_iff]
    rintro ⟨data, u, hthere⟩
    rw [FileTree.fileAt, hthere] at hroot
    cases hroot
  have hfetched := fileAt_fetched hdown hbelow.symm hnofile hfresh hfetches
  rw [hsame] at hfetched
  simp only [hstored] at hfetched
  constructor
  · intro hequal
    -- a file would have another one `up` below it, and that one another
    have hdeeper : ∀ x, client.fileAt (host.place targetName ++ x) ≠ none →
        client.fileAt (host.place targetName ++ (up ++ x)) ≠ none := by
      intro x hx
      rw [← hequal, hfetched, if_pos (List.prefix_append _ _), List.drop_left]
      exact hx
    by_cases hnil : up = []
    · rw [← hbelow, hnil, List.append_nil]
    · exfalso
      obtain ⟨n, hn⟩ := client.exists_length_le
      have hdeep : ∀ k, ∃ x, client.fileAt (host.place targetName ++ x) ≠ none ∧ k ≤ x.length := by
        intro k
        induction k with
        | zero =>
            obtain ⟨x, hx⟩ := hfile
            exact ⟨x, hx, Nat.zero_le _⟩
        | succ k ih =>
            obtain ⟨x, hx, hlen⟩ := ih
            have hpos := List.length_pos_of_ne_nil hnil
            refine ⟨up ++ x, hdeeper x hx, ?_⟩
            rw [List.length_append]
            omega
      obtain ⟨x, hx, hlen⟩ := hdeep (n + 1)
      obtain ⟨data, hdata⟩ := Option.ne_none_iff_exists'.mp hx
      have hle := hn _ (FileTree.get?_ne_none_of_fileAt hdata)
      rw [List.length_append] at hle
      omega
  · intro hroot x
    have hnil : up = [] := by
      rw [hroot] at hbelow
      simpa using hbelow
    rw [hfetched, hnil, if_pos List.nil_prefix, List.length_nil, List.drop_zero]

-- ============================================================================
-- One directory
-- ============================================================================

/-- The archive that holds `yo` under a short name, as `ZipFile` writes it. -/
def yoArchive (name : Str) : Bytes :=
  let n := UInt8.ofNat name.length
  [80, 75, 3, 4, 20, 0, 0, 0, 0, 0, 0, 0, 33, 0, 137, 172, 41, 98, 2, 0, 0, 0, 2, 0, 0, 0,
    n, 0, 0, 0] ++ encode name ++ encode "yo".toList ++
  [80, 75, 1, 2, 20, 3, 20, 0, 0, 0, 0, 0, 0, 0, 33, 0, 137, 172, 41, 98, 2, 0, 0, 0, 2, 0, 0, 0,
    n, 0, 0, 0, 0, 0, 0, 0, 0, 0, 0, 0, 128, 1, 0, 0, 0, 0] ++ encode name ++
  [80, 75, 5, 6, 0, 0, 0, 0, 1, 0, 1, 0, 46 + n, 0, 0, 0, 32 + n, 0, 0, 0, 0, 0]

def yoMembers (name : Str) : List (Str × Bytes) := [(name, encode "yo".toList)]

/-- Names and contents as numbers. -/
def rows (members : List (Str × Bytes)) : List (List ℕ × List ℕ) :=
  members.map fun (name, data) => (name.map Char.toNat, data.map UInt8.toNat)

def ofRows (rows : List (List ℕ × List ℕ)) : List (Str × Bytes) :=
  rows.map fun (name, data) => (name.map Char.ofNat, data.map UInt8.ofNat)

theorem ofRows_rows (members : List (Str × Bytes)) : ofRows (rows members) = members := by
  rw [ofRows, rows, List.map_map]
  conv_rhs => rw [← List.map_id members]
  apply List.map_congr_left
  rintro ⟨name, data⟩ -
  have hdata : (data.map UInt8.toNat).map UInt8.ofNat = data := by
    simp [List.map_map, Function.comp_def]
  simp only [Function.comp_apply, map_ofNat_toNat, hdata, id]

/-- The archives of the runs below are written as `ZipFile` does, any other one as a
    byte that starts no archive and a number. -/
def writeArchive (members : List (Str × Bytes)) : Bytes :=
  if members = yoMembers "sub/b".toList then yoArchive "sub/b".toList
  else if members = yoMembers "x/sub/b".toList then yoArchive "x/sub/b".toList
  else 0xff :: List.replicate (Encodable.encode (rows members)) 0

def readArchive (content : Bytes) : Option (List ZipFile.Member) :=
  if content = yoArchive "sub/b".toList then some (written (yoMembers "sub/b".toList))
  else if content = yoArchive "x/sub/b".toList then some (written (yoMembers "x/sub/b".toList))
  else (Encodable.decode (content.length - 1)).map fun rows => written (ofRows rows)

theorem readsBack_writeArchive : ReadsBack writeArchive readArchive := by
  intro members
  have hfirst : ∀ name bs, 0xff :: bs ≠ yoArchive name := by
    intro name bs h
    rw [yoArchive, List.append_assoc] at h
    cases h
  have hdiffer : yoArchive "x/sub/b".toList ≠ yoArchive "sub/b".toList := by decide +kernel
  by_cases hone : members = yoMembers "sub/b".toList
  · rw [writeArchive, if_pos hone, readArchive, if_pos rfl, hone]
  · rw [writeArchive, if_neg hone]
    by_cases htwo : members = yoMembers "x/sub/b".toList
    · rw [if_pos htwo, readArchive, if_neg hdiffer, if_pos rfl, htwo]
    · rw [if_neg htwo, readArchive, if_neg (hfirst _ _), if_neg (hfirst _ _), List.length_cons,
        List.length_replicate, Nat.add_sub_cancel, Encodable.encodek, Option.map_some, ofRows_rows]

/-- A storage application and a client with archives. -/
def yoEnv : Env := { (default : Env) with zipMembers := readArchive, zipBytes := writeArchive }

def yoHost : Host where
  cwd := "/home".toList
  cwd_abs := rfl
  cwd_plain := by decide
  zipMembers := readArchive
  zipBytes := writeArchive

/-- The directory `/home/docs` with one file, `sub/b`. -/
def yoTree : FileTree :=
  final ((do
    makedirs yoHost.cwd 0 "docs/sub".toList
    writeFile yoHost.cwd 0 "docs/sub/b".toList (encode "yo".toList)) FileTree.empty)

def yoState : State := { fs := installed yoEnv, lastRequestID := 0, log := [] }

def yoUpload (path : Str) : RequestHandler :=
  { request := { basicLayer := ⟨0, .request, .upload⟩, uploadRequestLayer := some ⟨path⟩ }
    clientAddress := (['c'], 8001)
    storagePath := publicPath yoEnv }

def yoDownload (path : Str) : RequestHandler :=
  { request := { basicLayer := ⟨0, .request, .download⟩, downloadRequestLayer := some ⟨path⟩ }
    clientAddress := (['c'], 8001)
    storagePath := publicPath yoEnv }

/-- `docs` is uploaded to `path`, and `path` is downloaded to `./out`. -/
def yoRun (path : Str) : Option (State × FileTree) :=
  match loadUpload yoHost "docs".toList path yoTree with
  | .ok (some command) _ =>
      match postUpload yoEnv 0 (yoUpload path) command.body yoState with
      | .ok () s =>
          match clearDestination yoHost 0 "./out".toList yoTree,
              downloadRoute yoEnv (yoDownload path) s with
          | .ok () u, .ok (some ⟨_, _, some data⟩) _ =>
              match saveDownload yoHost 0 "./out".toList data u with
              | .ok () t => some (s, t)
              | .error _ _ => none
          | _, _ => none
      | .error _ _ => none
  | _ => none

theorem stores_fetches_of_yoRun {path : Str} {s : State} {t : FileTree}
    (h : yoRun path = some (s, t)) :
    Stores yoEnv yoHost "docs".toList path (publicPath yoEnv) yoTree s ∧
      Fetches yoEnv yoHost path (publicPath yoEnv) "./out".toList s yoTree t := by
  unfold yoRun at h
  split at h
  · next command u hloads =>
      split at h
      · next s' hstored =>
          split at h
          · next v _ _ data w hclears hroutes =>
              split at h
              · next t' hsaves =>
                  cases h
                  exact ⟨.intro hloads rfl rfl hstored, .intro hclears rfl rfl hroutes rfl hsaves⟩
              · cases h
          · cases h
      · cases h
  · cases h

theorem directory_roundTrip_iff_yoRun :
    ∃ s t, yoRun ".".toList = some (s, t) ∧ ∀ x, t.fileAt (yoHost.place "./out".toList ++ x) =
      yoTree.fileAt (yoHost.place "docs".toList ++ x) := by
  have hrun : (yoRun ".".toList).isSome = true := by decide +kernel
  obtain ⟨⟨s, t⟩, hst⟩ := Option.isSome_iff_exists.mp hrun
  obtain ⟨hstores, hfetches⟩ := stores_fetches_of_yoRun hst
  have hfile : yoTree.fileAt (yoHost.place "docs".toList ++ ["sub".toList, "b".toList]) ≠ none := by
    decide +kernel
  exact ⟨s, t, hst, (directory_roundTrip_iff readsBack_writeArchive readsBack_writeArchive
    (by decide +kernel) (by decide +kernel) ⟨_, hfile⟩ hstores rfl (by decide +kernel)
    hfetches).mpr (by decide +kernel)⟩

/-- Stored below the root, the file comes back under `x/sub/b`. -/
theorem not_directory_roundTrip_below :
    ¬ ∀ (env : Env) (host : Host) (targetName path storagePath destination : Str)
      (client client' client'' : FileTree) (s s' : State),
      ReadsBack host.zipBytes env.zipMembers → ReadsBack env.zipBytes host.zipMembers →
      inStorage env path storagePath = .ok true →
      client.isDir (host.place targetName) = true →
      (∃ x, client.fileAt (host.place targetName ++ x) ≠ none) →
      Stores env host targetName path storagePath client s → s'.fs = s.fs →
      client'.get? (host.place destination) = none →
      Fetches env host path storagePath destination s' client' client'' →
      ∀ x, client''.fileAt (host.place destination ++ x) =
        client.fileAt (host.place targetName ++ x) := by
  intro h
  have hrun : (yoRun "x".toList).map (fun (_, t) =>
      t.fileAt (yoHost.place "./out".toList ++ ["sub".toList, "b".toList])) = some none := by
    decide +kernel
  obtain ⟨⟨s, t⟩, hst, hnone⟩ := Option.map_eq_some_iff.mp hrun
  obtain ⟨hstores, hfetches⟩ := stores_fetches_of_yoRun hst
  have hfile : yoTree.fileAt (yoHost.place "docs".toList ++ ["sub".toList, "b".toList]) ≠ none := by
    decide +kernel
  have hequal := h yoEnv yoHost _ _ _ _ _ _ t s s readsBack_writeArchive readsBack_writeArchive
    (by decide +kernel) (by decide +kernel) ⟨_, hfile⟩ hstores rfl (by decide +kernel) hfetches
    ["sub".toList, "b".toList]
  exact hfile (hequal.symm.trans hnone)

end Net
end NetworkingFinal
