/-
  NetworkingFinal.App.FileStore

  The storage application as a store of files.

  - `changesOf`: the abstract effect of one step of the process, read off the
    request: a completed upload or an accepted Delete replaces what is at its path.
  - `fileAt_of_storeUpload`, `fileAt_of_deleteDirectory`: the file work of a request
    is that change, for the files at every path.
-/
import NetworkingFinal.App.FileWork
import NetworkingFinal.App.Storing
import NetworkingFinal.Lib.Store

namespace NetworkingFinal
namespace App

open Py Py.Prog Py.Os Py.PosixPath Py.Struct Ftp Lib

variable {env : Env}

-- ============================================================================
-- The abstract store
-- ============================================================================

/-- The files that an upload puts at and below `q`. -/
def uploadedFiles (env : Env) (q : Path) : Bytes → Path → Option Bytes
  | [], _ => none
  | flag :: content, p =>
      if flag = 0 then
        match env.zipMembers content with
        | none => none
        | some members => ZipFile.fileIn members (p.drop q.length)
      else if p = q then some content
      else none

/-- A completed upload replaces what is at its path. -/
def uploadChange (env : Env) (h : UploadRequestHandler) : List (Change Str Bytes) :=
  match h.request.uploadRequestLayer with
  | none => []
  | some layer =>
      let q := targetOf env layer.path h.storagePath
      [⟨q, uploadedFiles env q (assembled h.segments)⟩]

/-- An accepted Delete request removes what is at its path. -/
def deleteChange (env : Env) (request : Pocket) (storagePath : Str) (fs : FileTree) :
    List (Change Str Bytes) :=
  match request.deleteRequestLayer with
  | none => []
  | some layer =>
      let q := targetOf env layer.path storagePath
      if inStorage env layer.path storagePath = .ok true ∧ (fs.get? q).isSome then
        [⟨q, fun _ => none⟩]
      else []

/-- What a Request changes in the store. -/
def requestChange (env : Env) (amb : Ambient) (s : State) (request : Pocket) (a : Addr) :
    List (Change Str Bytes) :=
  match request.requestLayer with
  | none => []
  | some layer =>
      match chooseStorage env amb layer a s with
      | .ok (some storagePath) t =>
          if request.basicLayer.pocketSubType = .delete then
            deleteChange env request storagePath t.fs
          else []
      | _ => []

/-- What one step of the process changes in the store. -/
def changesOf (env : Env) (s : Server) : Event → List (Change Str Bytes)
  | .recv data a amb =>
      match Pocket.fromBytes data with
      | .error _ => []
      | .ok p =>
          if p.basicLayer.pocketType = .request then requestChange env amb s.app p a
          else
            match completedBy s.handlers p with
            | none => []
            | some h => uploadChange env h
  | .timeout => []
  | .task _ _ => []

-- ============================================================================
-- Files elsewhere
-- ============================================================================

/-- No file outside `r` is made, changed or removed. -/
def filesOutside (r : Path) : Frame FileTree where
  rel s t := ∀ p, ¬ r <+: p → t.fileAt p = s.fileAt p
  refl _ _ _ := rfl
  trans h h' p hp := (h' p hp).trans (h p hp)

section Outside

variable {now : UInt64} {targetPath : Str} {q r : Path} {data : Bytes} {v t : FileTree}

theorem filesOutside_of_filesStay {α : Type} {x : Prog FileTree α}
    (h : Keeps Archive.filesStay x) : Keeps (filesOutside r) x :=
  h.mono fun _ _ hrel p _ => hrel p

theorem filesOutside_removeTree (hr : r <+: q) (hq : q ≠ []) :
    (filesOutside r).rel v (v.removeTree q) := by
  intro p hp
  rw [FileTree.fileAt, FileTree.fileAt, FileTree.get?_removeTree hq,
    if_neg fun hqp => hp (hr.trans hqp)]

theorem filesOutside_remove (hp : Spells targetPath q) (hr : r <+: q) :
    Keeps (filesOutside r) (remove env.cwd targetPath) := by
  refine keeps_update hp fun s t h => ?_
  split at h
  · next hfile =>
      cases h
      refine filesOutside_removeTree hr ?_
      rintro rfl
      cases hfile
  · cases h

theorem filesOutside_rmtree (hp : Spells targetPath q) (hr : r <+: q) :
    Keeps (filesOutside r) (rmtree env.cwd targetPath) := by
  refine keeps_update hp fun s t h => ?_
  split at h
  · next hdir =>
      cases h
      exact filesOutside_removeTree hr hdir.2
  · cases h

theorem filesOutside_writeFile (hp : Spells targetPath q) (hr : r <+: q) :
    Keeps (filesOutside r) (writeFile env.cwd now targetPath data) := by
  refine keeps_update hp fun s t h p hout => ?_
  rw [Archive.fileAt_of_put h, if_neg]
  rintro rfl
  exact hout hr

theorem filesOutside_extractall (hp : Spells targetPath q) (hr : r <+: q)
    (members : List ZipFile.Member) :
    Keeps (filesOutside r) (ZipFile.extractall env.cwd now targetPath members) := by
  refine keeps_each fun m _ => ?_
  have hn := (ZipFile.normal_target m hp).spells
  refine keeps_bind (keeps_query _) fun _ => keeps_bind (keeps_when fun _ =>
    filesOutside_of_filesStay Archive.filesStay_makedirs) fun _ => keeps_ite (fun _ => ?_) ?_
  · exact keeps_bind keeps_isdir fun _ => keeps_when fun _ =>
      filesOutside_of_filesStay Archive.filesStay_mkdir
  · intro _
    split
    · exact keeps_throw _
    · exact keeps_bind (filesOutside_writeFile hn (hr.trans (List.prefix_append _ _))) fun _ =>
        keeps_when fun _ => keeps_throw _

theorem filesOutside_storeUpload (hp : Normal targetPath q) :
    Keeps (filesOutside q) (storeUpload env now targetPath data) := by
  apply keeps_storeUpload_of
  · exact filesOutside_remove hp.spells (List.prefix_refl q)
  · exact filesOutside_rmtree hp.spells (List.prefix_refl q)
  · exact keeps_bind (keeps_query _) fun _ => keeps_when fun _ =>
      filesOutside_of_filesStay Archive.filesStay_makedirs
  · exact fun _ => filesOutside_writeFile hp.spells (List.prefix_refl q)
  · exact filesOutside_extractall hp.spells (List.prefix_refl q)

end Outside

-- ============================================================================
-- Storing and deleting
-- ============================================================================

section Storing

variable {now : UInt64} {targetPath : Str} {q : Path} {data : Bytes} {v t : FileTree}

/-- Nothing is stored in place of the root of the filesystem. -/
theorem ne_nil_of_storeUpload (hp : Normal targetPath q)
    (h : storeUpload env now targetPath data v = .ok () t) : q ≠ [] := by
  rintro rfl
  obtain ⟨file, u, hfile, h⟩ := bind_ok_iff.mp h
  obtain ⟨rfl, rfl⟩ := of_query_ok hp.spells hfile
  obtain ⟨_, w, hskip, h⟩ := bind_ok_iff.mp h
  cases hskip
  obtain ⟨directory, w, hdirectory, h⟩ := bind_ok_iff.mp h
  obtain ⟨rfl, rfl⟩ := of_query_ok hp.spells hdirectory
  obtain ⟨_, w, hremoved, -⟩ := bind_ok_iff.mp h
  have hgone := of_update_ok hp.spells (show rmtree env.cwd targetPath _ = .ok () w from hremoved)
  rw [if_neg fun h => h.2 rfl] at hgone
  cases hgone

/-- What is at and below the target holds the upload, and nothing else. -/
theorem fileAt_of_holds {p : Path} (h : Holds env q data t) (hp : q <+: p) :
    t.fileAt p = uploadedFiles env q data p := by
  cases data with
  | nil => exact h.elim
  | cons flag content =>
      simp only [Holds] at h
      rw [uploadedFiles]
      split at h
      · next hzero =>
          obtain ⟨members, hmembers, hunpacked⟩ := h
          obtain ⟨rel, rfl⟩ := hp
          rw [if_pos hzero, hmembers, hunpacked.files]
          simp only [List.drop_left]
      · next hne =>
          rw [if_neg hne]
          by_cases hpq : p = q
          · rw [if_pos hpq, hpq, h]
          · rw [if_neg hpq]
            apply FileTree.fileAt_eq_none_of_get?
            by_contra hthere
            have hdir := FileTree.isDir_of_prefix hp (Ne.symm hpq) hthere
            rw [FileTree.isDir_eq_false (FileTree.isFile_of_fileAt h)] at hdir
            cases hdir

/-- A completed upload replaces what is at and below its target. -/
theorem fileAt_of_storeUpload (hp : Normal targetPath q)
    (h : storeUpload env now targetPath data v = .ok () t) (p : Path) :
    t.fileAt p = putAll p (v.fileAt p) [⟨q, uploadedFiles env q data⟩] := by
  have hholds := (storeUpload_ok hp (ne_nil_of_storeUpload hp h) h).2
  rw [putAll_singleton]
  split
  · next hcover => exact fileAt_of_holds hholds hcover
  · next hout => exact (filesOutside_storeUpload hp).of_ok h p hout

theorem get?_removeEntry {path : Str} {c : Str} (hp : Spells path (q ++ [c]))
    (h : removeEntry env path v = .ok () t) (p : Path) :
    t.get? p = if q ++ [c] <+: p then none else v.get? p := by
  have hremoved : (v.removeTree (q ++ [c])).get? p =
      if q ++ [c] <+: p then none else v.get? p := FileTree.get?_removeTree (by simp) p
  obtain ⟨file, u, hfile, h⟩ := bind_ok_iff.mp h
  obtain ⟨hkind, rfl⟩ := of_query_ok hp hfile
  cases file with
  | true =>
      have hgone := of_update_ok hp (show remove env.cwd path u = .ok () t from h)
      rw [if_pos hkind, Option.some_inj] at hgone
      rw [← hgone, hremoved]
  | false =>
      obtain ⟨directory, w, hdirectory, h⟩ := bind_ok_iff.mp h
      obtain ⟨hdir, rfl⟩ := of_query_ok hp hdirectory
      cases directory with
      | true =>
          have hgone := of_update_ok hp (show rmtree env.cwd path w = .ok () t from h)
          rw [if_pos ⟨hdir, by simp⟩, Option.some_inj] at hgone
          rw [← hgone, hremoved]
      | false =>
          cases h
          -- neither a file nor a directory: there is nothing
          have hnone : t.get? (q ++ [c]) = none := by
            by_contra hthere
            rw [FileTree.isDir_of_get? hthere hkind] at hdir
            cases hdir
          split
          · next hbelow =>
              by_contra hthere
              by_cases heq : q ++ [c] = p
              · exact hthere (heq ▸ hnone)
              · have hup := FileTree.isDir_of_prefix hbelow heq hthere
                rw [hup] at hdir
                cases hdir
          · rfl

/-- Removing the entries of a directory one after the other. -/
theorem get?_removeEntries {names : List Str} (hp : Spells targetPath q)
    (hplain : ∀ name ∈ names, Plain name)
    (h : each (fun name => removeEntry env (targetPath ++ ['/'] ++ name)) names v = .ok () t)
    (p : Path) :
    t.get? p = if ∃ name ∈ names, q ++ [name] <+: p then none else v.get? p := by
  induction names generalizing v with
  | nil =>
      cases h
      simp
  | cons name names ih =>
      obtain ⟨_, u, hfirst, hrest⟩ := bind_ok_iff.mp h
      have hchild := hp.child (hplain name List.mem_cons_self)
      rw [ih (fun c hc => hplain c (List.mem_cons_of_mem _ hc)) hrest,
        get?_removeEntry hchild hfirst]
      by_cases hhere : q ++ [name] <+: p <;> simp [hhere]

theorem fileAt_congr {p : Path} (h : t.get? p = v.get? p) : t.fileAt p = v.fileAt p := by
  rw [FileTree.fileAt, FileTree.fileAt, h]

theorem fileAt_of_removeTree (hq : q ≠ []) (p : Path) :
    (v.removeTree q).fileAt p = putAll p (v.fileAt p) [⟨q, fun _ => none⟩] := by
  have hget := FileTree.get?_removeTree (t := v) hq p
  rw [putAll_singleton]
  split
  · next hcover =>
      rw [if_pos hcover] at hget
      exact FileTree.fileAt_eq_none_of_get? hget
  · next hout =>
      rw [if_neg hout] at hget
      exact fileAt_congr hget

/-- Deleting a directory: at and below it there is no file any more. -/
theorem fileAt_of_deleteDirectory {h : RequestHandler} (hp : Normal targetPath q)
    (hdir : v.isDir q = true) (hdelete : deleteDirectory env h targetPath v = .ok () t)
    (p : Path) : t.fileAt p = putAll p (v.fileAt p) [⟨q, fun _ => none⟩] := by
  rw [deleteDirectory, apply_ite (fun x : Prog FileTree Unit => x v)] at hdelete
  split at hdelete
  · obtain ⟨names, u, hnames, hentries⟩ := bind_ok_iff.mp hdelete
    have hplain := plain_of_listdir hnames
    obtain ⟨q', hq', hlist, rfl⟩ := fetch_ok_iff.mp hnames
    rw [resolve_of_spells env.cwd u hp.spells, Except.ok.injEq] at hq'
    subst hq'
    rw [if_pos hdir, Option.some_inj] at hlist
    have hget := get?_removeEntries hp.spells hplain hentries p
    rw [putAll_singleton]
    split at hget
    · next hbelow =>
        obtain ⟨name, -, hname⟩ := hbelow
        rw [if_pos ((List.prefix_append q [name]).trans hname)]
        exact FileTree.fileAt_eq_none_of_get? hget
    · next hno =>
        split
        · next hcover =>
            -- only the directory itself is left
            rw [fileAt_congr hget]
            obtain ⟨rel, rfl⟩ := hcover
            cases rel with
            | nil =>
                rw [List.append_nil]
                exact FileTree.fileAt_eq_none_of_isDir hdir
            | cons name rest =>
                have hbelow : q ++ [name] <+: q ++ name :: rest :=
                  (List.prefix_append_right_inj q).mpr (List.prefix_append [name] rest)
                have hunlisted : name ∉ names := fun hmem => hno ⟨name, hmem, hbelow⟩
                rw [← hlist, Archive.mem_listdir_iff, not_not] at hunlisted
                apply FileTree.fileAt_eq_none_of_get?
                by_contra hthere
                by_cases heq : q ++ [name] = q ++ name :: rest
                · exact hthere (heq ▸ hunlisted)
                · have hup := FileTree.isDir_of_prefix hbelow heq hthere
                  exact FileTree.get?_ne_none_of_isDir hup hunlisted
        · exact fileAt_congr hget
  · have hgone := of_update_ok hp.spells (show rmtree env.cwd targetPath v = .ok () t from hdelete)
    split at hgone
    · next hd =>
        rw [Option.some_inj] at hgone
        rw [← hgone]
        exact fileAt_of_removeTree hd.2 p
    · cases hgone

end Storing

end App
end NetworkingFinal
