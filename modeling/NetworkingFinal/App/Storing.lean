/-
  NetworkingFinal.App.Storing

  Whether storing an upload is all or nothing.

  `postUpload` removes what is at its path, makes the directories above, and then
  reads the data; none of it is undone when a later part fails.  `Storable` is the
  condition under which the whole of it succeeds, and `Untouched` the condition
  under which nothing has been changed when it does not.
-/
import NetworkingFinal.App.RootSurvival
import NetworkingFinal.Py.Unpacking

namespace NetworkingFinal
namespace App

open Py Py.Prog Py.Os Py.PosixPath Py.Struct Ftp

variable {env : Env}

/-- At `q` is what was uploaded: the file, or the members of the archive and nothing
    else. -/
def Holds (env : Env) (q : Path) (data : Bytes) (t : FileTree) : Prop :=
  match data with
  | [] => False
  | flag :: content =>
      if flag = 0 then
        ∃ members, env.zipMembers content = some members ∧ ZipFile.Unpacked q members t
      else t.fileAt q = some content

/-- `post_upload` finishes and the target `q` holds the upload, or it fails and the tree
    below the storage root is as it was. -/
def AllOrNothing (env : Env) (now : UInt64) (h : RequestHandler) (q : Path) (data : Bytes)
    (s : State) : Prop :=
  match postUpload env now h data s with
  | .ok () t => Holds env q data t.fs
  | .error _ t => ∀ p, rootOf env h.storagePath <+: p → t.fs.get? p = s.fs.get? p

/-- The data can be saved at `q`: it tells a file from a directory, and the archive of a
    directory can be unpacked. -/
def Savable (env : Env) (q : Path) (data : Bytes) : Prop :=
  match data with
  | [] => False
  | flag :: content =>
      if flag = 0 then
        ∃ members, env.zipMembers content = some members ∧ ZipFile.Unpackable q members
      else ∀ c ∈ q, LegalName c

/-- Saving the data begins by putting something at `q`, if it does not fail at once. -/
def Begins (env : Env) (q : Path) (data : Bytes) : Prop :=
  match data with
  | [] => False
  | flag :: content => flag = 0 ∧ ∃ members, env.zipMembers content = some members ∧
      ZipFile.Begins q members

/-- The upload is stored: there is a directory above the target, or one can be made, and
    the data can be saved. -/
structure Storable (env : Env) (q : Path) (data : Bytes) (s : FileTree) : Prop where
  ready : Ready s q.dropLast
  saved : Savable env q data

/-- Nothing is changed before the upload fails: nothing is removed, no directory can be
    made above the target, and nothing is put there. -/
structure Untouched (env : Env) (r q : Path) (data : Bytes) (s : FileTree) : Prop where
  absent : s.get? q = none
  above : ∀ p, r <+: p → p <+: q.dropLast → ¬ Makes s p
  nothing : Ready s q.dropLast → ¬ Begins env q data

-- ============================================================================
-- Saving the data
-- ============================================================================

section Saving

variable {now : UInt64} {targetPath : Str} {q : Path} {data : Bytes} {v : FileTree}

theorem saveUpload_cons (flag : UInt8) (content : Bytes) :
    saveUpload env now targetPath (flag :: content) =
      if flag = 0 then
        match env.zipMembers content with
        | none => throw .badZipFile
        | some members => ZipFile.extractall env.cwd now targetPath members
      else writeFile env.cwd now targetPath content := by
  have hflag : (reads fun _ => unpackFrom .native [.bool] (flag :: content) 0 :
      Prog FileTree (List Nat)) = pure [if flag.toNat = 0 then 0 else 1] := by
    rw [unpack_flag]
    rfl
  have hdrop : (flag :: content).drop (calcsize .native [.bool]) = content := rfl
  unfold saveUpload
  rw [hflag, pure_bind, hdrop]
  by_cases hzero : flag = 0
  · rw [if_pos hzero, hzero]
    rfl
  · have hne : flag.toNat ≠ 0 := fun h => hzero (UInt8.toNat_inj.mp h)
    rw [if_neg hzero, if_neg hne, if_pos (by decide)]

/-- Saving where nothing is, in a directory. -/
theorem wp_saveUpload (env : Env) (now : UInt64) (data : Bytes) (hp : Spells targetPath q)
    (hq : q ≠ []) (hdir : v.isDir q.dropLast = true) (hnone : v.get? q = none) :
    wp (saveUpload env now targetPath data) (fun _ t => Savable env q data ∧ Holds env q data t)
      (fun _ t => ¬ Savable env q data ∧ (Begins env q data → t.get? q ≠ none) ∧
        (¬ Begins env q data → ∀ p, t.get? p = v.get? p)) v := by
  cases data with
  | nil => exact ⟨id, False.elim, fun _ _ => rfl⟩
  | cons flag content =>
      rw [saveUpload_cons]
      refine wp_ite.mpr ⟨fun hzero => ?_, fun hne => ?_⟩
      · simp only [Savable, Holds, Begins, hzero, if_true, true_and]
        cases hmembers : env.zipMembers content with
        | none =>
            have hno : ∀ P : List ZipFile.Member → Prop,
                ¬ ∃ ms, (none : Option (List ZipFile.Member)) = some ms ∧ P ms := by simp
            exact ⟨hno _, fun h => (hno _ h).elim, fun _ _ => rfl⟩
        | some members =>
            have hiff : ∀ P : List ZipFile.Member → Prop,
                (∃ ms, some members = some ms ∧ P ms) ↔ P members := fun P => by simp
            simp only [hiff]
            exact ZipFile.wp_extractall_absent hp hq hdir hnone members
      · simp only [Savable, Holds, Begins, hne, if_false, false_and]
        by_cases hlegal : ∀ c ∈ q, LegalName c
        · have hcreatable : v.Creatable q := ⟨hq, hdir, by rw [FileTree.isDir, hnone], hlegal⟩
          have hput : put (.file content now) v q = some (v.insert q _ hcreatable) :=
            dif_pos hcreatable
          rw [writeFile, ZipFile.update_of_spells hp, updateAt, wp_writes]
          simp only [hput]
          refine ⟨fun t ht => ?_, fun _ h => by cases h⟩
          cases ht
          exact ⟨hlegal, by rw [Archive.fileAt_of_put hput, if_pos rfl]⟩
        · have hput : put (.file content now) v q = none := dif_neg fun h => hlegal h.2.2.2
          rw [writeFile, ZipFile.update_of_spells hp, updateAt, wp_writes]
          simp only [hput]
          exact ⟨fun _ h => (by cases h), fun _ _ => ⟨hlegal, False.elim, fun _ _ => trivial⟩⟩

/-- What is at `q` is as it was, or has been made at the time `now`. -/
def stamps (now : UInt64) (q : Path) : Frame FileTree where
  rel s t := t.get? q = s.get? q ∨ t.get? q = some (.dir now) ∨ ∃ d, t.get? q = some (.file d now)
  refl _ := Or.inl rfl
  trans h h' := by
    rcases h' with h' | h'
    · rw [h']
      exact h
    · exact Or.inr h'

theorem kindsStay_saveUpload (env : Env) (now : UInt64) (targetPath : Str) (data : Bytes) :
    Keeps kindsStay (saveUpload env now targetPath data) := by
  refine keeps_bind (keeps_reads _) fun _ => keeps_ite (fun _ => kindsStay_writeFile) fun _ => ?_
  split
  · exact keeps_throw _
  · exact ZipFile.kindsStay_extractall _

theorem stamps_saveUpload (env : Env) (now : UInt64) (targetPath : Str) (q : Path)
    (data : Bytes) : Keeps (stamps now q) (saveUpload env now targetPath data) := by
  have hput : ∀ (e : Entry) s t p, (e = .dir now ∨ ∃ d, e = .file d now) →
      put e s p = some t → (stamps now q).rel s t := by
    intro e s t p he h
    by_cases hqp : q = p
    · refine Or.inr ?_
      rw [get?_of_put h, if_pos hqp]
      simpa using he
    · exact Or.inl (by rw [get?_of_put h, if_neg hqp])
  have hwrite : ∀ p data, Keeps (stamps now q) (writeFile env.cwd now p data) := fun p data =>
    keeps_update_any fun s t _ h => hput _ s t _ (Or.inr ⟨_, rfl⟩) h
  have hmkdir : ∀ s t p, mkdirAt now s p = some t → (stamps now q).rel s t := fun s t p h =>
    hput _ s t p (Or.inl rfl) (put_of_mkdirAt h).2
  refine keeps_bind (keeps_reads _) fun flag => keeps_ite (fun _ => hwrite _ _) fun _ => ?_
  split
  · exact keeps_throw _
  · refine keeps_each fun m _ => keeps_bind (keeps_query _) fun _ => ?_
    refine keeps_bind (keeps_when fun _ => keeps_makedirs_of hmkdir) fun _ => keeps_ite ?_ ?_
    · exact fun _ => keeps_bind keeps_isdir fun _ => keeps_when fun _ =>
        keeps_update_any fun s t p h => hmkdir s t p h
    · intro _
      split
      · exact keeps_throw _
      · exact keeps_bind (hwrite _ _) fun _ => keeps_when fun _ => keeps_throw _

/-- Storing an upload where something is: when it fails, that is gone or made anew. -/
theorem wp_storeUpload_there (env : Env) (now : UInt64) (data : Bytes) (hp : Normal targetPath q)
    (hq : q ≠ []) (hthere : v.get? q ≠ none) :
    wp (storeUpload env now targetPath data)
      (fun _ t => Storable env q data v ∧ Holds env q data t)
      (fun _ t => ¬ Storable env q data v ∧ (t.get? q = none ∨ t.get? q = some (.dir now) ∨
        ∃ d, t.get? q = some (.file d now))) v := by
  have hgone : (v.removeTree q).get? q = none := by
    rw [FileTree.get?_removeTree hq, if_pos List.prefix_rfl]
  have hup : v.isDir q.dropLast = true := FileTree.isDir_dropLast_of_get? hthere
  have hdir : (v.removeTree q).isDir q.dropLast = true :=
    dirStays_removeTree hq (not_prefix_dropLast hq) hup
  have hsave := wp_saveUpload env now data hp.spells hq hdir hgone
  have hstamps := stamps_saveUpload env now targetPath q data (v.removeTree q)
  rw [wp] at hsave ⊢
  rw [storeUpload_eq hp hq hthere]
  cases hrun : saveUpload env now targetPath data (v.removeTree q) with
  | ok a t =>
      rw [hrun] at hsave
      exact ⟨⟨Or.inl hup, hsave.1⟩, hsave.2⟩
  | error e t =>
      rw [hrun] at hsave hstamps
      refine ⟨fun h => hsave.1 h.saved, hstamps.imp (fun h => ?_) id⟩
      rw [final_error] at h
      rw [h, hgone]

/-- The directories above the target, made unless they are there. -/
def makeUpper (env : Env) (now : UInt64) (targetPath : Str) : Prog FileTree Unit :=
  when (dirname targetPath ≠ []) do
    let there ← isdir env.cwd (dirname targetPath)
    when (!there) (makedirs env.cwd now (dirname targetPath))

theorem wp_makeUpper (hp : Normal targetPath q) :
    wp (makeUpper env now targetPath)
      (fun _ u => Made now v q.dropLast u ∧ Ready v q.dropLast)
      (fun _ u => Made now v q.dropLast u ∧ ¬ Ready v q.dropLast) v := by
  have hup : dirname targetPath ≠ [] := by
    intro h
    have habs := hp.normal_dirname.spells.abs
    rw [h] at habs
    cases habs
  rw [makeUpper, isdir, ZipFile.query_of_spells hp.normal_dirname.spells,
    ZipFile.makedirs_of_spells hp.normal_dirname.spells]
  refine wp_when.mpr ⟨fun _ => ?_, fun h => absurd (of_decide_eq_false h) (not_not.mpr hup)⟩
  rw [wp_bind, wp_reads]
  refine ⟨fun there hthere => ?_, fun _ h => by cases h⟩
  cases hthere
  refine wp_when.mpr ⟨fun _ => wp_makedirsAt now v _, fun hdir => ?_⟩
  rw [Bool.not_eq_false'] at hdir
  exact ⟨made_self (FileTree.get?_ne_none_of_isDir hdir), Or.inl hdir⟩

/-- Where nothing is, nothing is removed. -/
theorem storeUpload_absent_eq (hp : Spells targetPath q) (hnone : v.get? q = none) :
    storeUpload env now targetPath data v =
      (makeUpper env now targetPath >>= fun _ => saveUpload env now targetPath data) v := by
  have hfile : isfile env.cwd targetPath v = .ok false v := by
    rw [isfile, ZipFile.query_of_spells hp, reads, FileTree.isFile, hnone]
  have hdirectory : isdir env.cwd targetPath v = .ok false v := by
    rw [isdir, ZipFile.query_of_spells hp, reads, FileTree.isDir, hnone]
  have hskip : ∀ x : Prog FileTree Unit, when false x v = .ok () v := fun _ => rfl
  unfold storeUpload
  rw [bind_of_ok hfile, bind_of_ok (hskip _), bind_of_ok hdirectory, bind_of_ok (hskip _)]
  rfl

/-- Storing an upload where nothing is: when it fails, the directories above the target
    may have been made, and something at it. -/
theorem wp_storeUpload_absent (env : Env) (now : UInt64) (data : Bytes) (hp : Normal targetPath q)
    (hq : q ≠ []) (hnone : v.get? q = none) :
    wp (storeUpload env now targetPath data)
      (fun _ t => Storable env q data v ∧ Holds env q data t)
      (fun _ t => ¬ Storable env q data v ∧
        ∃ u, Made now v q.dropLast u ∧ kindsStay.rel u t ∧
          (Ready v q.dropLast → Begins env q data → t.get? q ≠ none) ∧
          (¬ (Ready v q.dropLast ∧ Begins env q data) → ∀ p, t.get? p = u.get? p)) v := by
  rw [wp, storeUpload_absent_eq hp.spells hnone, ← wp, wp_bind]
  refine wp_mono (wp_makeUpper hp) (fun _ u hu => ?_) fun _ u hu => ?_
  · have hunone : u.get? q = none :=
      (hu.1.get?_of_outside (not_prefix_dropLast hq)).trans hnone
    have hsave := wp_saveUpload env now data hp.spells hq
      (hu.1.isDir_iff.mpr hu.2) hunone
    have hkinds := kindsStay_saveUpload env now targetPath data u
    rw [wp] at hsave ⊢
    cases hrun : saveUpload env now targetPath data u with
    | ok a t =>
        rw [hrun] at hsave
        exact ⟨⟨hu.2, hsave.1⟩, hsave.2⟩
    | error e t =>
        rw [hrun] at hsave hkinds
        exact ⟨fun h => hsave.1 h.saved, u, hu.1, hkinds, fun _ => hsave.2.1,
          fun h => hsave.2.2 fun hbegins => h ⟨hu.2, hbegins⟩⟩
  · exact ⟨fun h => hu.2 h.ready, u, hu.1, kindsStay.refl u, fun h => absurd h hu.2,
      fun _ _ => rfl⟩

end Saving

-- ============================================================================
-- All or nothing
-- ============================================================================

section Storing

variable {now : UInt64} {targetPath : Str} {q r : Path} {data : Bytes} {v t : FileTree}

/-- An upload that can be stored is stored. -/
theorem storeUpload_ok (hp : Normal targetPath q) (hq : q ≠ [])
    (h : storeUpload env now targetPath data v = .ok () t) :
    Storable env q data v ∧ Holds env q data t := by
  by_cases hnone : v.get? q = none
  · have hwp := wp_storeUpload_absent env now data hp hq hnone
    rw [wp, h] at hwp
    exact hwp
  · have hwp := wp_storeUpload_there env now data hp hq hnone
    rw [wp, h] at hwp
    exact hwp

theorem not_storable_of_error {e : Exn} (hp : Normal targetPath q) (hq : q ≠ [])
    (h : storeUpload env now targetPath data v = .error e t) : ¬ Storable env q data v := by
  by_cases hnone : v.get? q = none
  · have hwp := wp_storeUpload_absent env now data hp hq hnone
    rw [wp, h] at hwp
    exact hwp.1
  · have hwp := wp_storeUpload_there env now data hp hq hnone
    rw [wp, h] at hwp
    exact hwp.1

/-- What a failed upload leaves, when nothing is changed before it fails. -/
theorem Untouched.get?_of_error {e : Exn} (hu : Untouched env r q data v)
    (hp : Normal targetPath q) (hq : q ≠ [])
    (h : storeUpload env now targetPath data v = .error e t) {p : Path} (hr : r <+: p) :
    t.get? p = v.get? p := by
  have hwp := wp_storeUpload_absent env now data hp hq hu.absent
  rw [wp, h] at hwp
  obtain ⟨-, u, hmade, -, -, hsame⟩ := hwp
  rw [hsame fun hbegins => hu.nothing hbegins.1 hbegins.2, hmade p, if_neg]
  exact fun hmakes => hu.above p hr hmakes.1 hmakes.2

/-- A failed upload that leaves everything below the root as it was, whatever the clock
    shows, has changed nothing. -/
theorem untouched_of_error (hp : Normal targetPath q) (hq : q ≠ []) (hr : r <+: q)
    (hnot : ¬ Storable env q data v)
    (h : ∀ now e t, storeUpload env now targetPath data v = .error e t →
      ∀ p, r <+: p → t.get? p = v.get? p) : Untouched env r q data v := by
  have hfails : ∀ now, ∃ e t, storeUpload env now targetPath data v = .error e t := by
    intro now
    cases hrun : storeUpload env now targetPath data v with
    | ok a t => exact absurd (storeUpload_ok hp hq hrun).1 hnot
    | error e t => exact ⟨e, t, rfl⟩
  have habsent : v.get? q = none := by
    by_contra hthere
    -- the entry has one time, and would have any
    have hstamp : ∀ now, v.get? q = some (.dir now) ∨ ∃ d, v.get? q = some (.file d now) := by
      intro now
      obtain ⟨e, t, hrun⟩ := hfails now
      have hwp := wp_storeUpload_there env now data hp hq hthere
      rw [wp, hrun] at hwp
      have hmade := hwp.2
      rw [h now e t hrun q hr] at hmade
      exact hmade.resolve_left hthere
    rcases hstamp 0 with h0 | ⟨d, h0⟩ <;> rcases hstamp 1 with h1 | ⟨d', h1⟩ <;>
      · rw [h0] at h1
        cases h1
  obtain ⟨e, t, hrun⟩ := hfails 0
  have hwp := wp_storeUpload_absent env 0 data hp hq habsent
  rw [wp, hrun] at hwp
  obtain ⟨-, u, hmade, hkinds, hbegins, -⟩ := hwp
  refine ⟨habsent, fun p hrp hpq hmakes => ?_, fun hready hbegin => ?_⟩
  · have hdir : u.get? p ≠ none := by
      rw [hmade p, if_pos ⟨hpq, hmakes⟩]
      exact Option.some_ne_none _
    refine ZipFile.there_of_kindsStay hkinds hdir ?_
    rw [h 0 e t hrun p hrp, hmakes.1]
  · exact hbegins hready hbegin ((h 0 e t hrun q hr).trans habsent)

end Storing

/-- **All or nothing**: storing an upload at an accepted path leaves, whatever the clock
    shows, either the upload or the tree as it was exactly when the upload can be stored,
    or fails before anything is changed. -/
theorem all_or_nothing_iff {h : RequestHandler} {layer : UploadRequestLayer}
    (hroot : StorageRoot env h.storagePath) (hlayer : h.request.uploadRequestLayer = some layer)
    (hlegal : inStorage env layer.path h.storagePath = .ok true) (data : Bytes) (s : State) :
    (∀ now, AllOrNothing env now h (targetOf env layer.path h.storagePath) data s) ↔
      Storable env (targetOf env layer.path h.storagePath) data s.fs ∨
        Untouched env (rootOf env h.storagePath) (targetOf env layer.path h.storagePath) data
          s.fs := by
  have hp := normal_getPath env layer.path h.storagePath
  have hr := prefix_of_inStorage env hlegal
  have hq : targetOf env layer.path h.storagePath ≠ [] := fun hnil =>
    hroot.ne_nil (List.prefix_nil.mp (hnil ▸ hr))
  have hpost : ∀ now, AllOrNothing env now h (targetOf env layer.path h.storagePath) data s ↔
      wp (storeUpload env now (getPath env layer.path h.storagePath) data)
        (fun _ t => Holds env (targetOf env layer.path h.storagePath) data t)
        (fun _ t => ∀ p, rootOf env h.storagePath <+: p → t.get? p = s.fs.get? p) s.fs := by
    intro now
    have hunfold : postUpload env now h data = (record (.postUpload h.requestID data) >>= fun _ =>
        onFiles (storeUpload env now (getPath env layer.path h.storagePath) data)) := by
      rw [postUpload, hlayer]
    have hwp : AllOrNothing env now h (targetOf env layer.path h.storagePath) data s ↔
        wp (postUpload env now h data)
          (fun _ t => Holds env (targetOf env layer.path h.storagePath) data t.fs)
          (fun _ t => ∀ p, rootOf env h.storagePath <+: p → t.fs.get? p = s.fs.get? p) s := by
      unfold AllOrNothing wp
      cases postUpload env now h data s <;> rfl
    rw [hwp, hunfold, wp_bind, record, wp_modify, onFiles, wp_zoom]
    rfl
  simp only [hpost]
  constructor
  · intro hall
    by_cases hstorable : Storable env (targetOf env layer.path h.storagePath) data s.fs
    · exact Or.inl hstorable
    · refine Or.inr (untouched_of_error hp hq hr hstorable fun now e t hrun => ?_)
      have hnow := hall now
      rwa [wp, hrun] at hnow
  · intro hcond now
    rw [wp]
    cases hrun : storeUpload env now (getPath env layer.path h.storagePath) data s.fs with
    | ok a t => exact (storeUpload_ok hp hq hrun).2
    | error e t =>
        rcases hcond with hstorable | huntouched
        · exact absurd hstorable (not_storable_of_error hp hq hrun)
        · exact fun p => huntouched.get?_of_error hp hq hrun

/-- An upload of nothing to the path, as `create_handler` stores it when the announced
    size is 0. -/
def uploadNothing (name : Str) : RequestHandler :=
  anonymous
    { basicLayer := ⟨0, .request, .upload⟩, uploadRequestLayer := some ⟨name⟩ }

/-- A fresh installation with one public file, `a`. -/
def installedFile : State where
  fs := installedWith default ['a'] [1, 2, 3]
  lastRequestID := 0
  log := []

/-- The data of a file of one byte is stored, over the public file too. -/
theorem all_or_nothing_iff_overwrite :
    AllOrNothing default 0 (uploadNothing ['a'])
      (targetOf default ['a'] (publicPath default)) [1, 7] installedFile :=
  (all_or_nothing_iff (h := uploadNothing ['a']) (Or.inl rfl) rfl
    (by decide +kernel) [1, 7] installedFile).mpr (Or.inl ⟨Or.inl (by decide +kernel), by
      show ∀ c ∈ targetOf default ['a'] (publicPath default), LegalName c
      decide +kernel⟩) 0

/-- An announced size of 0 for the public file: it is removed, and then there is no flag to
    read. -/
theorem not_all_or_nothing :
    ¬ ∀ (env : Env) (h : RequestHandler) (layer : UploadRequestLayer) (now : UInt64)
      (data : Bytes) (s : State), StorageRoot env h.storagePath →
      h.request.uploadRequestLayer = some layer →
      inStorage env layer.path h.storagePath = .ok true →
      AllOrNothing env now h (targetOf env layer.path h.storagePath) data s := by
  intro hall
  have h := hall default (uploadNothing ['a']) ⟨['a']⟩ 0 [] installedFile (Or.inl rfl) rfl
    (by decide +kernel)
  have hcheck : (match postUpload default 0 (uploadNothing ['a']) [] installedFile with
      | .ok _ _ => false
      | .error _ t => (t.fs.get? (targetOf default ['a'] (publicPath default))).isNone) = true := by
    decide +kernel
  have hthere : (installedFile.fs.get? (targetOf default ['a'] (publicPath default))).isSome =
      true := by
    decide +kernel
  rw [AllOrNothing] at h
  cases hrun : postUpload default 0 (uploadNothing ['a']) [] installedFile with
  | ok a t =>
      rw [hrun] at hcheck
      cases hcheck
  | error e t =>
      rw [hrun] at h hcheck
      have hkept := h (targetOf default ['a'] (publicPath default)) (by decide +kernel)
      rw [← hkept, Option.isSome_iff_ne_none] at hthere
      exact hthere (Option.isNone_iff_eq_none.mp hcheck)

end App
end NetworkingFinal
