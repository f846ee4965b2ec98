/-
  NetworkingFinal.App.Accounts

  The account store: the account file, which maps user names to ids and passwords,
  and the directories `private/<id>/`.

  - `AccountEvent` / `accountStep`: `create_handler` on a request, and anything else the
    process does in between.
  - `AccountInv`: the ids are distinct and each names a directory, so a drawn id that
    names no directory is new.
  - `account_safety`: who gets which directory, over every run.

  Of json and jsbeautifier the results use that loading returns what was dumped
  (`Lossless`), and of uuid4 that an id is the name of a directory.
-/
import NetworkingFinal.App.Confinement
import NetworkingFinal.App.Opening
import NetworkingFinal.Lib.Runs
import Mathlib.Logic.Equiv.List

namespace NetworkingFinal
namespace App

open Py Py.Prog Py.Os Py.PosixPath Ftp Lib

variable (env : Env)

-- ============================================================================
-- The store
-- ============================================================================

/-- Where the account file is. -/
def accountFile : Path := rootOf env (dataFile env)

/-- The directory that holds the directories of the users. -/
def privateRoot : Path := rootOf env (env.config.APP_STORAGE_PATH ++ STORAGE_PRIVATE)

/-- What the account file holds. -/
def storedAccounts (fs : FileTree) : Option StorageData :=
  match fs.get? (accountFile env) with
  | some (.file content _) => env.loadStorage content
  | _ => none

/-- The account of a user. -/
def account (fs : FileTree) (userName : Str) : Option UserData :=
  (storedAccounts env fs).bind fun storageData => storageData.users.get? userName

/-- Loading returns what was dumped. -/
def Lossless : Prop :=
  ∀ storageData, env.loadStorage (env.dumpStorage storageData) = some storageData

/-- The private directory and the directories in it are still there. -/
def PrivateKept (fs fs' : FileTree) : Prop :=
  ∀ p, p = privateRoot env ∨ p.dropLast = privateRoot env → fs.isDir p = true → fs'.isDir p = true

variable {env} {fs fs' : FileTree}

theorem dataFile_eq : dataFile env = env.config.APP_STORAGE_PATH ++ '/' :: "data.json".toList := by
  rfl

theorem accountFile_eq :
    accountFile env = rootOf env env.config.APP_STORAGE_PATH ++ ["data.json".toList] := by
  rw [accountFile, dataFile_eq, rootOf_child env.config.path_ne (by decide)]

theorem rootOf_userDirectory_id {id : Str} (hid : Plain id) :
    rootOf env (userDirectory env id) = privateRoot env ++ [id] := by
  rw [← rootOf_slash (by simp [userDirectory]), rootOf_userDirectory hid, privateRoot]

theorem privateRoot_eq :
    privateRoot env = rootOf env env.config.APP_STORAGE_PATH ++ ["private".toList] :=
  rootOf_private

/-- The account file lies in no storage root. -/
theorem not_prefix_accountFile {storagePath : Str} (h : StorageRoot env storagePath) :
    ¬ rootOf env storagePath <+: accountFile env := by
  rw [accountFile_eq]
  rcases h with rfl | ⟨id, hid, rfl⟩
  · rw [rootOf_publicPath, List.prefix_append_right_inj]
    decide
  · intro hbelow
    have hlen := hbelow.length_le
    rw [rootOf_userDirectory hid, rootOf_private] at hlen
    simp only [List.length_append, List.length_singleton] at hlen
    omega

theorem accountFile_ne_userDirectory {id : Str} (hid : Plain id) :
    accountFile env ≠ rootOf env (userDirectory env id) := by
  rw [accountFile_eq, rootOf_userDirectory_id hid, privateRoot_eq]
  intro heq
  have hlen := congrArg List.length heq
  simp only [List.length_append, List.length_singleton] at hlen
  omega

theorem userDirectory_inj {id id' : Str}
    (h : userDirectory env id ++ ['/'] = userDirectory env id' ++ ['/']) : id = id' := by
  have hdirectory := List.append_cancel_right h
  simp only [userDirectory] at hdirectory
  exact List.append_cancel_left hdirectory

/-- The public directory is nobody's. -/
theorem publicPath_ne_userDirectory (id : Str) :
    publicPath env ≠ userDirectory env id ++ ['/'] := by
  intro h
  simp only [publicPath, userDirectory, List.append_assoc] at h
  have hrest := List.append_cancel_left h
  rw [STORAGE_PUBLIC_eq, STORAGE_PRIVATE_eq] at hrest
  have hsecond := congrArg (fun s : Str => s[2]?) hrest
  simp at hsecond

theorem storedAccounts_congr (h : fs'.get? (accountFile env) = fs.get? (accountFile env)) :
    storedAccounts env fs' = storedAccounts env fs := by
  rw [storedAccounts, storedAccounts, h]

theorem PrivateKept.of_kindsStay (h : kindsStay.rel fs fs') : PrivateKept env fs fs' :=
  fun p _ hp => (h p).1 hp

/-- The private directory lies in the storage. -/
theorem StorageReady.of_users (h : fs.isDir (privateRoot env) = true) : StorageReady env fs := by
  obtain ⟨u, hu⟩ := FileTree.isDir_iff.mp h
  have hstorage := FileTree.isDir_dropLast_of_get? (t := fs) (p := privateRoot env) (by simp [hu])
  rw [privateRoot_eq, List.dropLast_concat] at hstorage
  exact ⟨hstorage, h⟩

/-- A kept private directory keeps the storage in place. -/
theorem StorageReady.kept (h : StorageReady env fs) (hkept : PrivateKept env fs fs') :
    StorageReady env fs' :=
  .of_users (hkept _ (Or.inl rfl) h.users)

-- ============================================================================
-- Choosing the storage
-- ============================================================================

/-- The accounts are the same and no directory is gone. -/
structure Harmless (env : Env) (fs fs' : FileTree) : Prop where
  file : fs'.get? (accountFile env) = fs.get? (accountFile env)
  kept : kindsStay.rel fs fs'

theorem Harmless.refl (env : Env) (fs : FileTree) : Harmless env fs fs := ⟨rfl, kindsStay.refl fs⟩

/-- What the registration of a user under the id leaves behind. -/
structure Registration (env : Env) (userName password id : Str) (fs fs' : FileTree) : Prop where
  plain : Plain id
  fresh : fs.get? (privateRoot env ++ [id]) = none
  accounts : ∃ storageData, storedAccounts env fs = some storageData ∧
    storageData.users.get? userName = none ∧
    ∃ now, fs'.get? (accountFile env) = some (.file
      (env.dumpStorage ⟨storageData.users.set userName ⟨id, password⟩⟩) now)
  directory : fs'.isDir (privateRoot env ++ [id]) = true
  kept : kindsStay.rel fs fs'

/-- The user name is empty, or the password is not that of the account. -/
def Rejected (env : Env) (fs : FileTree) (layer : RequestLayer) : Prop :=
  layer.anonymous = false ∧ (layer.userName = [] ∨
    ∃ userData, account env fs layer.userName = some userData ∧ userData.password ≠ layer.password)

/-- The storage path chosen for a request, and the files then. -/
inductive Chosen (env : Env) (layer : RequestLayer) (fs : FileTree) :
    Option Str → FileTree → Prop where
  | anonymous (h : layer.anonymous = true) : Chosen env layer fs (some (publicPath env)) fs
  | rejected (h : Rejected env fs layer) : Chosen env layer fs none fs
  | known {userData : UserData} (hanonymous : layer.anonymous = false)
      (haccount : account env fs layer.userName = some userData)
      (hpassword : userData.password = layer.password) (hne : layer.userName ≠ []) :
      Chosen env layer fs (some (userDirectory env userData.id ++ ['/'])) fs
  | registered {id : Str} {fs' : FileTree} (hanonymous : layer.anonymous = false)
      (h : Registration env layer.userName layer.password id fs fs') (hne : layer.userName ≠ []) :
      Chosen env layer fs (some (userDirectory env id ++ ['/'])) fs'

/-- What is left when no storage was chosen because of an exception. -/
def Failed (env : Env) (layer : RequestLayer) (fs fs' : FileTree) : Prop :=
  fs' = fs ∨ (¬ Rejected env fs layer ∧ Harmless env fs fs')

theorem Failed.harmless {layer : RequestLayer} (h : Failed env layer fs fs') :
    Harmless env fs fs' := by
  rcases h with rfl | ⟨-, h⟩
  · exact Harmless.refl env fs'
  · exact h

theorem mem_of_freshId {ids : List Str} {s t : FileTree} {id : Str}
    (h : freshId env ids s = .ok id t) : id ∈ ids ∧ t = s := by
  induction ids generalizing s with
  | nil => cases h
  | cons id' ids ih =>
      obtain ⟨taken, u, htaken, h⟩ := bind_ok_iff.mp h
      obtain ⟨b, hb⟩ := query_total env.cwd (userDirectory env id') FileTree.isDir s
      have hsame : EStateM.Result.ok taken u = .ok b s := htaken.symm.trans hb
      cases hsame
      cases taken with
      | true =>
          obtain ⟨hmem, heq⟩ := ih h
          exact ⟨List.mem_cons_of_mem _ hmem, heq⟩
      | false =>
          cases h
          exact ⟨List.mem_cons_self, rfl⟩

theorem raises_state_freshId {ids : List Str} {s t : FileTree} {e : Exn}
    (h : freshId env ids s = .error e t) : t = s := by
  induction ids generalizing s with
  | nil =>
      cases h
      rfl
  | cons id' ids ih =>
      obtain ⟨b, hb⟩ := query_total env.cwd (userDirectory env id') FileTree.isDir s
      rw [freshId, isdir, bind_of_ok hb] at h
      cases b with
      | true => exact ih h
      | false => cases h

theorem wp_freshId {ids : List Str} {s : FileTree} :
    wp (freshId env ids) (fun id t => id ∈ ids ∧ t = s) (fun _ t => t = s) s := by
  unfold wp
  split
  · next h => exact mem_of_freshId h
  · next h => exact raises_state_freshId h

theorem wp_registerUser {amb : Ambient} {storageData : StorageData} {layer : RequestLayer}
    (huuids : ∀ id ∈ amb.uuids, Plain id) (hstored : storedAccounts env fs = some storageData)
    (hnew : storageData.users.get? layer.userName = none) :
    wp (registerUser env amb storageData layer)
      (fun id fs' => Registration env layer.userName layer.password id fs fs')
      (fun _ fs' => Harmless env fs fs') fs := by
  rw [registerUser, wp_bind]
  refine wp_mono wp_freshId (fun id fs₁ hid => ?_) (fun _ fs₁ hfs₁ => hfs₁ ▸ Harmless.refl env fs)
  have hplain := huuids id hid.1
  rw [hid.2, wp_bind]
  refine wp_update (fun q t hq hmk => ?_) fun _ => Harmless.refl env fs
  have hpath : q = privateRoot env ++ [id] := by
    rw [eq_comps_abspath_of_resolve env.cwd_abs env.cwd_plain hq, ← rootOf_userDirectory_id hplain]
    rfl
  subst hpath
  obtain ⟨hfresh, hput⟩ := put_of_mkdirAt hmk
  have hfile : t.get? (accountFile env) = fs.get? (accountFile env) := by
    rw [get?_of_put hput, if_neg]
    rw [← rootOf_userDirectory_id hplain]
    exact accountFile_ne_userDirectory hplain
  have hkept : kindsStay.rel fs t := kindsStay_mkdirAt hmk
  rw [wp_bind]
  refine wp_update (fun q u hq hwrite => ?_) fun _ => ⟨hfile, hkept⟩
  have hpath : q = accountFile env := eq_comps_abspath_of_resolve env.cwd_abs env.cwd_plain hq
  subst hpath
  have hkept' : kindsStay.rel t u := kindsStay_put hwrite fun _ => isFile_of_put hwrite
  exact {
    plain := hplain
    fresh := hfresh
    accounts := ⟨storageData, hstored, hnew, amb.now, by rw [get?_of_put hwrite, if_pos rfl]⟩
    directory := (hkept' _).1 (isDir_of_mkdirAt hmk)
    kept := kindsStay.trans hkept hkept' }

theorem wp_sendError_none {P : FileTree → Prop} {errorMessage : Str} {a : Addr} {s : State}
    {Q : Option Str → FileTree → Prop} (hQ : Q none s.fs) (hP : P s.fs) :
    wp (sendError errorMessage a >>= fun _ => pure none) (fun r t => Q r t.fs) (fun _ t => P t.fs)
      s := by
  rw [wp_bind, sendError, wp_sendto]
  exact ⟨fun _ _ => hQ, fun _ _ => hP⟩

theorem storedAccounts_of_readFile {s t : FileTree} {content : Bytes}
    (h : readFile env.cwd (dataFile env) s = .ok content t) :
    storedAccounts env s = env.loadStorage content ∧ t = s := by
  obtain ⟨q, hq, hcontent, rfl⟩ := fetch_ok_iff.mp h
  have hpath : q = accountFile env := eq_comps_abspath_of_resolve env.cwd_abs env.cwd_plain hq
  subst hpath
  refine ⟨?_, rfl⟩
  split at hcontent
  · next data updatedAt hget =>
      cases hcontent
      simp only [storedAccounts, hget]
  · cases hcontent

theorem wp_readAccounts {s : FileTree} {Q : Bytes → FileTree → Prop} {R : Exn → FileTree → Prop}
    (hQ : ∀ content, storedAccounts env s = env.loadStorage content → Q content s)
    (hR : ∀ e, R e s) : wp (readFile env.cwd (dataFile env)) Q R s := by
  cases h : readFile env.cwd (dataFile env) s with
  | ok content t =>
      obtain ⟨hstored, rfl⟩ := storedAccounts_of_readFile h
      rw [wp, h]
      exact hQ content hstored
  | error e t =>
      have hsame : t = s := by
        rw [readFile, fetch, reads] at h
        split at h
        · cases h
        · cases h
          rfl
      rw [wp, h, hsame]
      exact hR e

/-- What `create_handler` does before it opens the request. -/
theorem wp_chosen {amb : Ambient} {layer : RequestLayer} {a : Addr} {s : State}
    (huuids : ∀ id ∈ amb.uuids, Plain id) :
    wp (chooseStorage env amb layer a) (fun r t => Chosen env layer s.fs r t.fs)
      (fun _ t => Failed env layer s.fs t.fs) s := by
  have hrefl : Failed env layer s.fs s.fs := Or.inl rfl
  unfold chooseStorage
  refine wp_ite.mpr ⟨fun h => ?_, fun h => wp_ite.mpr ⟨fun hempty => ?_, fun hne => ?_⟩⟩
  · exact Chosen.anonymous h
  · exact wp_sendError_none (.rejected ⟨by simpa using h, Or.inl hempty⟩) hrefl
  · have hanonymous : layer.anonymous = false := by simpa using h
    rw [wp_bind, onFiles, wp_zoom]
    refine wp_readAccounts (fun content hstored => ?_) fun _ => hrefl
    show wp _ _ _ s
    split
    · exact hrefl
    · next storageData hload =>
        have hstored : storedAccounts env s.fs = some storageData := hstored.trans hload
        split
        · next userData huser =>
            have haccount : account env s.fs layer.userName = some userData := by
              rw [account, hstored]
              exact huser
            refine wp_ite.mpr ⟨fun hpassword => ?_, fun hpassword => ?_⟩
            · exact .known hanonymous haccount hpassword hne
            · exact wp_sendError_none
                (.rejected ⟨hanonymous, Or.inr ⟨userData, haccount, hpassword⟩⟩) hrefl
        · next hnew =>
            rw [wp_bind, onFiles, wp_zoom]
            have hnone : account env s.fs layer.userName = none := by
              rw [account, hstored]
              exact hnew
            refine wp_mono (wp_registerUser huuids hstored hnew) (fun id fs' hreg => ?_)
              fun _ _ ht => Or.inr ⟨?_, ht⟩
            · exact .registered hanonymous hreg hne
            · rintro ⟨-, hempty | ⟨userData, haccount, -⟩⟩
              · exact hne hempty
              · rw [hnone] at haccount
                cases haccount

-- ============================================================================
-- The invariant
-- ============================================================================

/-- Every account has a directory of its own. -/
structure AccountInv (env : Env) (fs : FileTree) : Prop where
  ready : StorageReady env fs
  loads : ∃ storageData, storedAccounts env fs = some storageData
  plain : ∀ name userData, account env fs name = some userData → Plain userData.id
  directory : ∀ name userData, account env fs name = some userData →
    fs.isDir (privateRoot env ++ [userData.id]) = true
  distinct : ∀ name name' userData userData', account env fs name = some userData →
    account env fs name' = some userData' → userData.id = userData'.id → name = name'

theorem account_congr (h : fs'.get? (accountFile env) = fs.get? (accountFile env)) (name : Str) :
    account env fs' name = account env fs name := by
  rw [account, account, storedAccounts_congr h]

theorem AccountInv.kept (h : AccountInv env fs)
    (hfile : fs'.get? (accountFile env) = fs.get? (accountFile env))
    (hkept : PrivateKept env fs fs') : AccountInv env fs' where
  ready := h.ready.kept hkept
  loads := by
    rw [storedAccounts_congr hfile]
    exact h.loads
  plain name userData haccount := by
    rw [account_congr hfile] at haccount
    exact h.plain name userData haccount
  directory name userData haccount := by
    rw [account_congr hfile] at haccount
    exact hkept _ (Or.inr List.dropLast_concat) (h.directory name userData haccount)
  distinct name name' userData userData' haccount haccount' := by
    rw [account_congr hfile] at haccount haccount'
    exact h.distinct name name' userData userData' haccount haccount'

/-- The accounts after a registration: one more. -/
theorem account_of_registration (hlossless : Lossless env) {userName password id : Str}
    (h : Registration env userName password id fs fs') (name : Str) :
    account env fs userName = none ∧
      account env fs' name =
        if name = userName then some ⟨id, password⟩ else account env fs name := by
  obtain ⟨storageData, hstored, hnew, now, hwritten⟩ := h.accounts
  have hstored' : storedAccounts env fs' =
      some ⟨storageData.users.set userName ⟨id, password⟩⟩ := by
    rw [storedAccounts, hwritten]
    exact hlossless _
  rw [account, account, account, hstored, hstored']
  exact ⟨hnew, Dict.get?_set _ _ _ _⟩

theorem AccountInv.registration (hlossless : Lossless env) (h : AccountInv env fs)
    {userName password id : Str} (hreg : Registration env userName password id fs fs') :
    AccountInv env fs' := by
  have haccount := account_of_registration hlossless hreg
  have hnotold : ∀ name userData, account env fs name = some userData → userData.id ≠ id := by
    rintro name userData hold rfl
    have hdir := h.directory name userData hold
    rw [FileTree.isDir, hreg.fresh] at hdir
    cases hdir
  constructor
  · exact h.ready.kept (PrivateKept.of_kindsStay hreg.kept)
  · obtain ⟨storageData, -, -, now, hwritten⟩ := hreg.accounts
    exact ⟨_, by rw [storedAccounts, hwritten]; exact hlossless _⟩
  · intro name userData hname
    rw [(haccount name).2] at hname
    split at hname
    · cases hname
      exact hreg.plain
    · exact h.plain name userData hname
  · intro name userData hname
    rw [(haccount name).2] at hname
    split at hname
    · cases hname
      exact hreg.directory
    · exact (hreg.kept _).1 (h.directory name userData hname)
  · intro name name' userData userData' hname hname' hid
    rw [(haccount name).2] at hname
    rw [(haccount name').2] at hname'
    split at hname
    · next heq =>
        cases hname
        split at hname'
        · next heq' => rw [heq, heq']
        · exact absurd hid.symm (hnotold name' userData' hname')
    · split at hname'
      · cases hname'
        exact absurd hid (hnotold name userData hname)
      · exact h.distinct name name' userData userData' hname hname' hid

-- ============================================================================
-- Runs of create_handler
-- ============================================================================

/-- `create_handler` on a request, or anything else the process does. -/
inductive AccountEvent where
  | request (amb : Ambient) (request : Pocket) (clientAddress : Addr)
  | other (after : State)

variable (env) in
def accountStep (s : State) : AccountEvent → Option State
  | .request amb request clientAddress =>
      some (final (createHandler env amb request clientAddress s))
  | .other after => some after

variable (env) in
/-- The identifiers are names of directories, and neither the opened request nor anything
    else removes a directory of the private tree or touches the account file. -/
def Undisturbed (s : State) : AccountEvent → Prop
  | .request amb request clientAddress =>
      (∀ id ∈ amb.uuids, Plain id) ∧
      ∀ layer storagePath t, request.requestLayer = some layer →
        chooseStorage env amb layer clientAddress s = .ok (some storagePath) t →
        PrivateKept env t.fs
          (final (openRequest env amb request layer clientAddress storagePath t)).fs
  | .other after =>
      after.fs.get? (accountFile env) = s.fs.get? (accountFile env) ∧
        PrivateKept env s.fs after.fs

/-- `create_handler` gives the handler of the request this storage path. -/
def Given (env : Env) (s : State) (amb : Ambient) (request : Pocket) (clientAddress : Addr)
    (storagePath : Str) : Prop :=
  ∃ layer t, request.requestLayer = some layer ∧
    chooseStorage env amb layer clientAddress s = .ok (some storagePath) t

/-- What a step does to the accounts: nothing, or it registers the user of its request. -/
structure AccountsGrow (env : Env) (s t : State) (layer? : Option RequestLayer) : Prop where
  inv : AccountInv env t.fs
  old : ∀ name userData, account env s.fs name = some userData →
    account env t.fs name = some userData
  new : ∀ name userData, account env t.fs name = some userData →
    account env s.fs name = some userData ∨
    ∃ layer, layer? = some layer ∧ layer.anonymous = false ∧ layer.userName = name ∧
      layer.password = userData.password ∧ account env s.fs name = none

variable {s t : State} {layer : RequestLayer} {amb : Ambient} {request : Pocket}
  {clientAddress : Addr} {storagePath : Str}

theorem AccountsGrow.same {layer? : Option RequestLayer} (h : AccountInv env s.fs)
    (hfile : t.fs.get? (accountFile env) = s.fs.get? (accountFile env))
    (hkept : PrivateKept env s.fs t.fs) : AccountsGrow env s t layer? where
  inv := h.kept hfile hkept
  old name userData haccount := by
    rw [account_congr hfile]
    exact haccount
  new name userData haccount := by
    rw [account_congr hfile] at haccount
    exact Or.inl haccount

/-- Opening a request keeps the account file. -/
theorem file_of_openRequest (hready : StorageReady env t.fs) (hroot : StorageRoot env storagePath) :
    (final (openRequest env amb request layer clientAddress storagePath t)).fs.get?
      (accountFile env) = t.fs.get? (accountFile env) :=
  keeps_openRequest t (hroot.parent hready) _ (not_prefix_accountFile hroot)

/-- The storage path is the public one, or that of the account of the request. -/
def OwnStorage (env : Env) (layer : RequestLayer) (fs : FileTree) (storagePath : Str) : Prop :=
  storagePath = publicPath env ∨
  layer.anonymous = false ∧ ∃ userData, account env fs layer.userName = some userData ∧
    userData.password = layer.password ∧ storagePath = userDirectory env userData.id ++ ['/']

/-- The storage a request is given, and the accounts then. -/
theorem of_chosen (hlossless : Lossless env) (hinv : AccountInv env s.fs)
    (h : Chosen env layer s.fs (some storagePath) t.fs) :
    AccountsGrow env s t (some layer) ∧ StorageRoot env storagePath ∧
      OwnStorage env layer t.fs storagePath := by
  generalize hfs : t.fs = fs at h
  cases h with
  | anonymous _ =>
      have hgrow : AccountsGrow env s t (some layer) :=
        .same hinv (by rw [hfs]) (by rw [hfs]; exact fun _ _ h => h)
      exact ⟨hgrow, Or.inl rfl, Or.inl rfl⟩
  | known hanonymous haccount hpassword _ =>
      have hgrow : AccountsGrow env s t (some layer) :=
        .same hinv (by rw [hfs]) (by rw [hfs]; exact fun _ _ h => h)
      exact ⟨hgrow, Or.inr ⟨_, hinv.plain _ _ haccount, rfl⟩,
        Or.inr ⟨hanonymous, _, haccount, hpassword, rfl⟩⟩
  | @registered id _ hanonymous hreg _ =>
      subst hfs
      have haccounts := account_of_registration hlossless hreg
      have hown : account env t.fs layer.userName = some ⟨id, layer.password⟩ := by
        rw [(haccounts _).2, if_pos rfl]
      refine ⟨⟨hinv.registration hlossless hreg, fun name userData haccount => ?_,
        fun name userData haccount => ?_⟩, Or.inr ⟨id, hreg.plain, rfl⟩,
        Or.inr ⟨hanonymous, _, hown, rfl, rfl⟩⟩
      · have hne : name ≠ layer.userName := by
          rintro rfl
          rw [(haccounts layer.userName).1] at haccount
          cases haccount
        rw [(haccounts name).2, if_neg hne]
        exact haccount
      · rw [(haccounts name).2] at haccount
        split at haccount
        · next heq =>
            cases haccount
            exact Or.inr ⟨layer, rfl, hanonymous, heq.symm, rfl, heq ▸ (haccounts name).1⟩
        · exact Or.inl haccount

/-- The steps after a change keep the accounts. -/
theorem AccountsGrow.kept {u : State} {layer? : Option RequestLayer}
    (h : AccountsGrow env s t layer?)
    (hfile : u.fs.get? (accountFile env) = t.fs.get? (accountFile env))
    (hkept : PrivateKept env t.fs u.fs) : AccountsGrow env s u layer? where
  inv := h.inv.kept hfile hkept
  old name userData haccount := by
    rw [account_congr hfile]
    exact h.old name userData haccount
  new name userData haccount := by
    rw [account_congr hfile] at haccount
    exact h.new name userData haccount

theorem chosen_of_ok {storagePath? : Option Str} (huuids : ∀ id ∈ amb.uuids, Plain id)
    (h : chooseStorage env amb layer clientAddress s = .ok storagePath? t) :
    Chosen env layer s.fs storagePath? t.fs := by
  have hwp : wp (chooseStorage env amb layer clientAddress) _ _ s := wp_chosen huuids
  rw [wp, h] at hwp
  exact hwp

theorem failed_of_error {e : Exn} (huuids : ∀ id ∈ amb.uuids, Plain id)
    (h : chooseStorage env amb layer clientAddress s = .error e t) :
    Failed env layer s.fs t.fs := by
  have hwp : wp (chooseStorage env amb layer clientAddress) _ _ s := wp_chosen huuids
  rw [wp, h] at hwp
  exact hwp

/-- `create_handler` ends where choosing the storage ends, or opens the request. -/
theorem final_createHandler (hlayer : request.requestLayer = some layer) :
    final (createHandler env amb request clientAddress s) =
      match chooseStorage env amb layer clientAddress s with
      | .error _ t => t
      | .ok none t => t
      | .ok (some storagePath) t =>
          final (openRequest env amb request layer clientAddress storagePath t) := by
  simp only [createHandler, hlayer]
  rw [bind_apply]
  cases chooseStorage env amb layer clientAddress s with
  | error e t => rfl
  | ok storagePath? t =>
      cases storagePath? with
      | none => rfl
      | some storagePath => rfl

/-- `create_handler` as a whole. -/
theorem accountsGrow_createHandler (hlossless : Lossless env) (hinv : AccountInv env s.fs)
    (hundisturbed : Undisturbed env s (.request amb request clientAddress)) :
    AccountsGrow env s (final (createHandler env amb request clientAddress s))
      request.requestLayer := by
  obtain ⟨huuids, hopens⟩ := hundisturbed
  cases hlayer : request.requestLayer with
  | none =>
      have hnone : final (createHandler env amb request clientAddress s) = s := by
        simp only [createHandler, hlayer]
        rfl
      rw [hnone]
      exact .same hinv rfl fun _ _ h => h
  | some layer =>
      rw [final_createHandler hlayer]
      cases hchoose : chooseStorage env amb layer clientAddress s with
      | error e t =>
          have hfailed := (failed_of_error huuids hchoose).harmless
          exact .same hinv hfailed.file (PrivateKept.of_kindsStay hfailed.kept)
      | ok storagePath? t =>
          have hchosen := chosen_of_ok huuids hchoose
          cases storagePath? with
          | none =>
              generalize hfs : t.fs = fs at hchosen
              cases hchosen
              exact .same hinv (by rw [hfs]) (by rw [hfs]; exact fun _ _ h => h)
          | some storagePath =>
              obtain ⟨hgrow, hroot, -⟩ := of_chosen hlossless hinv hchosen
              exact hgrow.kept (file_of_openRequest hgrow.inv.ready hroot)
                (hopens layer storagePath t hlayer hchoose)

/-- A rejected request leaves all files alone. -/
theorem fs_of_rejected (huuids : ∀ id ∈ amb.uuids, Plain id)
    (hlayer : request.requestLayer = some layer) (h : Rejected env s.fs layer) :
    (final (createHandler env amb request clientAddress s)).fs = s.fs := by
  rw [final_createHandler hlayer]
  cases hchoose : chooseStorage env amb layer clientAddress s with
  | error e t =>
      rcases failed_of_error huuids hchoose with hsame | ⟨hnot, -⟩
      · exact hsame
      · exact absurd h hnot
  | ok storagePath? t =>
      have hchosen := chosen_of_ok huuids hchoose
      generalize hfs : t.fs = fs at hchosen
      cases hchosen with
      | anonymous hanonymous =>
          rw [h.1] at hanonymous
          cases hanonymous
      | rejected _ => exact hfs
      | known _ haccount hpassword hne =>
          rcases h.2 with hempty | ⟨userData, haccount', hwrong⟩
          · exact absurd hempty hne
          · rw [haccount, Option.some_inj] at haccount'
            subst haccount'
            exact absurd hpassword hwrong
      | registered _ hreg hne =>
          rcases h.2 with hempty | ⟨userData, haccount', -⟩
          · exact absurd hempty hne
          · obtain ⟨storageData, hstored, hnew, -⟩ := hreg.accounts
            rw [account, hstored] at haccount'
            have hnone : none = some userData := hnew.symm.trans haccount'
            cases hnone

-- ============================================================================
-- Safety
-- ============================================================================

section Safety

variable {s₀ : State} {es : List AccountEvent} {e : AccountEvent}

/-- A request of the run registered the user: it carried the name and the password, and
    there was no account before. -/
def RegisteredBy (env : Env) (s₀ : State) (es : List AccountEvent) (name : Str)
    (userData : UserData) : Prop :=
  ∃ es₁ amb request clientAddress es₂ s t layer,
    es = es₁ ++ .request amb request clientAddress :: es₂ ∧
    exec (accountStep env) s₀ es₁ = some s ∧
    accountStep env s (.request amb request clientAddress) = some t ∧
    request.requestLayer = some layer ∧ layer.anonymous = false ∧ layer.userName = name ∧
    layer.password = userData.password ∧ account env s.fs name = none ∧
    account env t.fs name = some userData

/-- What holds of the accounts after a run. -/
structure AccountSafety (env : Env) (s₀ : State) (es : List AccountEvent) (s : State) : Prop where
  /-- an account stays as it was registered -/
  permanent : ∀ es₁ es₂ s₁ name userData, es = es₁ ++ es₂ →
    exec (accountStep env) s₀ es₁ = some s₁ → account env s₁.fs name = some userData →
    account env s.fs name = some userData
  registered : ∀ name userData, account env s.fs name = some userData →
    RegisteredBy env s₀ es name userData
  distinct : ∀ name name' userData userData', account env s.fs name = some userData →
    account env s.fs name' = some userData' → userData.id = userData'.id → name = name'
  /-- the directory of a user goes to requests with the user's name and password only -/
  owner : ∀ es₁ amb request clientAddress es₂ s₁ name userData,
    es = es₁ ++ .request amb request clientAddress :: es₂ →
    exec (accountStep env) s₀ es₁ = some s₁ → account env s.fs name = some userData →
    Given env s₁ amb request clientAddress (userDirectory env userData.id ++ ['/']) →
    ∃ layer, request.requestLayer = some layer ∧ layer.anonymous = false ∧
      layer.userName = name ∧ layer.password = userData.password
  /-- a rejected request changes no file -/
  rejected : ∀ es₁ amb request clientAddress es₂ s₁ layer,
    es = es₁ ++ .request amb request clientAddress :: es₂ →
    exec (accountStep env) s₀ es₁ = some s₁ → request.requestLayer = some layer →
    Rejected env s₁.fs layer →
    (final (createHandler env amb request clientAddress s₁)).fs = s₁.fs

/-- The request of an event. -/
def AccountEvent.layer? : AccountEvent → Option RequestLayer
  | .request _ request _ => request.requestLayer
  | .other _ => none

theorem accountsGrow_step (hlossless : Lossless env) (hinv : AccountInv env s.fs)
    (hundisturbed : Undisturbed env s e) (h : accountStep env s e = some t) :
    AccountsGrow env s t e.layer? := by
  cases e with
  | request amb request clientAddress =>
      cases h
      exact accountsGrow_createHandler hlossless hinv hundisturbed
  | other after =>
      cases h
      exact .same hinv hundisturbed.1 hundisturbed.2

theorem RegisteredBy.concat {name : Str} {userData : UserData}
    (h : RegisteredBy env s₀ es name userData) : RegisteredBy env s₀ (es ++ [e]) name userData := by
  obtain ⟨es₁, amb, request, a, es₂, s, t, layer, rfl, hrest⟩ := h
  exact ⟨es₁, amb, request, a, es₂ ++ [e], s, t, layer, by simp, hrest⟩

/-- The accounts along a run, by induction on its steps. -/
theorem history_of_exec (hlossless : Lossless env) (hinv : AccountInv env s₀.fs)
    (hempty : ∀ name, account env s₀.fs name = none)
    (hundisturbed : AllSteps (accountStep env) (Undisturbed env) s₀ es)
    (h : exec (accountStep env) s₀ es = some s) :
    AccountInv env s.fs ∧
    (∀ es₁ es₂ s₁ name userData, es = es₁ ++ es₂ → exec (accountStep env) s₀ es₁ = some s₁ →
      account env s₁.fs name = some userData → account env s.fs name = some userData) ∧
    ∀ name userData, account env s.fs name = some userData →
      RegisteredBy env s₀ es name userData := by
  induction es using List.reverseRecOn generalizing s with
  | nil =>
      rw [exec_nil, Option.some_inj] at h
      subst h
      refine ⟨hinv, fun es₁ es₂ s₁ name userData hes hs₁ haccount => ?_,
        fun name userData haccount => ?_⟩
      · obtain ⟨rfl, rfl⟩ := List.nil_eq_append_iff.mp hes
        rw [exec_nil, Option.some_inj] at hs₁
        exact hs₁ ▸ haccount
      · rw [hempty name] at haccount
        cases haccount
  | append_singleton es e ih =>
      obtain ⟨t, ht, hts⟩ := exec_concat_iff.mp h
      obtain ⟨hinvt, hpermanent, hregistered⟩ := ih hundisturbed.of_concat ht
      have hgrow := accountsGrow_step hlossless hinvt (hundisturbed.last ht) hts
      refine ⟨hgrow.inv, fun es₁ es₂ s₁ name userData hes hs₁ haccount => ?_,
        fun name userData haccount => ?_⟩
      · rcases List.eq_nil_or_concat es₂ with rfl | ⟨es₃, x, rfl⟩
        · rw [List.append_nil] at hes
          rw [← hes, h, Option.some_inj] at hs₁
          exact hs₁ ▸ haccount
        · have hsplit : es ++ [e] = (es₁ ++ es₃) ++ [x] := by simpa using hes
          obtain ⟨hes', -⟩ := List.append_inj' hsplit rfl
          exact hgrow.old name userData (hpermanent es₁ es₃ s₁ name userData hes' hs₁ haccount)
      · rcases hgrow.new name userData haccount with hold | ⟨layer, hlayer, hnew⟩
        · exact (hregistered name userData hold).concat
        · cases e with
          | request amb request a =>
              exact ⟨es, amb, request, a, [], t, s, layer, rfl, ht, hts, hlayer, hnew.1,
                hnew.2.1, hnew.2.2.1, hnew.2.2.2, haccount⟩
          | other after => cases hlayer

/-- The account store is safe over every run of `create_handler`, started in an installed
    storage without accounts. -/
theorem account_safety (env : Env) (hlossless : Lossless env) (s₀ : State)
    (hready : StorageReady env s₀.fs) (hempty : storedAccounts env s₀.fs = some ⟨Dict.empty⟩)
    (es : List AccountEvent) (s : State) (h : exec (accountStep env) s₀ es = some s)
    (hundisturbed : AllSteps (accountStep env) (Undisturbed env) s₀ es) :
    AccountSafety env s₀ es s := by
  have hnone : ∀ name, account env s₀.fs name = none := by
    intro name
    rw [account, hempty]
    exact Dict.get?_empty name
  have hinv : AccountInv env s₀.fs :=
    { ready := hready
      loads := ⟨_, hempty⟩
      plain := fun name _ haccount => by rw [hnone name] at haccount; cases haccount
      directory := fun name _ haccount => by rw [hnone name] at haccount; cases haccount
      distinct := fun name _ _ _ haccount => by rw [hnone name] at haccount; cases haccount }
  obtain ⟨hinvs, hpermanent, hregistered⟩ := history_of_exec hlossless hinv hnone hundisturbed h
  have hearlier : ∀ es₁ amb request a es₂ s₁, es = es₁ ++ .request amb request a :: es₂ →
      exec (accountStep env) s₀ es₁ = some s₁ →
      AccountInv env s₁.fs ∧ Undisturbed env s₁ (.request amb request a) := by
    intro es₁ amb request a es₂ s₁ hes hs₁
    have hsteps : AllSteps (accountStep env) (Undisturbed env) s₀ es₁ := by
      intro xs x ys t hxs ht
      exact hundisturbed xs x (ys ++ .request amb request a :: es₂) t (by simp [hes, hxs]) ht
    exact ⟨(history_of_exec hlossless hinv hnone hsteps hs₁).1,
      hundisturbed es₁ _ es₂ s₁ hes hs₁⟩
  refine ⟨hpermanent, hregistered, hinvs.distinct, ?_, ?_⟩
  · rintro es₁ amb request a es₂ s₁ name userData hes hs₁ haccount ⟨layer, t, hlayer, hgiven⟩
    obtain ⟨hinv₁, hundisturbed₁⟩ := hearlier es₁ amb request a es₂ s₁ hes hs₁
    have hchosen := chosen_of_ok hundisturbed₁.1 hgiven
    obtain ⟨hgrow, hroot, hpublic | ⟨hanonymous, userData', haccount', hpassword, hpath⟩⟩ :=
      of_chosen hlossless hinv₁ hchosen
    · exact (publicPath_ne_userDirectory _ hpublic.symm).elim
    · -- the account of the request is still there at the end
      let u := final (createHandler env amb request a s₁)
      have hu : u = final (openRequest env amb request layer a
          (userDirectory env userData.id ++ ['/']) t) := by
        simp only [u, final_createHandler hlayer, hgiven]
      have hfile : u.fs.get? (accountFile env) = t.fs.get? (accountFile env) := by
        rw [hu]
        exact file_of_openRequest hgrow.inv.ready hroot
      have hu₁ : exec (accountStep env) s₀ (es₁ ++ [.request amb request a]) = some u :=
        exec_concat_iff.mpr ⟨s₁, hs₁, rfl⟩
      have hend : account env s.fs layer.userName = some userData' := by
        apply hpermanent _ es₂ u _ _ (by simp [hes]) hu₁
        rw [account_congr hfile]
        exact haccount'
      have hname := hinvs.distinct _ _ _ _ hend haccount (userDirectory_inj hpath).symm
      subst hname
      rw [hend, Option.some_inj] at haccount
      subst haccount
      exact ⟨layer, hlayer, hanonymous, rfl, hpassword.symm⟩
  · intro es₁ amb request a es₂ s₁ layer hes hs₁ hlayer hrejected
    exact fs_of_rejected (hearlier es₁ amb request a es₂ s₁ hes hs₁).2.1 hlayer hrejected

end Safety

-- ============================================================================
-- A run with an account
-- ============================================================================

/-- The characters of the texts of an account map. -/
def rows (storageData : StorageData) : List (List Nat × List Nat × List Nat) :=
  storageData.users.entries.map fun entry =>
    (entry.1.map Char.toNat, entry.2.id.map Char.toNat, entry.2.password.map Char.toNat)

def ofRows (texts : List (List Nat × List Nat × List Nat)) : Option StorageData :=
  let entries := texts.map fun row =>
    (row.1.map Char.ofNat, UserData.mk (row.2.1.map Char.ofNat) (row.2.2.map Char.ofNat))
  if h : (entries.map Prod.fst).Nodup then some ⟨⟨entries, h⟩⟩ else none

theorem ofRows_rows (storageData : StorageData) : ofRows (rows storageData) = some storageData := by
  obtain ⟨entries, hnodup⟩ := storageData
  have hentries : (rows ⟨⟨entries, hnodup⟩⟩).map (fun row =>
      (row.1.map Char.ofNat, UserData.mk (row.2.1.map Char.ofNat) (row.2.2.map Char.ofNat)))
      = entries := by
    rw [rows, List.map_map]
    conv_rhs => rw [← List.map_id entries]
    apply List.map_congr_left
    intro entry _
    simp only [Function.comp_apply, map_ofNat_toNat, id]
  simp only [ofRows, hentries]
  rw [dif_pos hnodup]

def annId : Str := "0b0e59b8-4f54-4d52-8a1b-90bd3e7ae6ac".toList

/-- The accounts after the registration of `ann` with the password `secret`. -/
def annAccounts : StorageData := ⟨Dict.empty.set "ann".toList ⟨annId, "secret".toList⟩⟩

def noAccountsText : Bytes := encode "\x7b\n  \"users\": \x7b\x7d\n\x7d".toList

def annAccountsText : Bytes :=
  encode ("\x7b\n  \"users\": \x7b\n    \"ann\": \x7b\n      \"id\": \"".toList ++ annId ++
    "\",\n      \"password\": \"secret\"\n    \x7d\n  \x7d\n\x7d".toList)

/-- The two account maps of the run below are written as their JSON, any other one as a
    byte that starts no JSON and a number. -/
def dumpAccounts (storageData : StorageData) : Bytes :=
  if storageData = ⟨Dict.empty⟩ then noAccountsText
  else if storageData = annAccounts then annAccountsText
  else 0xff :: List.replicate (Encodable.encode (rows storageData)) 0

def loadAccounts (content : Bytes) : Option StorageData :=
  if content = noAccountsText then some ⟨Dict.empty⟩
  else if content = annAccountsText then some annAccounts
  else (Encodable.decode (content.length - 1)).bind ofRows

/-- Surroundings whose account file loses nothing. -/
def accountEnv : Env :=
  { (default : Env) with loadStorage := loadAccounts, dumpStorage := dumpAccounts }

theorem lossless_accountEnv : Lossless accountEnv := by
  intro storageData
  have hfirst : noAccountsText.head? = some 0x7b ∧ annAccountsText.head? = some 0x7b := by
    decide +kernel
  have hnone : ∀ bs : Bytes, 0xff :: bs ≠ noAccountsText := by
    intro bs h
    rw [← h] at hfirst
    cases hfirst.1
  have hann : ∀ bs : Bytes, 0xff :: bs ≠ annAccountsText := by
    intro bs h
    rw [← h] at hfirst
    cases hfirst.2
  have hdiffer : annAccountsText ≠ noAccountsText := by decide +kernel
  show loadAccounts (dumpAccounts storageData) = some storageData
  by_cases hempty : storageData = ⟨Dict.empty⟩
  · rw [dumpAccounts, if_pos hempty, loadAccounts, if_pos rfl, hempty]
  · rw [dumpAccounts, if_neg hempty]
    by_cases hone : storageData = annAccounts
    · rw [if_pos hone, loadAccounts, if_neg hdiffer, if_pos rfl, hone]
    · rw [if_neg hone, loadAccounts, if_neg (hnone _), if_neg (hann _), List.length_cons,
        List.length_replicate, Nat.add_sub_cancel, Encodable.encodek, Option.bind_some, ofRows_rows]

/-- A List request of `ann` for her whole storage. -/
def annRequest (password : Str) : Pocket :=
  { basicLayer := ⟨0, .request, .list⟩
    requestLayer := some ⟨0, 1000, false, "ann".toList, password⟩
    listRequestLayer := some ⟨[], false⟩ }

def annState : State := { fs := installed accountEnv, lastRequestID := 0, log := [] }

/-- `ann` registers; later somebody tries another password. -/
def annRun : List AccountEvent :=
  [.request ⟨0, [annId]⟩ (annRequest "secret".toList) (['c'], 8001),
    .request ⟨0, [annId]⟩ (annRequest "guess".toList) (['d'], 8001)]

/-- A request whose opening changes no file disturbs nothing. -/
theorem undisturbed_of_same {env : Env} {s : State} {amb : Ambient} {request : Pocket}
    {clientAddress : Addr} (huuids : ∀ id ∈ amb.uuids, Plain id)
    (h : ∀ layer, request.requestLayer = some layer →
      (match chooseStorage env amb layer clientAddress s with
        | .ok (some path) t =>
            decide ((final (openRequest env amb request layer clientAddress path t)).fs = t.fs)
        | _ => true) = true) : Undisturbed env s (.request amb request clientAddress) := by
  refine ⟨huuids, fun layer path t hlayer hchoose p _ hp => ?_⟩
  have hsame := h layer hlayer
  rw [hchoose] at hsame
  rw [of_decide_eq_true hsame]
  exact hp

theorem account_safety_annRun :
    ∃ s, exec (accountStep accountEnv) annState annRun = some s ∧
      account accountEnv s.fs "ann".toList = some ⟨annId, "secret".toList⟩ ∧
      AccountSafety accountEnv annState annRun s := by
  have hrun : (exec (accountStep accountEnv) annState annRun).map
      (fun s => account accountEnv s.fs "ann".toList) = some (some ⟨annId, "secret".toList⟩) := by
    decide +kernel
  obtain ⟨s, hs, haccount⟩ := Option.map_eq_some_iff.mp hrun
  have hready : StorageReady accountEnv annState.fs := ⟨by decide +kernel, by decide +kernel⟩
  have hempty : storedAccounts accountEnv annState.fs = some ⟨Dict.empty⟩ := by decide +kernel
  refine ⟨s, hs, haccount, account_safety accountEnv lossless_accountEnv annState hready hempty
    annRun s hs ?_⟩
  have huuids : ∀ id ∈ [annId], Plain id := by decide +kernel
  apply allSteps_cons
  · apply undisturbed_of_same huuids
    intro layer hlayer
    rw [annRequest, Option.some_inj] at hlayer
    subst hlayer
    decide +kernel
  · intro t ht
    rw [accountStep, Option.some_inj] at ht
    subst ht
    apply allSteps_cons
    · apply undisturbed_of_same huuids
      intro layer hlayer
      rw [annRequest, Option.some_inj] at hlayer
      subst hlayer
      decide +kernel
    · intro t _
      exact allSteps_nil

end App
end NetworkingFinal
