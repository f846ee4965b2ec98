/-
  NetworkingFinal.App.Isolation

  The directory of a user changes at the user's requests only.

  Between two requests of the user anybody may send anything, log in under other
  names, upload and delete, and fail in the middle of it: what lies below
  `private/<id>` changes in a turn of the main loop only when the turn opens a
  request with the user's name and password, or completes an upload of one
  (`private_integrity`).
-/
import NetworkingFinal.App.Serving
import NetworkingFinal.App.RootSurvival
import NetworkingFinal.App.StoreRuns

namespace NetworkingFinal
namespace App

open Py Py.Prog Py.Os Py.PosixPath Ftp Lib

variable {env : Env}

/-- The directory of a user. -/
def userRoot (env : Env) (id : Str) : Path := privateRoot env ++ [id]

/-- The layer carries the name and the password of the account. -/
def Proves (layer : RequestLayer) (name : Str) (userData : UserData) : Prop :=
  layer.anonymous = false ∧ layer.userName = name ∧ layer.password = userData.password

/-- The request is one of the user. -/
def Authentic (request : Pocket) (name : Str) (userData : UserData) : Prop :=
  ∃ layer, request.requestLayer = some layer ∧ Proves layer name userData

/-- The drawn ids name directories and belong to no account. -/
def NewIds (env : Env) (fs : FileTree) (amb : Ambient) : Prop :=
  ∀ id ∈ amb.uuids, Plain id ∧
    ∀ name userData, account env fs name = some userData → userData.id ≠ id

/-- The ids that `uuid4` gives in a turn are new. -/
def FreshIds (env : Env) (s : Server) : Event → Prop
  | .recv _ _ amb => NewIds env s.app.fs amb
  | _ => True

/-- Every account has an id of its own, which names a directory. -/
structure AccountsOwn (env : Env) (fs : FileTree) : Prop where
  plain : ∀ name userData, account env fs name = some userData → Plain userData.id
  distinct : ∀ name name' userData userData', account env fs name = some userData →
    account env fs name' = some userData' → userData.id = userData'.id → name = name'

-- ============================================================================
-- Choosing the storage
-- ============================================================================

/-- Apart from the account file and the directories of these ids, nothing changes. -/
def registersOnly (env : Env) (ids : List Str) : Frame FileTree where
  rel s t := ∀ p, p ≠ accountFile env → (∀ id ∈ ids, p ≠ userRoot env id) → t.get? p = s.get? p
  refl _ _ _ _ := rfl
  trans h h' p hp hids := (h' p hp hids).trans (h p hp hids)

section Choosing

variable {amb : Ambient} {layer : RequestLayer} {a : Addr} {s t : State} {ids : List Str}

/-- Choosing the storage writes the account file and makes the directory of a new user. -/
theorem registersOnly_chooseStorage (huuids : ∀ id ∈ amb.uuids, Plain id) :
    Keeps (filesKept (registersOnly env amb.uuids)) (chooseStorage env amb layer a) := by
  refine keeps_chooseStorage fun storageData => keeps_registerUser (fun id hid => ?_) fun data => ?_
  · refine keeps_update_abspath env.cwd_abs env.cwd_plain fun s t hmk p _ hp => ?_
    have hpath : comps (abspath env.cwd (userDirectory env id)) = userRoot env id :=
      rootOf_userDirectory_id (huuids id hid)
    rw [get?_of_put (put_of_mkdirAt hmk).2, if_neg (hpath ▸ hp id hid)]
  · exact keeps_writeAccounts fun s t hput p hp _ => by rw [get?_of_put hput, if_neg hp]

/-- The id of a user that is registered was drawn in this turn. -/
theorem mem_uuids_of_chooseStorage {id : Str} (hanonymous : layer.anonymous = false)
    (hnew : account env s.fs layer.userName = none)
    (h : chooseStorage env amb layer a s = .ok (some (userDirectory env id ++ ['/'])) t) :
    id ∈ amb.uuids := by
  unfold chooseStorage at h
  rw [if_neg (by simp [hanonymous])] at h
  split at h
  · obtain ⟨_, u, -, h⟩ := bind_ok_iff.mp h
    cases h
  · obtain ⟨content, u, hread, h⟩ := bind_ok_iff.mp h
    obtain ⟨fs, hread, -⟩ := zoom_ok_iff.mp hread
    have hstored : storedAccounts env s.fs = env.loadStorage content :=
      (storedAccounts_of_readFile hread).1
    cases hload : env.loadStorage content with
    | none =>
        simp only [hload] at h
        cases h
    | some storageData =>
        simp only [hload] at h
        cases huser : storageData.users.get? layer.userName with
        | some userData =>
            rw [account, hstored, hload, Option.bind_some, huser] at hnew
            cases hnew
        | none =>
            simp only [huser] at h
            obtain ⟨id', v, hid, h⟩ := bind_ok_iff.mp h
            rw [pure_apply, EStateM.Result.ok.injEq, Option.some_inj] at h
            obtain ⟨fs', hregister, -⟩ := zoom_ok_iff.mp hid
            obtain ⟨id'', fs₁, hfresh, hrest⟩ := bind_ok_iff.mp hregister
            obtain ⟨_, fs₂, -, hrest⟩ := bind_ok_iff.mp hrest
            obtain ⟨_, fs₃, -, hrest⟩ := bind_ok_iff.mp hrest
            cases hrest
            rw [← userDirectory_inj h.1]
            exact (mem_of_freshId hfresh).1

end Choosing

-- ============================================================================
-- Accounts
-- ============================================================================

/-- No account changes or goes. -/
def AccountsStay (env : Env) (fs fs' : FileTree) : Prop :=
  ∀ name userData, account env fs name = some userData → account env fs' name = some userData

section Accounts

variable {fs fs' fs'' : FileTree}

theorem AccountsStay.of_file (h : fs'.get? (accountFile env) = fs.get? (accountFile env)) :
    AccountsStay env fs fs' :=
  fun name _ haccount => (account_congr h name).trans haccount

theorem AccountsOwn.of_file (h : AccountsOwn env fs)
    (hfile : fs'.get? (accountFile env) = fs.get? (accountFile env)) : AccountsOwn env fs' where
  plain name userData haccount := h.plain name userData ((account_congr hfile name) ▸ haccount)
  distinct name name' userData userData' haccount haccount' :=
    h.distinct name name' userData userData' ((account_congr hfile name) ▸ haccount)
      ((account_congr hfile name') ▸ haccount')

theorem account_of_empty (h : storedAccounts env fs = some ⟨Dict.empty⟩) (name : Str) :
    account env fs name = none := by
  rw [account, h]
  exact Dict.get?_empty name

/-- A storage without accounts. -/
theorem AccountsOwn.of_empty (h : storedAccounts env fs = some ⟨Dict.empty⟩) :
    AccountsOwn env fs where
  plain name _ haccount := by
    rw [account_of_empty h] at haccount
    cases haccount
  distinct name _ _ _ haccount := by
    rw [account_of_empty h] at haccount
    cases haccount

/-- A registration under a fresh id. -/
theorem AccountsOwn.registration (hlossless : Lossless env) (h : AccountsOwn env fs)
    {userName password id : Str} (hreg : Registration env userName password id fs fs')
    (hfresh : ∀ name userData, account env fs name = some userData → userData.id ≠ id) :
    AccountsOwn env fs' := by
  have haccount := account_of_registration hlossless hreg
  have hcases : ∀ name userData, account env fs' name = some userData →
      (name = userName ∧ userData.id = id) ∨ account env fs name = some userData := by
    intro name userData hname
    rw [(haccount name).2] at hname
    split at hname
    · next heq =>
        cases hname
        exact Or.inl ⟨heq, rfl⟩
    · exact Or.inr hname
  constructor
  · intro name userData hname
    rcases hcases name userData hname with ⟨-, hid⟩ | hold
    · rw [hid]
      exact hreg.plain
    · exact h.plain name userData hold
  · intro name name' userData userData' hname hname' hid
    rcases hcases name userData hname with ⟨rfl, hnew⟩ | hold
    · rcases hcases name' userData' hname' with ⟨rfl, -⟩ | hold'
      · rfl
      · exact absurd (hid.symm.trans hnew) (hfresh name' userData' hold')
    · rcases hcases name' userData' hname' with ⟨rfl, hnew'⟩ | hold'
      · exact absurd (hid.trans hnew') (hfresh name userData hold)
      · exact h.distinct name name' userData userData' hold hold' hid

theorem userRoot_eq {id : Str} (hid : Plain id) :
    userRoot env id = rootOf env (userDirectory env id ++ ['/']) := by
  rw [rootOf_userDirectory hid, userRoot, privateRoot]

theorem accountFile_not_below {id : Str} (hid : Plain id) :
    ¬ userRoot env id <+: accountFile env := by
  rw [userRoot_eq hid]
  exact not_prefix_accountFile (Or.inr ⟨id, hid, rfl⟩)

end Accounts

-- ============================================================================
-- One turn
-- ============================================================================

/-- What a turn does to the files: the storage stays in place, no account goes, and the
    directory of a user changes only when `cause` holds of the account. -/
structure TurnKeeps (env : Env) (cause : Str → UserData → Prop) (fs fs' : FileTree) : Prop where
  ready : StorageReady env fs'
  accounts : AccountsOwn env fs'
  stay : AccountsStay env fs fs'
  users : ∀ name userData, account env fs' name = some userData →
    ∀ p, userRoot env userData.id <+: p → fs'.get? p ≠ fs.get? p → cause name userData

section Turn

variable {fs fs' fs'' : FileTree} {cause : Str → UserData → Prop} {layer : RequestLayer}
  {storagePath : Str}

/-- The storage of a handler: the public one, or that of the account whose name and
    password its request carries; the path of an upload leads into it. -/
structure Owns (env : Env) (fs : FileTree) (g : Handler) : Prop where
  root : StorageRoot env g.base.storagePath
  own : ∃ layer, g.base.request.requestLayer = some layer ∧
    OwnStorage env layer fs g.base.storagePath
  accepted : g.isDownload = false → AcceptedPath env g.base.request g.base.storagePath

/-- A request that was given the directory of a user carries the user's name and password. -/
theorem proves_of_own (haccounts : AccountsOwn env fs) (hown : OwnStorage env layer fs storagePath)
    {name : Str} {userData : UserData} (haccount : account env fs name = some userData)
    (hroot : rootOf env storagePath = userRoot env userData.id) :
    Proves layer name userData := by
  rcases hown with rfl | ⟨hanonymous, userData', haccount', hpassword, rfl⟩
  · have hlen := congrArg List.length hroot
    rw [rootOf_publicPath, userRoot, privateRoot_eq] at hlen
    simp at hlen
  · rw [← userRoot_eq (haccounts.plain _ _ haccount'), userRoot, userRoot,
      List.append_cancel_left_eq, List.singleton_inj] at hroot
    have hname := haccounts.distinct _ _ _ _ haccount' haccount hroot
    rw [← hname, haccount', Option.some_inj] at haccount
    exact ⟨hanonymous, hname, haccount ▸ hpassword.symm⟩

theorem StorageRoot.not_prefix_privateRoot (h : StorageRoot env storagePath) :
    ¬ rootOf env storagePath <+: privateRoot env := by
  intro hbelow
  rcases h with rfl | ⟨id, hid, rfl⟩
  · rw [rootOf_publicPath, privateRoot_eq, List.prefix_append_right_inj] at hbelow
    exact absurd hbelow (by decide)
  · have hlen := hbelow.length_le
    rw [rootOf_userDirectory hid, privateRoot] at hlen
    simp at hlen

theorem StorageReady.outside (h : StorageReady env fs) (hroot : StorageRoot env storagePath)
    (hout : ∀ p, ¬ rootOf env storagePath <+: p → fs'.get? p = fs.get? p) :
    StorageReady env fs' := by
  have husers : fs.isDir (privateRoot env) = true := h.users
  refine .of_users ?_
  rw [FileTree.isDir, hout _ hroot.not_prefix_privateRoot]
  exact husers

theorem TurnKeeps.refl (hready : StorageReady env fs) (haccounts : AccountsOwn env fs) :
    TurnKeeps env cause fs fs where
  ready := hready
  accounts := haccounts
  stay _ _ haccount := haccount
  users _ _ _ _ _ hchange := absurd rfl hchange

/-- Work below the storage root of a request. -/
theorem TurnKeeps.outside (h : TurnKeeps env (Proves layer) fs fs')
    (hroot : StorageRoot env storagePath) (hown : OwnStorage env layer fs' storagePath)
    (hout : ∀ p, ¬ rootOf env storagePath <+: p → fs''.get? p = fs'.get? p) :
    TurnKeeps env (Proves layer) fs fs'' := by
  have hfile : fs''.get? (accountFile env) = fs'.get? (accountFile env) :=
    hout _ (not_prefix_accountFile hroot)
  refine ⟨h.ready.outside hroot hout, h.accounts.of_file hfile,
    fun name userData haccount => AccountsStay.of_file hfile _ _ (h.stay _ _ haccount),
    fun name userData haccount p hp hchange => ?_⟩
  rw [account_congr hfile] at haccount
  by_cases hbelow : rootOf env storagePath <+: p
  · -- the roots do not contain each other
    have hid := h.accounts.plain _ _ haccount
    have huser : StorageRoot env (userDirectory env userData.id ++ ['/']) := Or.inr ⟨_, hid, rfl⟩
    rw [userRoot_eq hid] at hp
    have hsame : rootOf env storagePath = userRoot env userData.id := by
      rw [userRoot_eq hid]
      rcases List.prefix_or_prefix_of_prefix hbelow hp with hle | hle
      · exact hroot.eq_of_below huser hle
      · exact (huser.eq_of_below hroot hle).symm
    exact proves_of_own h.accounts hown haccount hsame
  · rw [hout p hbelow] at hchange
    exact h.users name userData haccount p hp hchange

/-- Choosing the storage makes the directory of the user who registers. -/
theorem turnKeeps_chooseStorage {amb : Ambient} {a : Addr} {s : State} (hlossless : Lossless env)
    (hready : StorageReady env s.fs) (haccounts : AccountsOwn env s.fs)
    (hfresh : NewIds env s.fs amb) :
    TurnKeeps env (Proves layer) s.fs (final (chooseStorage env amb layer a s)).fs := by
  have huuids : ∀ id ∈ amb.uuids, Plain id := fun id hid => (hfresh id hid).1
  have hrest : (registersOnly env amb.uuids).rel s.fs (final (chooseStorage env amb layer a s)).fs :=
    registersOnly_chooseStorage huuids s
  generalize hfinal : final (chooseStorage env amb layer a s) = t at hrest ⊢
  have hhome : t.fs.isDir (privateRoot env) = true := by
    have hsame : t.fs.get? (privateRoot env) = s.fs.get? (privateRoot env) := by
      refine hrest _ (fun heq => ?_) fun id _ heq => ?_
      · rw [privateRoot_eq, accountFile_eq, List.append_cancel_left_eq] at heq
        exact absurd heq (by decide)
      · have hlen := congrArg List.length heq
        rw [userRoot] at hlen
        simp at hlen
    rw [FileTree.isDir, hsame]
    exact hready.users
  -- only the directories of drawn ids are new
  have husers : ∀ name userData, account env s.fs name = some userData → Plain userData.id →
      ∀ p, userRoot env userData.id <+: p → t.fs.get? p = s.fs.get? p := by
    intro name userData haccount hid p hp
    refine hrest p (fun heq => accountFile_not_below hid (heq ▸ hp)) fun id hmem heq => ?_
    rw [heq] at hp
    have hlast := hp.eq_of_length (by simp [userRoot])
    rw [userRoot, userRoot, List.append_cancel_left_eq, List.singleton_inj] at hlast
    exact (hfresh id hmem).2 name userData haccount hlast
  have hsame : t.fs.get? (accountFile env) = s.fs.get? (accountFile env) →
      TurnKeeps env (Proves layer) s.fs t.fs := by
    intro hfile
    refine ⟨.of_users hhome, haccounts.of_file hfile, .of_file hfile,
      fun name userData haccount p hp hchange => ?_⟩
    rw [account_congr hfile] at haccount
    exact absurd (husers name userData haccount (haccounts.plain _ _ haccount) p hp) hchange
  cases hchoose : chooseStorage env amb layer a s with
  | error e u =>
      rw [hchoose, final_error] at hfinal
      subst hfinal
      exact hsame (failed_of_error huuids hchoose).harmless.file
  | ok choice u =>
      rw [hchoose, final_ok] at hfinal
      subst hfinal
      have hchosen := chosen_of_ok huuids hchoose
      generalize hfs : u.fs = fs at hchosen hsame husers hhome ⊢
      cases hchosen with
      | anonymous _ => exact hsame rfl
      | rejected _ => exact hsame rfl
      | known _ _ _ _ => exact hsame rfl
      | @registered id _ hanonymous hreg hne =>
          have haccount' := account_of_registration hlossless hreg
          have hdrawn : id ∈ amb.uuids :=
            mem_uuids_of_chooseStorage hanonymous (haccount' layer.userName).1 hchoose
          refine ⟨.of_users hhome, haccounts.registration hlossless hreg (hfresh id hdrawn).2,
            fun name userData haccount => ?_, fun name userData haccount p hp hchange => ?_⟩
          · have hother : name ≠ layer.userName := by
              rintro rfl
              rw [(haccount' layer.userName).1] at haccount
              cases haccount
            rw [(haccount' name).2, if_neg hother]
            exact haccount
          · rw [(haccount' name).2] at haccount
            split at haccount
            · next heq =>
                cases haccount
                exact ⟨hanonymous, heq.symm, rfl⟩
            · exact absurd (husers name userData haccount (haccounts.plain _ _ haccount) p hp)
                hchange

theorem TurnKeeps.mono {cause' : Str → UserData → Prop} (h : TurnKeeps env cause fs fs')
    (hcause : ∀ name userData, cause name userData → cause' name userData) :
    TurnKeeps env cause' fs fs' :=
  ⟨h.ready, h.accounts, h.stay, fun name userData haccount p hp hchange =>
    hcause _ _ (h.users name userData haccount p hp hchange)⟩

/-- The storage a request is given. -/
theorem own_of_chosen (hlossless : Lossless env) (haccounts : AccountsOwn env fs)
    (h : Chosen env layer fs (some storagePath) fs') :
    StorageRoot env storagePath ∧ OwnStorage env layer fs' storagePath := by
  cases h with
  | anonymous _ => exact ⟨Or.inl rfl, Or.inl rfl⟩
  | known hanonymous haccount hpassword _ =>
      exact ⟨Or.inr ⟨_, haccounts.plain _ _ haccount, rfl⟩,
        Or.inr ⟨hanonymous, _, haccount, hpassword, rfl⟩⟩
  | @registered id _ hanonymous hreg _ =>
      refine ⟨Or.inr ⟨id, hreg.plain, rfl⟩, Or.inr ⟨hanonymous, ⟨id, layer.password⟩, ?_, rfl, rfl⟩⟩
      rw [(account_of_registration hlossless hreg _).2, if_pos rfl]

theorem OwnStorage.stay (h : OwnStorage env layer fs storagePath) (hstay : AccountsStay env fs fs') :
    OwnStorage env layer fs' storagePath :=
  h.imp_right fun ⟨hanonymous, userData, haccount, hrest⟩ =>
    ⟨hanonymous, userData, hstay _ _ haccount, hrest⟩

theorem Owns.stay {g : Handler} (h : Owns env fs g) (hstay : AccountsStay env fs fs') :
    Owns env fs' g :=
  ⟨h.root, h.own.imp fun _ ⟨hlayer, hown⟩ => ⟨hlayer, hown.stay hstay⟩, h.accepted⟩

/-- The handler of an opened request is made from what the route gave. -/
theorem of_openRequest_ok {amb : Ambient} {request : Pocket} {a : Addr} {g : Handler} {res : Pocket}
    {s t : State}
    (h : openRequest env amb request layer a storagePath s = .ok (some (g, res)) t) :
    ∃ routed u segmentsAmount, route env { request, clientAddress := a, storagePath } s =
        .ok (some routed) u ∧
      g = openedHandler { request, clientAddress := a, storagePath, requestID := routed.requestID }
        segmentsAmount (routed.data.getD []) res := by
  obtain ⟨routed, u, hroute, h⟩ := bind_ok_iff.mp h
  cases routed with
  | none => cases h
  | some routed =>
      refine ⟨routed, u, ?_⟩
      simp only at h
      generalize (if request.basicLayer.pocketSubType = .upload then layer.pocketFullSize
        else (routed.data.getD []).length) = dataSize at h
      rw [apply_ite (fun x : Prog State (Option (Handler × Pocket)) => x u)] at h
      split at h
      · obtain ⟨_, _, -, h⟩ := bind_ok_iff.mp h
        obtain ⟨_, _, -, h⟩ := bind_ok_iff.mp h
        cases h
      · obtain ⟨_, _, -, h⟩ := bind_ok_iff.mp h
        cases h
        exact ⟨_, hroute, rfl⟩

theorem base_of_openRequest {amb : Ambient} {request : Pocket} {a : Addr} {g : Handler}
    {res : Pocket} {s t : State}
    (h : openRequest env amb request layer a storagePath s = .ok (some (g, res)) t) :
    g.base.request = request ∧ g.base.storagePath = storagePath := by
  obtain ⟨routed, u, segmentsAmount, -, rfl⟩ := of_openRequest_ok h
  rw [openedHandler_base]
  exact ⟨rfl, rfl⟩

section Create

variable {amb : Ambient} {request : Pocket} {a : Addr} {s : State}

/-- `create_handler` as a whole. -/
theorem turnKeeps_createHandler (hlossless : Lossless env)
    (hready : StorageReady env s.fs) (haccounts : AccountsOwn env s.fs)
    (hfresh : NewIds env s.fs amb) :
    TurnKeeps env (Authentic request) s.fs (final (createHandler env amb request a s)).fs := by
  cases hlayer : request.requestLayer with
  | none =>
      have hnone : final (createHandler env amb request a s) = s := by
        simp only [createHandler, hlayer]
        rfl
      rw [hnone]
      exact .refl hready haccounts
  | some layer =>
      have hproves : ∀ name userData, Proves layer name userData → Authentic request name userData :=
        fun _ _ h => ⟨layer, hlayer, h⟩
      refine TurnKeeps.mono ?_ hproves
      have hchoose : TurnKeeps env (Proves layer) s.fs (final (chooseStorage env amb layer a s)).fs :=
        turnKeeps_chooseStorage hlossless hready haccounts hfresh
      rw [final_createHandler hlayer]
      cases hrun : chooseStorage env amb layer a s with
      | error e t =>
          rw [hrun] at hchoose
          exact hchoose
      | ok choice t =>
          rw [hrun] at hchoose
          cases choice with
          | none => exact hchoose
          | some storagePath =>
              have hchosen := chosen_of_ok (fun id hid => (hfresh id hid).1) hrun
              obtain ⟨hroot, hown⟩ := own_of_chosen hlossless haccounts hchosen
              exact hchoose.outside hroot hown (keeps_openRequest t (hroot.parent hchoose.ready))

/-- An accepted request was given a storage, and opened there. -/
theorem of_createHandler_ok {g : Handler} {res : Pocket} {t : State}
    (h : createHandler env amb request a s = .ok (some (g, res)) t) :
    ∃ layer storagePath u, request.requestLayer = some layer ∧
      chooseStorage env amb layer a s = .ok (some storagePath) u ∧
      openRequest env amb request layer a storagePath u = .ok (some (g, res)) t := by
  cases hlayer : request.requestLayer with
  | none =>
      simp only [createHandler, hlayer] at h
      cases h
  | some layer =>
      simp only [createHandler, hlayer] at h
      obtain ⟨choice, u, hchoose, h⟩ := bind_ok_iff.mp h
      cases choice with
      | none => cases h
      | some storagePath => exact ⟨layer, storagePath, u, rfl, hchoose, h⟩

/-- The handler of an accepted request has a storage of its own. -/
theorem owns_of_createHandler {g : Handler} {res : Pocket} {t : State} (hlossless : Lossless env)
    (hready : StorageReady env s.fs) (haccounts : AccountsOwn env s.fs)
    (hfresh : NewIds env s.fs amb)
    (h : createHandler env amb request a s = .ok (some (g, res)) t) : Owns env t.fs g := by
  obtain ⟨layer, storagePath, u, hlayer, hchoose, hopen⟩ := of_createHandler_ok h
  have hturn : TurnKeeps env (Proves layer) s.fs (final (chooseStorage env amb layer a s)).fs :=
    turnKeeps_chooseStorage hlossless hready haccounts hfresh
  rw [hchoose, final_ok] at hturn
  have hchosen := chosen_of_ok (fun id hid => (hfresh id hid).1) hchoose
  obtain ⟨hroot, hown⟩ := own_of_chosen hlossless haccounts hchosen
  have hfile : t.fs.get? (accountFile env) = u.fs.get? (accountFile env) := by
    have hkept : (final (openRequest env amb request layer a storagePath u)).fs.get?
        (accountFile env) = u.fs.get? (accountFile env) :=
      file_of_openRequest hturn.ready hroot
    rwa [hopen, final_ok] at hkept
  obtain ⟨hrequest, hpath⟩ := base_of_openRequest hopen
  rw [← hpath] at hroot hown
  refine ⟨hroot, ⟨layer, hrequest ▸ hlayer, hown.stay (.of_file hfile)⟩, fun hupload => ?_⟩
  cases g with
  | download g => cases hupload
  | upload g => exact (openRequest_upload hopen).2

end Create

end Turn

-- ============================================================================
-- Runs
-- ============================================================================

/-- The pocket opens a request of the user, or completes an upload of one. -/
def TurnFor (handlers : Dict Nat Handler) (p : Pocket) (name : Str) (userData : UserData) : Prop :=
  p.basicLayer.pocketType = .request ∧ Authentic p name userData ∨
    ∃ u, completedBy handlers p = some u ∧ Authentic u.request name userData

/-- The event brings such a pocket. -/
def ActsFor (s : Server) (e : Event) (name : Str) (userData : UserData) : Prop :=
  ∃ data a amb p, e = .recv data a amb ∧ Pocket.fromBytes data = .ok p ∧
    TurnFor s.handlers p name userData

/-- The invariant of the process about the storage and who may use it. -/
structure Isolated (env : Env) (s : Server) : Prop where
  app : AppInv s
  ready : StorageReady env s.app.fs
  accounts : AccountsOwn env s.app.fs
  owns : ∀ r g, s.handlers.get? r = some g → Owns env s.app.fs g

section Runs

variable {s t : Server} {e : Event}

theorem Owns.same {fs : FileTree} {g g' : Handler} (h : Owns env fs g) (hbase : g'.base = g.base)
    (hkind : g'.isDownload = g.isDownload) : Owns env fs g' :=
  ⟨hbase ▸ h.root, hbase ▸ h.own, fun hupload => hbase ▸ h.accepted (hkind ▸ hupload)⟩

/-- What a worker leaves in the table was there, with the same request. -/
theorem TaskEffect.inherits {clk : Readings} {task : Task} {result : Option Task}
    {handlers : Dict Nat Handler} {new : List Action}
    (h : TaskEffect clk s task result handlers new) {r : Nat} {g : Handler}
    (hg : handlers.get? r = some g) :
    ∃ f, s.handlers.get? r = some f ∧ g.base = f.base ∧ g.isDownload = f.isDownload := by
  rcases h.replaces with rfl | ⟨f, f', hf, hsame, rfl⟩ | ⟨f, -, -, -, rfl⟩
  · exact ⟨g, hg, rfl, rfl⟩
  · rw [Dict.get?_set] at hg
    split at hg
    · next hr =>
        cases hg
        exact ⟨f, hr ▸ hf, hsame.base, hsame.kind⟩
    · exact ⟨g, hg, rfl, rfl⟩
  · rw [Dict.get?_erase] at hg
    split at hg
    · cases hg
    · exact ⟨g, hg, rfl, rfl⟩

/-- The file work of a turn, by whose directory it changes. -/
theorem turnKeeps_of_fileWork {amb : Ambient} {p : Pocket} {a : Addr} {ok : Bool} {fs : FileTree}
    (hlossless : Lossless env) (h : Isolated env s)
    (hfresh : NewIds env s.app.fs amb)
    (hwork : FileWork env amb s.app s.handlers p a ok fs) :
    TurnKeeps env (TurnFor s.handlers p) s.app.fs fs := by
  have hcreate : ∀ pre, p.basicLayer.pocketType = .request →
      TurnKeeps env (TurnFor s.handlers p) s.app.fs
      (final (createHandler env amb p a { s.app with log := s.app.log ++ pre })).fs :=
    fun pre htype => (turnKeeps_createHandler (s := { s.app with log := s.app.log ++ pre })
      hlossless h.ready h.accounts hfresh).mono fun _ _ hauth => Or.inl ⟨htype, hauth⟩
  have hstore : ∀ u layer fs', completedBy s.handlers p = some u →
      u.request.uploadRequestLayer = some layer →
      final (storeUpload env amb.now (getPath env layer.path u.storagePath)
        (assembled u.segments) s.app.fs) = fs' →
        TurnKeeps env (TurnFor s.handlers p) s.app.fs fs' := by
    intro u layer fs' hcompleted hlayer hrun
    obtain ⟨g, segment, hfound, -, -, rfl, -⟩ := completedBy_eq_some_iff.mp hcompleted
    have hsame := same_store g segment
    obtain ⟨hroot, ⟨request, hrequest, hown⟩, haccepted⟩ :=
      (h.owns _ _ hfound).same hsame.base hsame.kind
    have hproves : ∀ name userData, Proves request name userData →
        TurnFor s.handlers p name userData :=
      fun _ _ hproves => Or.inr ⟨_, hcompleted, request, hrequest, hproves⟩
    refine TurnKeeps.mono (TurnKeeps.outside (.refl h.ready h.accounts) hroot hown ?_) hproves
    have hkeeps : Keeps (confined (rootOf env (g.store segment).storagePath))
        (storeUpload env amb.now (getPath env layer.path (g.store segment).storagePath)
          (assembled (g.store segment).segments)) :=
      keeps_storeUpload (normal_getPath env _ _) (prefix_of_inStorage env (haccepted rfl layer hlayer))
    rw [← hrun]
    exact hkeeps s.app.fs (hroot.parent h.ready)
  cases hwork with
  | idle _ => exact .refl h.ready h.accounts
  | @request pre result t htype run =>
      have hend := hcreate pre htype
      rwa [run, final_ok] at hend
  | @requestFailed pre e t htype run =>
      have hend := hcreate pre htype
      rwa [run, final_error] at hend
  | stored _ completed request run => exact hstore _ _ _ completed request (by rw [run, final_ok])
  | storeFailed _ completed request run =>
      exact hstore _ _ _ completed request (by rw [run, final_error])

/-- A handler after a step was there with the same request, or the step opened it. -/
inductive Origin (env : Env) (s : Server) (e : Event) (fs : FileTree) (r : Nat) (g : Handler) :
    Prop where
  | kept {f : Handler} (found : s.handlers.get? r = some f) (base : g.base = f.base)
      (kind : g.isDownload = f.isDownload)
  | opened {data : Bytes} {a : Addr} {amb : Ambient} {p res : Pocket} {pre : List Action}
      {u : State} (event : e = .recv data a amb) (decoded : Pocket.fromBytes data = .ok p)
      (run : createHandler env amb p a { s.app with log := s.app.log ++ pre } =
        .ok (some (g, res)) u) (files : u.fs = fs)

theorem origin_of_step (h : AppInv s) (hstep : App.step env s e = some t) {r : Nat} {g : Handler}
    (hg : t.handlers.get? r = some g) : Origin env s e t.app.fs r g := by
  cases e with
  | timeout =>
      rw [step_timeout hstep] at hg
      exact .kept hg rfl rfl
  | task i clk =>
      obtain ⟨task, task', result, handlers, new, -, -, -, heffect, rfl⟩ := (step_task hstep).effect
      obtain ⟨f, hf, hbase, hkind⟩ := heffect.inherits hg
      exact .kept hf hbase hkind
  | recv data a amb =>
      obtain ⟨-, hrecv⟩ := step_recv hstep
      cases hrecv with
      | quiet tables _ _ _ =>
          rw [show t.handlers = s.handlers from congrArg Tables.handlers tables] at hg
          exact .kept hg rfl rfl
      | turn decoded effect _ _ _ _ _ =>
          cases hold : s.handlers.get? r with
          | some f =>
              obtain ⟨hbase, hkind⟩ := effect.kept h.server.tables r f g hold hg
              exact .kept hold hbase hkind
          | none =>
              rcases opensOnly_of_recv decoded hstep with
                hno | ⟨-, pre, f, res, u, hrun, rfl, hset⟩
              · rw [hno r hold] at hg
                cases hg
              · rw [hset, Dict.get?_set] at hg
                split at hg
                · cases hg
                  exact .opened rfl decoded hrun rfl
                · rw [hold] at hg
                  cases hg

theorem Isolated.step (hlossless : Lossless env) (h : Isolated env s) (hfresh : FreshIds env s e)
    (hstep : App.step env s e = some t) :
    Isolated env t ∧ TurnKeeps env (ActsFor s e) s.app.fs t.app.fs := by
  have hturn : TurnKeeps env (ActsFor s e) s.app.fs t.app.fs := by
    cases e with
    | timeout =>
        rw [step_timeout hstep]
        exact .refl h.ready h.accounts
    | task i clk =>
        obtain ⟨task, task', handlers, new, -, -, -, rfl⟩ := (step_task hstep).worked
        exact .refl h.ready h.accounts
    | recv data a amb =>
        obtain ⟨-, ⟨-, hfs⟩ | ⟨p, ok, hdecode, hwork, -⟩⟩ := fileWork_of_recv hstep
        · rw [hfs]
          exact .refl h.ready h.accounts
        · exact (turnKeeps_of_fileWork hlossless h hfresh hwork).mono fun _ _ hfor =>
            ⟨data, a, amb, p, rfl, hdecode, hfor⟩
  refine ⟨⟨h.app.step hstep, hturn.ready, hturn.accounts, fun r g hg => ?_⟩, hturn⟩
  cases origin_of_step h.app hstep hg with
  | kept found base kind => exact ((h.owns r _ found).same base kind).stay hturn.stay
  | @opened data a amb p res pre u event decoded run files =>
      subst event
      rw [← files]
      exact owns_of_createHandler (s := { s.app with log := s.app.log ++ pre }) hlossless h.ready
        h.accounts hfresh run

theorem isolated_init {fs : FileTree} (hready : StorageReady env fs)
    (haccounts : AccountsOwn env fs) : Isolated env (Server.init fs) where
  app := appInv_init fs
  ready := hready
  accounts := haccounts
  owns r g hg := by cases hg

theorem isolated_of_exec {fs : FileTree} {es : List Event} (hlossless : Lossless env)
    (hready : StorageReady env fs) (haccounts : AccountsOwn env fs)
    (hfresh : AllSteps (App.step env) (FreshIds env) (Server.init fs) es)
    (h : exec (App.step env) (Server.init fs) es = some s) : Isolated env s :=
  exec_invariant_of (Isolated env) (FreshIds env) (isolated_init hready haccounts)
    (fun _ _ _ hs hC hstep => (hs.step hlossless hC hstep).1) hfresh h

/-- **The directories of the users are their own.**  In every run of the process, whatever
    arrives, a step that changes anything below the directory of a user opens a
    request with the user's name and password, or completes an upload of one. -/
theorem private_integrity {fs : FileTree} {es : List Event} (hlossless : Lossless env)
    (hready : StorageReady env fs) (haccounts : AccountsOwn env fs)
    (hfresh : AllSteps (App.step env) (FreshIds env) (Server.init fs) (es ++ [e]))
    (h : exec (App.step env) (Server.init fs) es = some s) (hstep : App.step env s e = some t)
    {name : Str} {userData : UserData} (haccount : account env t.app.fs name = some userData)
    {p : Path} (hp : userRoot env userData.id <+: p)
    (hchange : t.app.fs.get? p ≠ s.app.fs.get? p) : ActsFor s e name userData :=
  ((isolated_of_exec hlossless hready haccounts hfresh.of_concat h).step hlossless
    (hfresh.last h) hstep).2.users name userData haccount p hp hchange

/-- `ann` registers with an upload of two bytes to `f`. -/
def annUpload : Pocket :=
  { basicLayer := ⟨0, .request, .upload⟩
    requestLayer := some ⟨2, 1500, false, "ann".toList, "secret".toList⟩
    uploadRequestLayer := some ⟨"f".toList⟩ }

def annEvents : List Event := [.recv annUpload.datagram (['c'], 8001) ⟨0, [annId]⟩]

/-- The only segment of the upload, from another address. -/
def annSegment : Event := .recv (segmentPocket 1 0 [1, 7]).datagram (['d'], 9000) ⟨0, []⟩

theorem isolated_annEvents :
    StorageReady accountEnv (installed accountEnv) ∧ AccountsOwn accountEnv (installed accountEnv) ∧
      AllSteps (App.step accountEnv) (FreshIds accountEnv) (Server.init (installed accountEnv))
        (annEvents ++ [annSegment]) := by
  have hempty : storedAccounts accountEnv (installed accountEnv) = some ⟨Dict.empty⟩ := by
    decide +kernel
  have hplain : Plain annId := by decide +kernel
  refine ⟨⟨by decide +kernel, by decide +kernel⟩, .of_empty hempty, ?_⟩
  refine allSteps_cons (fun id hid => ?_) fun _ _ => allSteps_cons (fun id hid => ?_) fun _ _ =>
    allSteps_nil
  · rw [List.mem_singleton.mp hid]
    refine ⟨hplain, fun name _ h => ?_⟩
    rw [show account accountEnv (Server.init (installed accountEnv)).app.fs name = none from
      account_of_empty hempty name] at h
    cases h
  · cases hid

theorem private_integrity_annSegment :
    ∃ s t, exec (App.step accountEnv) (Server.init (installed accountEnv)) annEvents = some s ∧
      App.step accountEnv s annSegment = some t ∧
      t.app.fs.fileAt (userRoot accountEnv annId ++ ["f".toList]) = some [7] ∧
      ActsFor s annSegment "ann".toList ⟨annId, "secret".toList⟩ := by
  have hcheck : ((exec (App.step accountEnv) (Server.init (installed accountEnv)) annEvents).bind
      fun s => (App.step accountEnv s annSegment).map fun t =>
        (account accountEnv t.app.fs "ann".toList,
          t.app.fs.get? (userRoot accountEnv annId ++ ["f".toList]),
          s.app.fs.get? (userRoot accountEnv annId ++ ["f".toList]))) =
      some (some ⟨annId, "secret".toList⟩, some (.file [7] 0), none) := by decide +kernel
  obtain ⟨s, hs, hcheck⟩ := Option.bind_eq_some_iff.mp hcheck
  obtain ⟨t, ht, hfacts⟩ := Option.map_eq_some_iff.mp hcheck
  simp only [Prod.mk.injEq] at hfacts
  obtain ⟨haccount, hafter, hbefore⟩ := hfacts
  obtain ⟨hready, haccounts, hfresh⟩ := isolated_annEvents
  exact ⟨s, t, hs, ht, by rw [FileTree.fileAt, hafter],
    private_integrity lossless_accountEnv hready haccounts hfresh hs ht haccount
      (List.prefix_append _ _) (by rw [hafter, hbefore]; simp)⟩

end Runs

end App
end NetworkingFinal
