/-
  NetworkingFinal.App.Secrecy

  What a user stores is nobody else's business.

  Two processes that differ in the directory of a user only take the same turns, send
  the same datagrams and fail in the same places, as long as nobody sends the
  user's name and password (`private_secrecy`): whatever the others send, the
  answers tell nothing about the user's files.
-/
import NetworkingFinal.App.Isolation

namespace NetworkingFinal
namespace App

open Py Py.Prog Py.Os Py.PosixPath Ftp Lib

variable {env : Env}

-- ============================================================================
-- Files that differ in one directory
-- ============================================================================

/-- The filesystems of two storages agree on the accounts and, with the order of the
    entries, on every storage root but `u`. -/
structure AlikeBut (env : Env) (u : Path) (fs fs' : FileTree) : Prop where
  left : StorageReady env fs
  right : StorageReady env fs'
  file : fs.get? (accountFile env) = fs'.get? (accountFile env)
  roots : ∀ storagePath, StorageRoot env storagePath → rootOf env storagePath ≠ u →
    fs.below (rootOf env storagePath) = fs'.below (rootOf env storagePath)

section Files

variable {u : Path} {fs fs' : FileTree} {storagePath : Str}

theorem StorageReady.putEntry {e : Entry} {q : Path} (h : StorageReady env fs)
    (hq : q ≠ privateRoot env) (hput : put e fs q = some fs') : StorageReady env fs' := by
  refine .of_users ?_
  rw [FileTree.isDir, get?_of_put hput, if_neg (Ne.symm hq)]
  exact h.users

theorem below_of_put {e : Entry} {q r : Path} (h : put e fs q = some fs') :
    fs'.below r = if r <+: q then (fs.below r).set q e else fs.below r := by
  obtain ⟨hc, rfl⟩ := put_eq_some_iff.mp h
  split
  · next hr => exact FileTree.below_insert hc hr
  · next hr => exact FileTree.below_insert_of_not hc hr

/-- The same entry at the same place. -/
theorem AlikeBut.putEntry {t t' : FileTree} {e : Entry} {q : Path} (h : AlikeBut env u fs fs')
    (hq : q ≠ privateRoot env) (hput : put e fs q = some t) (hput' : put e fs' q = some t') :
    AlikeBut env u t t' where
  left := h.left.putEntry hq hput
  right := h.right.putEntry hq hput'
  file := by rw [get?_of_put hput, get?_of_put hput', h.file]
  roots path hroot hne := by rw [below_of_put hput, below_of_put hput', h.roots path hroot hne]

/-- Work below another storage root keeps the filesystems alike. -/
theorem couples_alikeBut (hroot : StorageRoot env storagePath) (hne : rootOf env storagePath ≠ u) :
    Couples (rootOf env storagePath) (AlikeBut env u) where
  agree h := ⟨h.roots storagePath hroot hne, hroot.parent h.left, hroot.parent h.right⟩
  removeTree {s t q} h hq hnil := by
    have hout : ∀ fs : FileTree, ∀ p, ¬ rootOf env storagePath <+: p →
        (fs.removeTree q).get? p = fs.get? p := by
      intro fs p hp
      rw [FileTree.get?_removeTree hnil, if_neg fun hqp => hp (hq.trans hqp)]
    refine ⟨h.left.outside hroot (hout s), h.right.outside hroot (hout t), ?_, fun path hpath hu => ?_⟩
    · rw [hout s _ (not_prefix_accountFile hroot), hout t _ (not_prefix_accountFile hroot), h.file]
    · rw [FileTree.below_removeTree, FileTree.below_removeTree, h.roots path hpath hu]
  put {s t s' t' q e} h hq hs ht := by
    refine h.putEntry ?_ hs ht
    rintro rfl
    exact hroot.not_prefix_privateRoot hq

end Files

-- ============================================================================
-- Choosing the storage
-- ============================================================================

section Choosing

variable {id : Str} {amb : Ambient} {layer : RequestLayer} {a : Addr}

/-- Without `..` in its path, the storage is found wherever it is in place. -/
theorem resolve_inStorage {fs : FileTree} {rest : Str}
    (hdots : ['.', '.'] ∉ comps env.config.APP_STORAGE_PATH) (h : StorageReady env fs)
    (hrest : ∀ c ∈ comps rest, Plain c) :
    resolve env.cwd fs (env.config.APP_STORAGE_PATH ++ '/' :: rest) =
      .ok (rootOf env env.config.APP_STORAGE_PATH ++ comps rest) :=
  resolve_append_slash env.config.path_ne
    (resolve_of_isDir env.cwd_abs env.cwd_plain env.config.path_ne hdots h.storage) hrest

theorem resolve_dataFile {fs : FileTree}
    (hdots : ['.', '.'] ∉ comps env.config.APP_STORAGE_PATH) (h : StorageReady env fs) :
    resolve env.cwd fs (dataFile env) = .ok (accountFile env) := by
  have hname : comps "data.json".toList = ["data.json".toList] := by decide
  rw [dataFile_eq, resolve_inStorage hdots h (by rw [hname]; decide), hname, accountFile_eq]

theorem resolve_userDirectory {fs : FileTree}
    (hdots : ['.', '.'] ∉ comps env.config.APP_STORAGE_PATH) (h : StorageReady env fs)
    (hid : Plain id) :
    resolve env.cwd fs (userDirectory env id) = .ok (userRoot env id) := by
  have hpath : userDirectory env id =
      env.config.APP_STORAGE_PATH ++ '/' :: ("private".toList ++ '/' :: id) := by
    rw [userDirectory, STORAGE_PRIVATE_eq]
    simp
  have hnames : comps ("private".toList ++ '/' :: id) = ["private".toList, id] := by
    rw [comps_append_slash, comps_of_notMem hid.2.1 hid.1]
    rfl
  rw [hpath, resolve_inStorage hdots h, hnames, userRoot, privateRoot_eq, List.append_assoc]
  · rfl
  · rw [hnames]
    intro c hc
    rcases List.mem_cons.mp hc with rfl | hc
    · decide
    · rw [List.mem_singleton.mp hc]
      exact hid

/-- The account file is written on both sides or on none. -/
theorem AlikeBut.put_accounts {u : Path} {fs fs' : FileTree} (e : Entry)
    (h : AlikeBut env u fs fs') :
    (∃ t t', put e fs (accountFile env) = some t ∧ put e fs' (accountFile env) = some t' ∧
      AlikeBut env u t t') ∨
      (put e fs (accountFile env) = none ∧ put e fs' (accountFile env) = none) := by
  have hhome : ∀ fs : FileTree, StorageReady env fs →
      fs.isDir (accountFile env).dropLast = true := by
    intro fs hready
    rw [accountFile_eq, List.dropLast_concat]
    exact hready.storage
  have hcreatable : fs.Creatable (accountFile env) ↔ fs'.Creatable (accountFile env) := by
    have hdir : fs.isDir (accountFile env) = fs'.isDir (accountFile env) := by
      rw [FileTree.isDir, FileTree.isDir, h.file]
    rw [FileTree.Creatable, FileTree.Creatable, hhome fs h.left, hhome fs' h.right, hdir]
  have hne : accountFile env ≠ privateRoot env := by
    rw [accountFile_eq, privateRoot_eq, Ne, List.append_cancel_left_eq]
    decide
  by_cases hc : fs.Creatable (accountFile env)
  · have hput : put e fs (accountFile env) = some _ := put_eq_some_iff.mpr ⟨hc, rfl⟩
    have hput' : put e fs' (accountFile env) = some _ :=
      put_eq_some_iff.mpr ⟨hcreatable.mp hc, rfl⟩
    exact Or.inl ⟨_, _, hput, hput', h.putEntry hne hput hput'⟩
  · exact Or.inr ⟨dif_neg hc, dif_neg fun hc' => hc (hcreatable.mpr hc')⟩

theorem rootOf_user {id' : Str} (hid' : Plain id') :
    StorageRoot env (userDirectory env id' ++ ['/']) ∧
      rootOf env (userDirectory env id' ++ ['/']) = userRoot env id' :=
  ⟨Or.inr ⟨id', hid', rfl⟩, (userRoot_eq hid').symm⟩

theorem userRoot_ne {id id' : Str} (h : id' ≠ id) : userRoot env id' ≠ userRoot env id := by
  rw [userRoot, userRoot, Ne, List.append_cancel_left_eq, List.singleton_inj]
  exact h

/-- Registering somebody else. -/
theorem coupled_registerUser {storageData : StorageData}
    (hdots : ['.', '.'] ∉ comps env.config.APP_STORAGE_PATH)
    (hids : ∀ id' ∈ amb.uuids, Plain id' ∧ id' ≠ id) :
    Coupled (AlikeBut env (userRoot env id)) (registerUser env amb storageData layer)
      (registerUser env amb storageData layer) := by
  have hthere : ∀ id', Plain id' → ∀ fs fs', AlikeBut env (userRoot env id) fs fs' →
      resolve env.cwd fs (userDirectory env id') = .ok (userRoot env id') ∧
        resolve env.cwd fs' (userDirectory env id') = .ok (userRoot env id') :=
    fun id' hplain fs fs' h => ⟨resolve_userDirectory hdots h.left hplain,
      resolve_userDirectory hdots h.right hplain⟩
  have hcouples : ∀ id', Plain id' → id' ≠ id →
      Couples (userRoot env id') (AlikeBut env (userRoot env id)) := by
    intro id' hplain hne
    have hroot : StorageRoot env (userDirectory env id' ++ ['/']) := Or.inr ⟨id', hplain, rfl⟩
    have heq : rootOf env (userDirectory env id' ++ ['/']) = userRoot env id' :=
      (userRoot_eq hplain).symm
    exact heq ▸ couples_alikeBut hroot (heq ▸ userRoot_ne hne)
  have hfresh : ∀ ids, (∀ id' ∈ ids, Plain id' ∧ id' ≠ id) →
      Coupled (AlikeBut env (userRoot env id)) (freshId env ids) (freshId env ids) := by
    intro ids
    induction ids with
    | nil => exact fun _ => coupled_throw _
    | cons id' ids ih =>
        intro hall
        obtain ⟨hplain, hne⟩ := hall id' List.mem_cons_self
        have := hcouples id' hplain hne
        refine coupled_bind (coupled_query_of (hthere id' hplain) fun s t h =>
          FileTree.isDir_congr (Couples.agree h).below (List.prefix_refl _)) fun taken => ?_
        exact coupled_ite (fun _ => ih fun id'' h => hall id'' (List.mem_cons_of_mem _ h)) fun _ =>
          coupled_pure _
  refine coupled_bind_of (fun id' => id' ∈ amb.uuids) (hfresh _ hids)
    (fun _ _ _ h => (mem_of_freshId h).1) fun id' hid' => ?_
  obtain ⟨hplain, hne⟩ := hids id' hid'
  have := hcouples id' hplain hne
  refine coupled_bind (coupled_update_of (hthere id' hplain) fun s t h =>
    Couples.mkdir_both h (List.prefix_refl _)) fun _ => coupled_bind ?_ fun _ => coupled_pure _
  exact coupled_update_of (fun s t h => ⟨resolve_dataFile hdots h.left,
    resolve_dataFile hdots h.right⟩) fun s t h => h.put_accounts _

/-- The choice does not depend on the directory of a user who is not drawn again. -/
theorem coupled_chooseStorage_alike (hdots : ['.', '.'] ∉ comps env.config.APP_STORAGE_PATH)
    (hids : ∀ id' ∈ amb.uuids, Plain id' ∧ id' ≠ id) :
    Coupled (AgreeIn (AlikeBut env (userRoot env id))) (chooseStorage env amb layer a)
      (chooseStorage env amb layer a) := by
  have hrefuse : ∀ msg, Coupled (AgreeIn (AlikeBut env (userRoot env id)))
      (sendError msg a >>= fun _ => (pure none : Prog State (Option Str)))
      (sendError msg a >>= fun _ => pure none) := fun msg =>
    coupled_bind coupled_sendto fun _ => coupled_pure _
  have hread : Coupled (AlikeBut env (userRoot env id)) (readFile env.cwd (dataFile env))
      (readFile env.cwd (dataFile env)) :=
    coupled_fetch_of (fun s t h => ⟨resolve_dataFile hdots h.left, resolve_dataFile hdots h.right⟩)
      fun s t h => by simp only [h.file]
  unfold chooseStorage
  refine coupled_ite (fun _ => coupled_pure _) fun _ =>
    coupled_ite (fun _ => hrefuse _) fun _ => ?_
  refine coupled_bind (coupled_onFiles hread) fun content => ?_
  split
  · exact coupled_throw _
  · split
    · exact coupled_ite (fun _ => coupled_pure _) fun _ => hrefuse _
    · exact coupled_bind (coupled_onFiles (coupled_registerUser hdots hids)) fun _ =>
        coupled_pure _

end Choosing

-- ============================================================================
-- Requests of others
-- ============================================================================

section Others

variable {name : Str} {userData : UserData} {amb : Ambient} {request p : Pocket} {a : Addr}

/-- A request of somebody else does not depend on the user's files. -/
theorem sameEnd_createHandler {s s' : State} (hlossless : Lossless env)
    (hdots : ['.', '.'] ∉ comps env.config.APP_STORAGE_PATH) (hready : StorageReady env s.fs)
    (haccounts : AccountsOwn env s.fs) (hfresh : NewIds env s.fs amb)
    (haccount : account env s.fs name = some userData) (hother : ¬ Authentic request name userData)
    (hst : AgreeIn (AlikeBut env (userRoot env userData.id)) s s') :
    SameEnd (AgreeIn (AlikeBut env (userRoot env userData.id)))
      (createHandler env amb request a s) (createHandler env amb request a s') := by
  have hids : ∀ id ∈ amb.uuids, Plain id ∧ id ≠ userData.id := fun id hid =>
    ⟨(hfresh id hid).1, Ne.symm ((hfresh id hid).2 name userData haccount)⟩
  cases hlayer : request.requestLayer with
  | none =>
      simp only [createHandler, hlayer]
      exact ⟨rfl, hst⟩
  | some layer =>
      simp only [createHandler, hlayer]
      refine sameEnd_bind (coupled_chooseStorage_alike hdots hids s s' hst)
        fun choice t t' hchoose _ ht => ?_
      cases choice with
      | none => exact ⟨rfl, ht⟩
      | some storagePath =>
          have hturn : TurnKeeps env (Proves layer) s.fs
              (final (chooseStorage env amb layer a s)).fs :=
            turnKeeps_chooseStorage hlossless hready haccounts hfresh
          rw [hchoose, final_ok] at hturn
          obtain ⟨hroot, hown⟩ := own_of_chosen hlossless haccounts
            (chosen_of_ok (fun id hid => (hfresh id hid).1) hchoose)
          have hne : rootOf env storagePath ≠ userRoot env userData.id := fun heq =>
            hother ⟨layer, hlayer,
              proves_of_own hturn.accounts hown (hturn.stay _ _ haccount) heq⟩
          have := couples_alikeBut hroot hne
          exact coupled_openRequest t t' ht

end Others

-- ============================================================================
-- Turns
-- ============================================================================

/-- The processes are the same but for the directory `u`. -/
def Alike (env : Env) (u : Path) (s s' : Server) : Prop :=
  ∃ fs', AlikeBut env u s.app.fs fs' ∧ s' = { s with app := { s.app with fs := fs' } }

section Turns

variable {u : Path} {amb : Ambient} {p : Pocket} {a : Addr}

theorem Alike.app {s s' : Server} (h : Alike env u s s') : AgreeIn (AlikeBut env u) s.app s'.app := by
  obtain ⟨fs', hfs, rfl⟩ := h
  exact ⟨hfs, rfl, rfl⟩

theorem sameEnd_onApp {α : Type} {x : Prog State α} {s s' : Server} (h : Alike env u s s')
    (hx : SameEnd (AgreeIn (AlikeBut env u)) (x s.app) (x s'.app)) :
    SameEnd (Alike env u) (onApp x s) (onApp x s') := by
  refine sameEnd_zoom hx fun t t' ht => ⟨t'.fs, ht.fs, ?_⟩
  obtain ⟨fs', -, rfl⟩ := h
  obtain ⟨fs'', id', log'⟩ := t'
  obtain ⟨-, rfl, rfl⟩ := ht
  rfl

theorem coupled_onApp {α : Type} {x : Prog State α} (hx : Coupled (AgreeIn (AlikeBut env u)) x x) :
    Coupled (Alike env u) (onApp x) (onApp x) :=
  fun _ _ h => sameEnd_onApp h (hx _ _ h.app)

/-- A change of the tables only. -/
theorem coupled_tables {f : Server → Server}
    (hf : ∀ s fs', f { s with app := { s.app with fs := fs' } } =
      { f s with app := { (f s).app with fs := fs' } })
    (happ : ∀ s, (f s).app = s.app) :
    Coupled (Alike env u) (modify f : Prog Server PUnit) (modify f) := by
  refine coupled_modify fun s s' h => ?_
  obtain ⟨fs', hfs, rfl⟩ := h
  exact ⟨fs', by rw [happ]; exact hfs, hf s fs'⟩

theorem coupled_setHandler {k : Nat} {g : Handler} :
    Coupled (Alike env u) (setHandler k g) (setHandler k g) :=
  coupled_tables (fun _ _ => rfl) fun _ => rfl

theorem coupled_setNotReady {k : Nat} {res : Pocket} :
    Coupled (Alike env u) (setNotReady k res) (setNotReady k res) :=
  coupled_tables (fun _ _ => rfl) fun _ => rfl

theorem coupled_submit {k : Nat} : Coupled (Alike env u) (submit k) (submit k) :=
  coupled_tables (fun _ _ => rfl) fun _ => rfl

theorem coupled_getHandler {k : Nat} : Coupled (Alike env u) (getHandler k) (getHandler k) := by
  refine coupled_reads fun s s' h => ?_
  obtain ⟨fs', -, rfl⟩ := h
  rfl

theorem coupled_popHandler {k : Nat} : Coupled (Alike env u) (popHandler k) (popHandler k) :=
  coupled_bind coupled_getHandler fun _ => coupled_tables (fun _ _ => rfl) fun _ => rfl

theorem coupled_popNotReady {k : Nat} : Coupled (Alike env u) (popNotReady k) (popNotReady k) := by
  refine coupled_writes fun s s' h => ?_
  obtain ⟨fs', hfs, rfl⟩ := h
  cases hk : s.notReady.get? k with
  | none => exact Or.inr ⟨.keyError, rfl, rfl⟩
  | some res => exact Or.inl ⟨_, _, rfl, rfl, fs', hfs, rfl⟩

theorem coupled_resendNotReady : Coupled (Alike env u) (resendNotReady p) (resendNotReady p) := by
  rintro s _ ⟨fs', hfs, rfl⟩
  refine coupled_each (fun entry _ => coupled_ite (fun _ => coupled_pure _) fun _ => ?_) s _
    ⟨fs', hfs, rfl⟩
  exact coupled_bind coupled_getHandler fun h => coupled_onApp coupled_sendto

/-- A pocket for an upload of somebody else. -/
theorem coupled_handleUploadPocket {k : Nat} {g : UploadRequestHandler}
    (hroot : StorageRoot env g.storagePath) (hne : rootOf env g.storagePath ≠ u)
    (haccepted : AcceptedPath env g.request g.storagePath) :
    Coupled (Alike env u) (handleUploadPocket env amb k g p)
      (handleUploadPocket env amb k g p) := by
  unfold handleUploadPocket
  split
  · exact coupled_pure _
  · next segment _ =>
      refine coupled_ite (fun _ => coupled_pure _) fun _ => ?_
      refine coupled_bind coupled_setHandler fun _ => ?_
      refine coupled_bind (coupled_onApp coupled_sendto) fun _ =>
        coupled_ite (fun _ => ?_) fun _ => coupled_pure _
      refine coupled_bind (coupled_onApp coupled_sendto) fun _ =>
        coupled_bind (coupled_onApp ?_) fun _ => coupled_pure _
      rw [store_base]
      have := couples_alikeBut hroot hne
      exact coupled_postUpload g.toRequestHandler haccepted

theorem sameEnd_dispatch {s s' : Server} (h : Alike env u s s')
    (hcreate : p.basicLayer.pocketType = .request → SameEnd (AgreeIn (AlikeBut env u))
      (createHandler env amb p a s.app) (createHandler env amb p a s'.app))
    (hupload : ∀ g, s.handlers.get? p.requestID = some (.upload g) →
      StorageRoot env g.storagePath ∧ rootOf env g.storagePath ≠ u ∧
        AcceptedPath env g.request g.storagePath) :
    SameEnd (Alike env u) (dispatch env amb p a s) (dispatch env amb p a s') := by
  unfold dispatch
  by_cases hreq : p.basicLayer.pocketType = .request
  · rw [if_pos hreq]
    refine sameEnd_bind (sameEnd_onApp h (hcreate hreq)) fun result t t' _ _ ht => ?_
    cases result with
    | none => exact ⟨rfl, ht⟩
    | some opened =>
        exact coupled_bind (coupled_when fun _ => coupled_setNotReady)
          (fun _ => coupled_setHandler) t t' ht
  · rw [if_neg hreq]
    obtain ⟨fs', hfs, rfl⟩ := h
    have hst : Alike env u s { s with app := { s.app with fs := fs' } } := ⟨fs', hfs, rfl⟩
    refine sameEnd_get_bind ?_
    cases hfound : s.handlers.get? p.requestID with
    | none => exact coupled_onApp coupled_sendto s _ hst
    | some g =>
        cases g with
        | upload g =>
            obtain ⟨hroot, hne, haccepted⟩ := hupload g hfound
            exact coupled_bind (coupled_handleUploadPocket hroot hne haccepted)
              (fun _ => coupled_when fun _ => coupled_popHandler) s _ hst
        | download g =>
            refine coupled_ite (fun _ => ?_) (fun _ => coupled_setHandler) s _ hst
            exact coupled_bind coupled_setHandler fun _ =>
              coupled_bind coupled_popNotReady fun _ => coupled_submit

/-- A turn of the main loop. -/
theorem sameEnd_iteration {data : Bytes} {s s' : Server} (h : Alike env u s s')
    (hcreate : ∀ p t t', Pocket.fromBytes data = .ok p → p.basicLayer.pocketType = .request →
      t.fs = s.app.fs → AgreeIn (AlikeBut env u) t t' →
      SameEnd (AgreeIn (AlikeBut env u)) (createHandler env amb p a t) (createHandler env amb p a t'))
    (hupload : ∀ r g, s.handlers.get? r = some (.upload g) →
      StorageRoot env g.storagePath ∧ rootOf env g.storagePath ≠ u ∧
        AcceptedPath env g.request g.storagePath) :
    SameEnd (Alike env u) (iteration env amb data a s) (iteration env amb data a s') := by
  unfold iteration
  refine sameEnd_bind (coupled_tables (f := fun s => { s with clientAddress := some a })
    (fun _ _ => rfl) (fun _ => rfl) s s' h) fun _ t t' hs _ ht => ?_
  cases hs
  by_cases hempty : data = []
  · rw [if_pos hempty]
    exact ⟨rfl, ht⟩
  · rw [if_neg hempty]
    cases hdecode : Pocket.fromBytes data with
    | error e => exact ⟨rfl, ht⟩
    | ok p =>
        rw [lift_ok_bind rfl]
        refine sameEnd_bind (coupled_resendNotReady _ _ ht) fun _ v v' hv _ hvv => ?_
        obtain ⟨pre, rfl, -⟩ := wp_of_ok wp_resendNotReady hv
        exact sameEnd_dispatch hvv (fun htype => hcreate p _ _ hdecode htype rfl hvv.app)
          fun g hg => hupload _ g hg

-- ============================================================================
-- Workers
-- ============================================================================

theorem coupled_getDownload {k : Nat} : Coupled (Alike env u) (getDownload k) (getDownload k) := by
  refine coupled_bind coupled_getHandler fun g => ?_
  cases g with
  | download g => exact coupled_pure _
  | upload g => exact coupled_throw _

theorem coupled_taskHead {clk : Readings} {task : Task} :
    Coupled (Alike env u) (taskHead clk task) (taskHead clk task) := by
  unfold taskHead
  refine coupled_ite (fun _ => coupled_pure _) fun _ => coupled_bind coupled_getDownload fun g => ?_
  split
  · refine coupled_ite (fun _ => coupled_bind coupled_setHandler fun _ => ?_) fun _ => coupled_pure _
    intro s s' hst
    refine sameEnd_get_bind ?_
    have haddress : s'.clientAddress = s.clientAddress := by
      obtain ⟨fs', -, rfl⟩ := hst
      rfl
    rw [haddress]
    cases s.clientAddress with
    | none => exact ⟨rfl, hst⟩
    | some b => exact coupled_bind (coupled_onApp coupled_sendto) (fun _ => coupled_pure _) s _ hst
  · exact coupled_pure _

theorem coupled_taskStep {clk : Readings} {task : Task} :
    Coupled (Alike env u) (taskStep env clk task) (taskStep env clk task) := by
  unfold taskStep
  split
  · refine coupled_bind coupled_getDownload fun g => ?_
    split
    · exact coupled_throw _
    · exact coupled_pure _
  · exact coupled_taskHead
  · refine coupled_bind coupled_getDownload fun g => ?_
    split
    · exact coupled_bind coupled_setHandler fun _ => coupled_pure _
    · exact coupled_ite (fun _ => coupled_bind coupled_setHandler fun _ => coupled_pure _)
        fun _ => coupled_pure _
  · exact coupled_bind coupled_getDownload fun g => coupled_bind (coupled_onApp coupled_sendto)
      fun _ => coupled_pure _
  · exact coupled_bind coupled_getDownload fun g => coupled_bind coupled_popHandler
      fun _ => coupled_pure _
  · exact coupled_pure _
  · exact coupled_pure _

theorem Alike.stopped {s s' : Server} (h : Alike env u s s') : s'.stopped = s.stopped := by
  obtain ⟨fs', -, rfl⟩ := h
  rfl

theorem Alike.tasks {s s' : Server} (h : Alike env u s s') : s'.tasks = s.tasks := by
  obtain ⟨fs', -, rfl⟩ := h
  rfl

theorem Alike.afterRecv {x y : EStateM.Result Exn Server Unit} (h : SameEnd (Alike env u) x y) :
    Alike env u (App.afterRecv x) (App.afterRecv y) := by
  cases x <;> cases y
  · exact h.2
  · exact h.elim
  · exact h.elim
  · obtain ⟨rfl, fs', hfs, rfl⟩ := h
    exact ⟨fs', hfs, rfl⟩

theorem Alike.afterTask {i : Nat} {task : Task} {x y : EStateM.Result Exn Server Task}
    (h : SameEnd (Alike env u) x y) :
    Alike env u (App.afterTask i task x) (App.afterTask i task y) := by
  cases x <;> cases y
  · obtain ⟨rfl, fs', hfs, rfl⟩ := h
    exact ⟨fs', hfs, rfl⟩
  · exact h.elim
  · exact h.elim
  · obtain ⟨rfl, fs', hfs, rfl⟩ := h
    exact ⟨fs', hfs, rfl⟩

/-- A step of the process is possible on both sides, and keeps them alike when its turn of
    the main loop does. -/
theorem Alike.step {e : Event} {s s' t : Server} (h : Alike env u s s')
    (hrecv : ∀ data a amb, e = .recv data a amb →
      SameEnd (Alike env u) (iteration env amb data a s) (iteration env amb data a s'))
    (hstep : App.step env s e = some t) :
    ∃ t', App.step env s' e = some t' ∧ Alike env u t t' := by
  cases e with
  | timeout =>
      obtain rfl := step_timeout hstep
      rw [App.step] at hstep ⊢
      rw [h.stopped]
      split at hstep
      · next hstop => exact ⟨s', if_pos hstop, h⟩
      · cases hstep
  | recv data a amb =>
      rw [App.step] at hstep ⊢
      rw [h.stopped]
      split at hstep
      · next hstop =>
          cases hstep
          exact ⟨_, if_pos hstop, Alike.afterRecv (hrecv data a amb rfl)⟩
      · cases hstep
  | task i clk =>
      have hrunning : running s' i = running s i := by rw [running, running, h.tasks]
      rw [App.step] at hstep ⊢
      rw [h.tasks, hrunning]
      split at hstep
      · next task htask =>
          split at hstep
          · next hrun =>
              cases hstep
              exact ⟨_, if_pos hrun, Alike.afterTask (coupled_taskStep _ _ h)⟩
          · cases hstep
      · cases hstep

end Turns

-- ============================================================================
-- Runs
-- ============================================================================

section Runs

variable {name : Str} {userData : UserData} {s s' t : Server} {e : Event}

/-- The datagram of the event is not a request with the user's name and password. -/
def NotBy (name : Str) (userData : UserData) (e : Event) : Prop :=
  ∀ data a amb p, e = .recv data a amb → Pocket.fromBytes data = .ok p →
    ¬ Authentic p name userData

/-- No request of the user is open. -/
def NoneOpen (s : Server) (name : Str) (userData : UserData) : Prop :=
  ∀ r g, s.handlers.get? r = some g → ¬ Authentic g.base.request name userData

/-- Two processes that differ in the directory of a user who has no open request. -/
structure Away (env : Env) (name : Str) (userData : UserData) (s s' : Server) : Prop where
  isolated : Isolated env s
  account : account env s.app.fs name = some userData
  noneOpen : NoneOpen s name userData
  alike : Alike env (userRoot env userData.id) s s'

theorem request_of_createHandler {amb : Ambient} {p res : Pocket} {a : Addr} {g : Handler}
    {s t : State} (h : createHandler env amb p a s = .ok (some (g, res)) t) :
    g.base.request = p := by
  obtain ⟨_, _, _, -, -, hopen⟩ := of_createHandler_ok h
  exact (base_of_openRequest hopen).1

/-- A datagram of somebody else opens no request of the user. -/
theorem NoneOpen.step (h : NoneOpen s name userData) (happ : AppInv s)
    (hnot : NotBy name userData e) (hstep : App.step env s e = some t) :
    NoneOpen t name userData := by
  intro r g hg
  cases origin_of_step happ hstep hg with
  | kept found base _ =>
      rw [base]
      exact h r _ found
  | opened event decoded run _ =>
      rw [request_of_createHandler run]
      exact hnot _ _ _ _ event decoded

/-- The uploads that are open belong to others. -/
theorem Away.upload (h : Away env name userData s s') {r : Nat} {g : UploadRequestHandler}
    (hg : s.handlers.get? r = some (.upload g)) :
    StorageRoot env g.storagePath ∧ rootOf env g.storagePath ≠ userRoot env userData.id ∧
      AcceptedPath env g.request g.storagePath := by
  obtain ⟨hroot, ⟨layer, hlayer, hown⟩, haccepted⟩ := h.isolated.owns r _ hg
  refine ⟨hroot, fun heq => h.noneOpen r _ hg ⟨layer, hlayer, ?_⟩, haccepted rfl⟩
  exact proves_of_own h.isolated.accounts hown h.account heq

theorem Away.step (hlossless : Lossless env)
    (hdots : ['.', '.'] ∉ comps env.config.APP_STORAGE_PATH) (h : Away env name userData s s')
    (hfresh : FreshIds env s e) (hnot : NotBy name userData e)
    (hstep : App.step env s e = some t) :
    ∃ t', App.step env s' e = some t' ∧ Away env name userData t t' := by
  obtain ⟨hisolated, hturn⟩ := h.isolated.step hlossless hfresh hstep
  have hrecv : ∀ data a amb, e = .recv data a amb →
      SameEnd (Alike env (userRoot env userData.id)) (iteration env amb data a s)
        (iteration env amb data a s') := by
    rintro data a amb rfl
    refine sameEnd_iteration h.alike (fun p u u' hdecode _ hu hst => ?_) fun r g hg => h.upload hg
    exact sameEnd_createHandler hlossless hdots (hu ▸ h.isolated.ready) (hu ▸ h.isolated.accounts)
      (hu ▸ hfresh) (hu ▸ h.account) (hnot data a amb p rfl hdecode) hst
  obtain ⟨t', hstep', halike⟩ := h.alike.step hrecv hstep
  exact ⟨t', hstep', hisolated, hturn.stay _ _ h.account,
    h.noneOpen.step h.isolated.app hnot hstep, halike⟩

/-- Whatever is put into the directory of the user. -/
theorem alikeBut_put {fs fs' : FileTree} {x : Entry} {q : Path} (hready : StorageReady env fs)
    (hid : Plain userData.id) (hq : userRoot env userData.id <+: q) (h : put x fs q = some fs') :
    AlikeBut env (userRoot env userData.id) fs fs' where
  left := hready
  right := by
    refine hready.putEntry (fun heq => ?_) h
    rw [heq, userRoot_eq hid] at hq
    exact (rootOf_user hid).1.not_prefix_privateRoot hq
  file := by
    rw [get?_of_put h, if_neg]
    exact fun heq => accountFile_not_below hid (heq ▸ hq)
  roots storagePath hroot hne := by
    rw [below_of_put h, if_neg fun hbelow => hne ?_]
    rw [userRoot_eq hid] at hq ⊢
    rcases List.prefix_or_prefix_of_prefix hbelow hq with hle | hle
    · exact hroot.eq_of_below (rootOf_user hid).1 hle
    · exact ((rootOf_user hid).1.eq_of_below hroot hle).symm

/-- **Nobody else learns what a user has stored.**  From any state the process reaches, in
    which the user has an account and no open request: as long as no request carries the
    user's name and password, the process takes the same steps, sends the same datagrams
    and ends in the same state whatever the directory of the user holds, which alone may
    differ at the end. -/
theorem private_secrecy {fs fs' : FileTree} {es₀ es : List Event} (hlossless : Lossless env)
    (hdots : ['.', '.'] ∉ comps env.config.APP_STORAGE_PATH) (hready : StorageReady env fs)
    (haccounts : AccountsOwn env fs)
    (hfresh₀ : AllSteps (App.step env) (FreshIds env) (Server.init fs) es₀)
    (h₀ : exec (App.step env) (Server.init fs) es₀ = some s)
    (haccount : account env s.app.fs name = some userData) (hnone : NoneOpen s name userData)
    (halike : AlikeBut env (userRoot env userData.id) s.app.fs fs')
    (hothers : AllSteps (App.step env) (fun s e => FreshIds env s e ∧ NotBy name userData e) s es)
    (h : exec (App.step env) s es = some t) :
    ∃ fs'', exec (App.step env) { s with app := { s.app with fs := fs' } } es =
        some { t with app := { t.app with fs := fs'' } } ∧
      AlikeBut env (userRoot env userData.id) t.app.fs fs'' := by
  have hstart : Away env name userData s { s with app := { s.app with fs := fs' } } :=
    ⟨isolated_of_exec hlossless hready haccounts hfresh₀ h₀, haccount, hnone, fs', halike, rfl⟩
  have hsteps : ∀ s s' e t, Away env name userData s s' →
      (FreshIds env s e ∧ NotBy name userData e) → App.step env s e = some t →
        ∃ t', App.step env s' e = some t' ∧ Away env name userData t t' :=
    fun _ _ _ _ hs hC hstep => hs.step hlossless hdots hC.1 hC.2 hstep
  obtain ⟨t', hrun, hend⟩ := exec_simulates hsteps hstart hothers h
  obtain ⟨fs'', hfs, rfl⟩ := hend.alike
  exact ⟨fs'', hrun, hfs⟩

/-- Somebody opens an upload to the public storage. -/
def strangerEvents : List Event := [.recv uploadRequest.datagram (['e'], 9001) ⟨5, []⟩]

theorem private_secrecy_strangerEvents :
    ∃ s t fs' fs'',
      exec (App.step accountEnv) (Server.init (installed accountEnv)) (annEvents ++ [annSegment]) =
        some s ∧
      put (.file [8, 9] 0) s.app.fs (userRoot accountEnv annId ++ ["f".toList]) = some fs' ∧
      s.app.fs.fileAt (userRoot accountEnv annId ++ ["f".toList]) = some [7] ∧
      exec (App.step accountEnv) s strangerEvents = some t ∧
      exec (App.step accountEnv) { s with app := { s.app with fs := fs' } } strangerEvents =
        some { t with app := { t.app with fs := fs'' } } := by
  have hcheck : ((exec (App.step accountEnv) (Server.init (installed accountEnv))
      (annEvents ++ [annSegment])).bind fun s =>
        (put (.file [8, 9] 0) s.app.fs (userRoot accountEnv annId ++ ["f".toList])).bind fun _ =>
          (exec (App.step accountEnv) s strangerEvents).map fun _ =>
            (account accountEnv s.app.fs "ann".toList, s.handlers.keys,
              s.app.fs.fileAt (userRoot accountEnv annId ++ ["f".toList]))) =
      some (some ⟨annId, "secret".toList⟩, [], some [7]) := by decide +kernel
  obtain ⟨s, hs, hcheck⟩ := Option.bind_eq_some_iff.mp hcheck
  obtain ⟨fs', hput, hcheck⟩ := Option.bind_eq_some_iff.mp hcheck
  obtain ⟨t, ht, hfacts⟩ := Option.map_eq_some_iff.mp hcheck
  simp only [Prod.mk.injEq] at hfacts
  obtain ⟨haccount, hkeys, hfile⟩ := hfacts
  have hplain : Plain annId := by decide +kernel
  obtain ⟨hready, haccounts, hfresh⟩ := isolated_annEvents
  have hnone : NoneOpen s "ann".toList ⟨annId, "secret".toList⟩ := by
    intro r g hg
    have hmem : r ∈ s.handlers.keys := (Dict.mem_keys_iff _ _).mpr ⟨g, hg⟩
    rw [hkeys] at hmem
    cases hmem
  have hothers : AllSteps (App.step accountEnv)
      (fun s e => FreshIds accountEnv s e ∧ NotBy "ann".toList ⟨annId, "secret".toList⟩ e) s
      strangerEvents := by
    refine allSteps_cons ⟨fun id hid => ?_, ?_⟩ fun _ _ => allSteps_nil
    · cases hid
    rintro data a amb p he hdecode ⟨layer, hlayer, hproves⟩
    cases he
    have hdecoded : (Pocket.fromBytes uploadRequest.datagram).map Pocket.requestLayer =
        .ok uploadRequest.requestLayer := by decide +kernel
    rw [hdecode, Except.map, Except.ok.injEq, hlayer] at hdecoded
    cases hdecoded
    cases hproves.1
  have hisolated : Isolated accountEnv s :=
    isolated_of_exec lossless_accountEnv hready haccounts hfresh hs
  obtain ⟨fs'', hrun, -⟩ := private_secrecy lossless_accountEnv (by decide +kernel) hready
    haccounts hfresh hs haccount hnone
    (alikeBut_put hisolated.ready hplain (List.prefix_append _ _) hput) hothers ht
  exact ⟨s, t, fs', fs'', hs, hput, hfile, ht, hrun⟩

end Runs

end App
end NetworkingFinal
