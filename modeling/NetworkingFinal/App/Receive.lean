/-
  NetworkingFinal.App.Receive

  How far a datagram gets in the main loop before anything is done about it: it is
  decoded, and for a Request a handler is chosen.

  - `ReceiveFails`: the ways in which this raises an exception.
  - `receiveFails_iff`: which datagrams do so in a state of a run.
-/
import NetworkingFinal.App.RequestTable
import NetworkingFinal.Ftp.Readable

namespace NetworkingFinal
namespace App

open Py Py.Prog Py.Os Py.Struct Ftp Lib

-- ============================================================================
-- The account check
-- ============================================================================

/-- The account check of `create_handler` lets a request through: it is anonymous, or
    it has the password of its user, or its user is new and can be entered. -/
def Admitted (env : Env) (amb : Ambient) (fs : FileTree) (layer : RequestLayer) : Prop :=
  layer.anonymous = true ∨
    layer.userName ≠ [] ∧ ∃ content storageData,
      readFile env.cwd (dataFile env) fs = .ok content fs ∧
      env.loadStorage content = some storageData ∧
      ((∃ userData, storageData.users.get? layer.userName = some userData ∧
          userData.password = layer.password) ∨
        storageData.users.get? layer.userName = none ∧
          ∃ id fs', registerUser env amb storageData layer fs = .ok id fs')

variable {env : Env}

theorem readFile_state {p : Str} {fs fs' : FileTree} {content : Bytes}
    (h : readFile env.cwd p fs = .ok content fs') : fs' = fs := by
  obtain ⟨-, -, -, rfl⟩ := fetch_ok_iff.mp h
  rfl

theorem sendError_none {msg : Str} {a : Addr} {s t : State} {storagePath : Str} :
    (sendError msg a >>= fun _ => (pure none : Prog State (Option Str))) s ≠
      .ok (some storagePath) t := by
  intro h
  obtain ⟨_, _, -, h⟩ := bind_ok_iff.mp h
  cases h

theorem admitted_iff {amb : Ambient} {layer : RequestLayer} {a : Addr} {s : State} :
    (∃ storagePath t, chooseStorage env amb layer a s = .ok (some storagePath) t) ↔
      Admitted env amb s.fs layer := by
  unfold chooseStorage Admitted
  cases hanonymous : layer.anonymous with
  | true => exact ⟨fun _ => Or.inl rfl, fun _ => ⟨_, _, rfl⟩⟩
  | false =>
      by_cases hempty : layer.userName = []
      · simp only [Bool.false_eq_true, if_false, hempty, ne_eq, not_true_eq_false,
          false_and, or_false, iff_false, not_exists]
        exact fun _ _ => sendError_none
      simp only [Bool.false_eq_true, if_false, false_or, ne_eq, hempty,
        not_false_eq_true, true_and, bind_ok_iff, onFiles, zoom_ok_iff]
      constructor
      · rintro ⟨storagePath, t, content, u, ⟨fs, hread, rfl⟩, h⟩
        obtain rfl := readFile_state hread
        cases hload : env.loadStorage content with
        | none =>
            rw [hload] at h
            cases h
        | some storageData =>
            rw [hload] at h
            refine ⟨content, storageData, hread, hload, ?_⟩
            dsimp only at h
            cases hget : storageData.users.get? layer.userName with
            | some userData =>
                rw [hget] at h
                by_cases hpassword : userData.password = layer.password
                · exact Or.inl ⟨userData, rfl, hpassword⟩
                · dsimp only at h
                  rw [if_neg hpassword] at h
                  exact absurd h sendError_none
            | none =>
                rw [hget] at h
                obtain ⟨id, _, hregister, -⟩ := bind_ok_iff.mp h
                obtain ⟨fs', hregister, -⟩ := zoom_ok_iff.mp hregister
                exact Or.inr ⟨rfl, id, fs', hregister⟩
      · rintro ⟨content, storageData, hread, hload, h⟩
        have hstart : ∃ fs, readFile env.cwd (dataFile env) (fsLens.get s) = .ok content fs ∧
            fsLens.put s.fs s = fsLens.put fs s := ⟨s.fs, hread, rfl⟩
        rcases h with ⟨userData, hget, hpassword⟩ | ⟨hget, id, fs', hregister⟩
        · refine ⟨userDirectory env userData.id ++ ['/'], s, content, _, hstart, ?_⟩
          simp only [hload, hget, if_pos hpassword]
          rfl
        · refine ⟨userDirectory env id ++ ['/'], { s with fs := fs' }, content, _, hstart, ?_⟩
          simp only [hload, hget]
          refine bind_ok_iff.mpr ⟨id, _, zoom_ok_iff.mpr ⟨fs', hregister, rfl⟩, rfl⟩

-- ============================================================================
-- Responses sent again
-- ============================================================================

/-- The responses in `notReady` encode: they were sent before. -/
def ResponsesEncode (s : Server) : Prop :=
  ∀ k res, s.notReady.get? k = some res → ∃ data, res.toBytes = .ok data

theorem Effect.responsesEncode {T T' : Tables} {p : Pocket} {a : Addr} {ok : Bool}
    {new : List Action} (h : Effect env T p a ok T' new)
    (hs : ∀ k res, T.notReady.get? k = some res → ∃ data, res.toBytes = .ok data)
    {k : Nat} {res : Pocket} (hres : T'.notReady.get? k = some res) :
    ∃ data, res.toBytes = .ok data := by
  cases h with
  | opened request opened =>
      dsimp only at hres
      split at hres
      · rw [Dict.get?_set] at hres
        split at hres
        · cases hres
          exact opened.sent
        · exact hs k res hres
      · exact hs k res hres
  | started other found unready =>
      dsimp only at hres
      rw [Dict.get?_erase] at hres
      split at hres
      · cases hres
      · exact hs k res hres
  | _ => exact hs k res hres

theorem ResponsesEncode.step {s t : Server} {e : Event} (hs : ResponsesEncode s)
    (h : App.step env s e = some t) : ResponsesEncode t := by
  cases e with
  | recv data a amb =>
      obtain ⟨-, hrecv⟩ := step_recv h
      intro k res hres
      cases hrecv with
      | quiet tables log clientAddress stopped =>
          exact hs k res (by rw [← hres]; exact congrArg (fun T => T.notReady.get? k) tables.symm)
      | turn decoded effect log resent clientAddress returned raised =>
          exact effect.responsesEncode hs hres
  | timeout => exact step_timeout h ▸ hs
  | task i clk =>
      obtain ⟨_, _, _, _, -, -, -, -, -, rfl⟩ := (step_task h).effect
      exact hs

theorem responsesEncode_of_exec {fs : FileTree} {es : List Event} {s : Server}
    (h : exec (App.step env) (Server.init fs) es = some s) : ResponsesEncode s :=
  exec_invariant ResponsesEncode (fun _ _ hres => by cases hres) (fun _ _ _ hs ht => hs.step ht) h

/-- Sending the responses again raises nothing and touches no file. -/
theorem resends {s : Server} (htable : TableInv s.tables) (hencode : ResponsesEncode s)
    (p : Pocket) : ∃ t, resendNotReady p s = .ok () t ∧ t.app.fs = s.app.fs := by
  have hwp : wp (resendNotReady p) (fun _ t => ∃ pre, t = s.logged pre) (fun _ _ => False) s := by
    unfold resendNotReady
    rw [wp_bind, wp_get]
    refine wp_each (fun entry hentry t ht => ?_) ⟨[], by simp [Server.logged]⟩
    obtain ⟨key, res⟩ := entry
    obtain ⟨pre, rfl⟩ := ht
    have hres : s.notReady.get? key = some res := (Dict.mem_entries_iff _ _ _).mp hentry
    obtain ⟨h, hfound, -⟩ := (htable.notReady key).mp ((Dict.mem_keys_iff _ _).mpr ⟨res, hres⟩)
    obtain ⟨data, hdata⟩ := hencode key res hres
    refine wp_ite.mpr ⟨fun _ => ⟨pre, rfl⟩, fun _ => ?_⟩
    rw [wp_bind, wp_getHandler]
    refine ⟨fun g _ => ?_, fun hnone => ?_⟩
    · rw [wp_onApp, wp_sendto]
      refine ⟨fun _ _ => ⟨pre ++ [.sent res g.clientAddress], by simp [Server.logged]⟩,
        fun e he => ?_⟩
      rw [hdata] at he
      cases he
    · rw [show (s.logged pre).handlers = s.tables.handlers from rfl, hfound] at hnone
      cases hnone
  unfold wp at hwp
  cases hresend : resendNotReady p s with
  | error e t =>
      rw [hresend] at hwp
      exact hwp.elim
  | ok u t =>
      rw [hresend] at hwp
      obtain ⟨pre, rfl⟩ := hwp
      exact ⟨_, rfl, rfl⟩

-- ============================================================================
-- Receiving
-- ============================================================================

/-- Receiving a datagram in `main_loop` raises: it does not decode, or it is a Request
    that the account check lets through and its sub type names no handler, so that
    `handler` is unbound. -/
inductive ReceiveFails (env : Env) (amb : Ambient) (data : Bytes) (source : Addr) (s : Server) :
    Exn → Prop
  | decode {e : Exn} (received : data ≠ []) (decoded : Pocket.fromBytes data = .error e) :
      ReceiveFails env amb data source s e
  | choice {p : Pocket} {layer : RequestLayer} {storagePath : Str} {t : Server} {u : State}
      (received : data ≠ []) (decoded : Pocket.fromBytes data = .ok p)
      (resent : resendNotReady p { s with clientAddress := some source } = .ok () t)
      (type : p.basicLayer.pocketType = .request) (request : p.requestLayer = some layer)
      (chosen : chooseStorage env amb layer source t.app = .ok (some storagePath) u)
      (unbound : p.basicLayer.pocketSubType = .unknown) :
      ReceiveFails env amb data source s .unboundLocalError

/-- Such an exception ends the main loop. -/
theorem ReceiveFails.stops {amb : Ambient} {data : Bytes} {source : Addr} {s : Server} {e : Exn}
    (h : ReceiveFails env amb data source s e) (hrun : s.stopped = none) :
    ∃ t, step env s (.recv data source amb) = some t ∧ t.stopped = some e := by
  have hstep : ∀ t, iteration env amb data source s = .error e t →
      ∃ t, step env s (.recv data source amb) = some t ∧ t.stopped = some e :=
    fun t ht => ⟨{ t with stopped := some e }, by rw [step, if_pos hrun, ht]; rfl, rfl⟩
  cases h with
  | decode received decoded =>
      refine hstep { s with clientAddress := some source } ?_
      refine bind_error_iff.mpr (Or.inr ⟨_, _, rfl, ?_⟩)
      rw [if_neg received]
      exact bind_error_iff.mpr (Or.inl (by rw [lift, reads, decoded]))
  | @choice p layer storagePath t u received decoded resent type request chosen unbound =>
      refine hstep { t with app := u } ?_
      refine bind_error_iff.mpr (Or.inr ⟨_, _, rfl, ?_⟩)
      rw [if_neg received, lift_ok_bind decoded]
      refine bind_error_iff.mpr (Or.inr ⟨_, t, resent, ?_⟩)
      rw [dispatch, if_pos type]
      refine bind_error_iff.mpr (Or.inl (zoom_error_iff.mpr ⟨u, ?_, rfl⟩))
      rw [createHandler, request]
      refine bind_error_iff.mpr (Or.inr ⟨_, u, chosen, ?_⟩)
      refine bind_error_iff.mpr (Or.inl ?_)
      rw [route, unbound]
      rfl

/-- The bytes are a Request of the sub type Unknown that the account check lets through. -/
def UnknownRequest (env : Env) (amb : Ambient) (fs : FileTree) (data : Bytes) : Prop :=
  numberAt data 0 1 = PocketType.code .request ∧ numberAt data 1 1 = PocketSubType.code .unknown ∧
    ∃ layer, RequestLayer.fromBytes data 16 = .ok layer ∧ Admitted env amb fs layer

theorem unknownRequest_iff {amb : Ambient} {fs : FileTree} {data : Bytes} {p : Pocket}
    (h : Pocket.fromBytes data = .ok p) :
    UnknownRequest env amb fs data ↔ p.basicLayer.pocketType = .request ∧
      p.basicLayer.pocketSubType = .unknown ∧
      ∃ layer, p.requestLayer = some layer ∧ Admitted env amb fs layer := by
  obtain ⟨hbasic, hlayers⟩ := Pocket.head_of_fromBytes h
  obtain ⟨-, htype, hsub, -⟩ := (BasicLayer.fromBytes_ok_iff data p.basicLayer).mp hbasic
  rw [UnknownRequest, htype, hsub]
  constructor
  · rintro ⟨htype, hsub, layer, hlayer, hadmitted⟩
    have htype : p.basicLayer.pocketType = .request := PocketType.code_inj htype
    obtain ⟨layer', hrequest, hlayer'⟩ := hlayers htype
    rw [hlayer'] at hlayer
    cases hlayer
    exact ⟨htype, PocketSubType.code_inj hsub, layer, hrequest, hadmitted⟩
  · rintro ⟨htype, hsub, layer, hrequest, hadmitted⟩
    obtain ⟨layer', hrequest', hlayer⟩ := hlayers htype
    rw [hrequest] at hrequest'
    cases hrequest'
    exact ⟨by rw [htype], by rw [hsub], layer, hlayer, hadmitted⟩

/-- In a state of a run, receiving raises nothing exactly when the datagram is empty, or
    holds a pocket and is no admitted Request of the sub type Unknown. -/
theorem receiveFails_iff {fs : FileTree} {es : List Event} {s : Server}
    (h : exec (App.step env) (Server.init fs) es = some s) (amb : Ambient) (data : Bytes)
    (source : Addr) :
    (¬ ∃ e, ReceiveFails env amb data source s e) ↔
      data = [] ∨ (PocketAt data ∧ ¬ UnknownRequest env amb s.app.fs data) := by
  have htable := (serverInv_of_exec h).tables
  have hencode := responsesEncode_of_exec h
  constructor
  · intro hnone
    by_cases hdata : data = []
    · exact Or.inl hdata
    refine Or.inr ?_
    cases hdecode : Pocket.fromBytes data with
    | error e => exact absurd ⟨e, .decode hdata hdecode⟩ hnone
    | ok p =>
        refine ⟨(Pocket.fromBytes_ok_iff data).mp ⟨p, hdecode⟩, fun hunknown => hnone ?_⟩
        obtain ⟨htype, hsub, layer, hrequest, hadmitted⟩ := (unknownRequest_iff hdecode).mp hunknown
        obtain ⟨t, hresent, hfs⟩ := resends (s := { s with clientAddress := some source })
          htable hencode p
        rw [← hfs] at hadmitted
        obtain ⟨storagePath, u, hchosen⟩ := (admitted_iff (a := source)).mpr hadmitted
        exact ⟨_, .choice hdata hdecode hresent htype hrequest hchosen hsub⟩
  · rintro hcond ⟨e, hfails⟩
    cases hfails with
    | decode received decoded =>
        obtain ⟨p, hp⟩ := (Pocket.fromBytes_ok_iff data).mpr (hcond.resolve_left received).1
        rw [hp] at decoded
        cases decoded
    | @choice p layer storagePath t u received decoded resent type request chosen unbound =>
        obtain ⟨t', hresent, hfs⟩ := resends (s := { s with clientAddress := some source })
          htable hencode p
        rw [resent] at hresent
        cases hresent
        refine (hcond.resolve_left received).2 ((unknownRequest_iff decoded).mpr
          ⟨type, unbound, layer, request, ?_⟩)
        exact hfs ▸ admitted_iff.mp ⟨storagePath, u, chosen⟩

end App
end NetworkingFinal
