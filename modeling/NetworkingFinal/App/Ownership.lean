/-
  NetworkingFinal.App.Ownership

  Who drives a request.

  A datagram is matched to a request by the request id it carries; the address it
  comes from is not looked at.  So a turn leaves every other request alone
  (`Effect.frame`), and what an upload stores was sent under its request id
  (`driven_by_id`), but any address may send it
  (`not_drivenByOwner`).
-/
import NetworkingFinal.App.RequestTable

namespace NetworkingFinal
namespace App

open Py Py.Prog Ftp Lib

variable {env : Env} {clk : Readings}

-- ============================================================================
-- One turn
-- ============================================================================

/-- A turn on a pocket that is no Request leaves the other requests alone. -/
theorem Effect.frame {T T' : Tables} {p : Pocket} {a : Addr} {ok : Bool} {new : List Action}
    (hT : TableInv T) (h : Effect env T p a ok T' new)
    (hp : p.basicLayer.pocketType ≠ .request) {k : Nat} (hk : k ≠ p.requestID) :
    T'.handlers.get? k = T.handlers.get? k ∧ T'.notReady.get? k = T.notReady.get? k := by
  have hset : ∀ g, (T.handlers.set p.requestID g).get? k = T.handlers.get? k :=
    fun g => Dict.get?_set_of_ne hk
  cases h with
  | refused request drawn replies => exact absurd request hp
  | opened request opened => exact absurd request hp
  | stored type found layer part length finished => exact ⟨hset _, rfl⟩
  | stuck type found layer full part closed => exact ⟨hset _, rfl⟩
  | @completed g segment type found layer full =>
      have hid : g.requestID = p.requestID := (hT.id _ _ found).1
      rw [hid]
      exact ⟨(Dict.get?_erase_of_ne hk).trans (hset _), rfl⟩
  | @started g other found unready =>
      have hid : g.requestID = p.requestID := (hT.id _ _ found).1
      rw [hid]
      exact ⟨hset _, Dict.get?_erase_of_ne hk⟩
  | halfStarted other found unready missing => exact ⟨hset _, rfl⟩
  | queued other found ready => exact ⟨hset _, rfl⟩
  | _ => exact ⟨rfl, rfl⟩

/-- What `post_upload` was called with for a request, in order. -/
def postsFor (r : Nat) (log : List Action) : List Bytes :=
  log.filterMap fun
    | .postUpload r' body => if r' = r then some body else none
    | .sent _ _ => none

@[simp] theorem postsFor_append (r : Nat) (log new : List Action) :
    postsFor r (log ++ new) = postsFor r log ++ postsFor r new :=
  List.filterMap_append

theorem mem_postsFor {r : Nat} {body : Bytes} {log : List Action} :
    body ∈ postsFor r log ↔ .postUpload r body ∈ log := by
  rw [postsFor, List.mem_filterMap]
  constructor
  · rintro ⟨x, hx, hbody⟩
    cases x with
    | sent p a => cases hbody
    | postUpload r' body' =>
        simp only [Option.ite_none_right_eq_some, Option.some_inj] at hbody
        rw [← hbody.1, ← hbody.2]
        exact hx
  · intro hx
    exact ⟨_, hx, if_pos rfl⟩

theorem postsFor_completion (r : Nat) (h : UploadRequestHandler) (segmentID : Nat) :
    postsFor r (completion h segmentID) = if h.requestID = r then [assembled h.segments] else [] := by
  by_cases hr : h.requestID = r <;> simp [postsFor, completion, hr]

theorem eq_nil_or_eq_of_prefix {α : Type} {xs ys : List α} (h : xs <+: ys)
    (hlen : ys.length ≤ 1) : xs = [] ∨ xs = ys := by
  rcases Nat.lt_or_ge xs.length ys.length with hlt | hge
  · exact Or.inl (List.length_eq_zero_iff.mp (by omega))
  · exact Or.inr (h.eq_of_length_le hge)

/-- What a turn stores: nothing, the empty upload of a new request, or the segments
    of an upload that the pocket completes. -/
theorem Effect.posts {T T' : Tables} {p : Pocket} {a : Addr} {ok : Bool} {new : List Action}
    (h : Effect env T p a ok T' new) (r : Nat) :
    postsFor r new = [] ∨
    (r = T.lastRequestID + 1 ∧ T'.lastRequestID = r ∧ ∀ body ∈ postsFor r new, body = []) ∨
    ∃ g segment, p.basicLayer.pocketType = .segment ∧ p.segmentLayer = some segment ∧
      T.handlers.get? p.requestID = some (.upload g) ∧
      (g.store segment).segments.size = (g.store segment).segmentsAmount ∧
      r = g.requestID ∧ postsFor r new = [assembled (g.store segment).segments] ∧
      (ok = true → T'.handlers.get? r = none) := by
  have hid : ∀ (g : UploadRequestHandler) (segment : SegmentLayer),
      (g.store segment).requestID = g.requestID := fun g segment => by rw [store_base]
  cases h with
  | refused request drawn replies =>
      cases hposts : postsFor r new with
      | nil => exact Or.inl rfl
      | cons body bodies =>
          have hreply : ∀ b ∈ postsFor r new, _ := fun b hb => replies _ (mem_postsFor.mp hb)
          have hfirst := hreply body (by rw [hposts]; exact List.mem_cons_self)
          refine Or.inr (Or.inl ⟨hfirst.2.1.trans hfirst.1, hfirst.2.1.symm, fun b hb => ?_⟩)
          exact (hreply b (by rw [hposts]; exact hb)).2.2
  | @stored _ g segment new type found layer part length finished =>
      -- at most the acknowledgement has been sent
      left
      have htake : new = (completion (g.store segment) segment.segmentID).take new.length :=
        List.prefix_iff_eq_take.mp part
      rw [htake]
      rcases Nat.le_one_iff_eq_zero_or_eq_one.mp length with hlen | hlen
      · rw [hlen]
        rfl
      · rw [hlen]
        rfl
  | @stuck g segment new type found layer full part closed =>
      have hprefix : postsFor r new <+:
          postsFor r (completion (g.store segment) segment.segmentID) :=
        part.filterMap _
      rw [postsFor_completion, hid] at hprefix
      by_cases hr : g.requestID = r
      · rw [if_pos hr] at hprefix
        rcases eq_nil_or_eq_of_prefix hprefix (by simp) with hnil | hall
        · exact Or.inl hnil
        · exact Or.inr (Or.inr ⟨g, segment, type, layer, found, full, hr.symm, hall,
            (fun hok => by cases hok)⟩)
      · rw [if_neg hr] at hprefix
        exact Or.inl (List.prefix_nil.mp hprefix)
  | @completed g segment type found layer full =>
      rw [postsFor_completion, hid]
      by_cases hr : g.requestID = r
      · rw [if_pos hr]
        refine Or.inr (Or.inr ⟨g, segment, type, layer, found, full, hr.symm, rfl, fun _ => ?_⟩)
        rw [← hr]
        exact Dict.get?_erase_self _ _
      · rw [if_neg hr]
        exact Or.inl rfl
  | _ => exact Or.inl rfl

/-- A worker stores nothing. -/
theorem TaskEffect.postsFor_eq_nil {s : Server} {t : Task} {result : Option Task}
    {hs : Dict Nat Handler} {new : List Action} (h : TaskEffect clk s t result hs new) (r : Nat) :
    postsFor r new = [] := by
  cases h <;> rfl

theorem postsFor_eq_nil_of_resent {s : Server} {pre : List Action} (h : ∀ x ∈ pre, Resent s x)
    (r : Nat) : postsFor r pre = [] := by
  apply List.filterMap_eq_nil_iff.mpr
  intro x hx
  obtain ⟨k, res, g, -, -, rfl⟩ := h x hx
  rfl

/-- Where the uploads after a turn come from: they were there, they are new and
    empty, or the pocket added its segment. -/
theorem Effect.upload_cases {T T' : Tables} {p : Pocket} {a : Addr} {ok : Bool}
    {new : List Action} (h : Effect env T p a ok T' new) {k : Nat} {u : UploadRequestHandler}
    (hu : T'.handlers.get? k = some (.upload u)) :
    T.handlers.get? k = some (.upload u) ∨
    (k = T.lastRequestID + 1 ∧ u.segments = Dict.empty) ∨
    ∃ g segment, p.basicLayer.pocketType = .segment ∧ p.segmentLayer = some segment ∧
      T.handlers.get? p.requestID = some (.upload g) ∧ k = p.requestID ∧ u = g.store segment := by
  have hset : ∀ f, (T.handlers.set p.requestID f).get? k = some (.upload u) →
      T.handlers.get? k = some (.upload u) ∨ k = p.requestID ∧ f = .upload u := by
    intro f hf
    rw [Dict.get?_set] at hf
    split at hf
    · next hk => exact Or.inr ⟨hk, Option.some.inj hf⟩
    · exact Or.inl hf
  have hdownload : ∀ d, (T.handlers.set p.requestID (.download d)).get? k = some (.upload u) →
      T.handlers.get? k = some (.upload u) := by
    intro d hd
    rcases hset _ hd with hk | ⟨-, hk⟩
    · exact hk
    · cases hk
  cases h with
  | @opened f res request opened =>
      simp only [Dict.get?_set] at hu
      split at hu
      · next hk =>
          obtain ⟨layer, storagePath, data, dataSize, -, -, -, -, hf⟩ := opened.shape
          have hid : k = T.lastRequestID + 1 := hk.trans opened.base_eq.1
          rw [hf, openedHandler] at hu
          split at hu
          · cases hu
            exact Or.inr (Or.inl ⟨hid, rfl⟩)
          · cases hu
      · exact Or.inl hu
  | @stored _ g segment new type found layer part length finished =>
      rcases hset _ hu with hk | ⟨hk, hg⟩
      · exact Or.inl hk
      · exact Or.inr (Or.inr ⟨g, segment, type, layer, found, hk, (Handler.upload.inj hg).symm⟩)
  | @stuck g segment new type found layer full part closed =>
      rcases hset _ hu with hk | ⟨hk, hg⟩
      · exact Or.inl hk
      · exact Or.inr (Or.inr ⟨g, segment, type, layer, found, hk, (Handler.upload.inj hg).symm⟩)
  | @completed g segment type found layer full =>
      simp only [Dict.get?_erase] at hu
      split at hu
      · cases hu
      · rcases hset _ hu with hk | ⟨hk, hg⟩
        · exact Or.inl hk
        · exact Or.inr (Or.inr ⟨g, segment, type, layer, found, hk, (Handler.upload.inj hg).symm⟩)
  | started other found unready => exact Or.inl (hdownload _ hu)
  | halfStarted other found unready missing => exact Or.inl (hdownload _ hu)
  | queued other found ready => exact Or.inl (hdownload _ hu)
  | _ => exact Or.inl hu

-- ============================================================================
-- Where the stored bytes come from
-- ============================================================================

/-- A datagram of the history carried segment `k` of request `r`, with these bytes. -/
def Carried (es : List Event) (r k : Nat) (d : Bytes) : Prop :=
  ∃ data a amb p, Event.recv data a amb ∈ es ∧ Pocket.fromBytes data = .ok p ∧
    p.basicLayer.pocketType = .segment ∧ p.requestID = r ∧ p.segmentLayer = some ⟨k, d⟩

theorem Carried.concat {es : List Event} {r k : Nat} {d : Bytes} (h : Carried es r k d)
    (e : Event) : Carried (es ++ [e]) r k d := by
  obtain ⟨data, a, amb, p, hmem, hp⟩ := h
  exact ⟨data, a, amb, p, List.mem_append_left _ hmem, hp⟩

/-- What the uploads hold, and what was stored, was carried under their ids. -/
structure Sourced (es : List Event) (s : Server) : Prop where
  collected : ∀ r u, s.handlers.get? r = some (.upload u) →
    ∀ k d, u.segments.get? k = some d → Carried es r k d
  posted : ∀ r body, .postUpload r body ∈ s.app.log →
    ∃ pieces : List Bytes, body = pieces.flatten ∧ ∀ d ∈ pieces, ∃ k, Carried es r k d

theorem store_get? {g : UploadRequestHandler} {segment : SegmentLayer} {k : Nat} {d : Bytes}
    (h : (g.store segment).segments.get? k = some d) :
    g.segments.get? k = some d ∨ segment = ⟨k, d⟩ := by
  unfold UploadRequestHandler.store at h
  split at h
  · exact Or.inl h
  · rw [Dict.get?_set] at h
    split at h
    · next hk =>
        rw [hk, ← Option.some.inj h]
        exact Or.inr rfl
    · exact Or.inl h

theorem assembled_eq_flatten (segments : Dict Nat Bytes) :
    ∃ pieces : List Bytes, assembled segments = pieces.flatten ∧
      ∀ d ∈ pieces, ∃ k, segments.get? k = some d := by
  refine ⟨(segments.keys.insertionSort (· ≤ ·)).map fun k => (segments.get? k).getD [],
    List.flatMap_def, fun d hd => ?_⟩
  obtain ⟨k, hk, hget⟩ := List.mem_map.mp hd
  have hkey : k ∈ segments.keys := (List.mem_insertionSort _).mp hk
  obtain ⟨d', hd'⟩ := (Dict.mem_keys_iff _ _).mp hkey
  rw [hd'] at hget
  exact ⟨k, by rw [hd', ← hget]; rfl⟩

theorem Sourced.step {es : List Event} {s t : Server} {e : Event} (hs : Sourced es s)
    (hinv : ServerInv s) (h : App.step env s e = some t) : Sourced (es ++ [e]) t := by
  have hold : ∀ r k d, Carried es r k d → Carried (es ++ [e]) r k d :=
    fun r k d hc => hc.concat e
  have hposted : ∀ r body, .postUpload r body ∈ s.app.log → ∃ pieces : List Bytes,
      body = pieces.flatten ∧ ∀ d ∈ pieces, ∃ k, Carried (es ++ [e]) r k d := by
    intro r body hx
    obtain ⟨pieces, hbody, hpieces⟩ := hs.posted r body hx
    refine ⟨pieces, hbody, fun d hd => ?_⟩
    obtain ⟨k, hk⟩ := hpieces d hd
    exact ⟨k, hold r k d hk⟩
  cases e with
  | recv data a amb =>
      obtain ⟨-, hrecv⟩ := step_recv h
      cases hrecv with
      | quiet tables log clientAddress stopped =>
          have hhandlers : t.handlers = s.handlers := congrArg Tables.handlers tables
          refine ⟨fun r u hu k d hd => ?_, fun r body hx => ?_⟩
          · rw [hhandlers] at hu
            exact hold r k d (hs.collected r u hu k d hd)
          · rw [log] at hx
            exact hposted r body hx
      | @turn p ok pre new decoded effect log resent clientAddress returned raised =>
          -- the bytes of the segments of an upload, after the pocket added its own
          have hstore : ∀ g segment, p.basicLayer.pocketType = .segment →
              p.segmentLayer = some segment →
              s.handlers.get? p.requestID = some (.upload g) →
              ∀ k d, (g.store segment).segments.get? k = some d →
                Carried (es ++ [.recv data a amb]) p.requestID k d := by
            intro g segment type layer found k d hd
            rcases store_get? hd with hd | rfl
            · exact hold _ k d (hs.collected _ g found k d hd)
            · exact ⟨data, a, amb, p, by simp, decoded, type, rfl, layer⟩
          refine ⟨fun r u hu k d hd => ?_, fun r body hx => ?_⟩
          · rcases effect.upload_cases hu with hu | ⟨-, hempty⟩ |
              ⟨g, segment, type, layer, found, rfl, rfl⟩
            · exact hold r k d (hs.collected r u hu k d hd)
            · rw [hempty] at hd
              cases hd
            · exact hstore g segment type layer found k d hd
          · rw [log, List.mem_append, List.mem_append] at hx
            rcases hx with (hx | hx) | hx
            · exact hposted r body hx
            · have hnil := postsFor_eq_nil_of_resent resent r
              rw [← mem_postsFor, hnil] at hx
              cases hx
            · rw [← mem_postsFor] at hx
              rcases effect.posts r with hnil | ⟨-, -, hempty⟩ |
                ⟨g, segment, type, layer, found, -, rfl, hposts, -⟩
              · rw [hnil] at hx
                cases hx
              · exact ⟨[], hempty body hx, by simp⟩
              · rw [hposts, List.mem_singleton] at hx
                have hid : g.requestID = p.requestID := (hinv.tables.id _ _ found).1
                obtain ⟨pieces, hbody, hpieces⟩ := assembled_eq_flatten (g.store segment).segments
                refine ⟨pieces, hx.trans hbody, fun d hd => ?_⟩
                obtain ⟨k, hk⟩ := hpieces d hd
                rw [hid]
                exact ⟨k, hstore g segment type layer found k d hk⟩
  | timeout =>
      rw [step_timeout h]
      exact ⟨fun r u hu k d hd => hold r k d (hs.collected r u hu k d hd), hposted⟩
  | task i clk =>
      obtain ⟨task, task', result, hd, new, hmem, -, hlive, heff, rfl⟩ := (step_task h).effect
      refine ⟨fun r u hu k d hget => ?_, fun r body hx => ?_⟩
      · have hu' := (heff.get?_upload hinv.tables hmem hlive).mp hu
        exact hold r k d (hs.collected r u hu' k d hget)
      · rcases List.mem_append.mp hx with hx | hx
        · exact hposted r body hx
        · rw [← mem_postsFor, heff.postsFor_eq_nil] at hx
          cases hx

theorem sourced_of_exec {fs : FileTree} {es : List Event} {s : Server}
    (h : exec (step env) (Server.init fs) es = some s) : Sourced es s := by
  apply exec_history Sourced ?_ ?_ h
  · refine ⟨fun r u hu => ?_, fun r body hx => ?_⟩
    · cases hu
    · cases hx
  · intro es s e t hes hs hstep
    exact hs.step (serverInv_of_exec hes) hstep

-- ============================================================================
-- The claims about owners
-- ============================================================================

/-- The bytes do not decode to a Request. -/
def NoRequest (data : Bytes) : Prop :=
  ∀ p, Pocket.fromBytes data = .ok p → p.basicLayer.pocketType ≠ .request

/-- No datagram but a Request changes a handler opened by another address. -/
def DrivenByOwner (env : Env) (fs : FileTree) : Prop :=
  ∀ es s data a amb t, exec (step env) (Server.init fs) es = some s →
    step env s (.recv data a amb) = some t → NoRequest data →
    ∀ k h, s.handlers.get? k = some h → h.clientAddress ≠ a →
      t.handlers.get? k = some h ∧ t.notReady.get? k = s.notReady.get? k

/-- **Requests are driven by their id.**  After every run, a datagram that is no
    Request leaves every request alone but the one whose id it carries, and what
    was stored for a request was carried by Segment pockets with its id. -/
theorem driven_by_id {fs : FileTree} {es : List Event} {s : Server}
    (h : exec (step env) (Server.init fs) es = some s) :
    (∀ data a amb t, step env s (.recv data a amb) = some t → NoRequest data →
      ∀ k, (∀ p, Pocket.fromBytes data = .ok p → p.requestID ≠ k) →
        t.handlers.get? k = s.handlers.get? k ∧ t.notReady.get? k = s.notReady.get? k) ∧
    ∀ r body, .postUpload r body ∈ s.app.log →
      ∃ pieces : List Bytes, body = pieces.flatten ∧ ∀ d ∈ pieces, ∃ k, Carried es r k d := by
  refine ⟨fun data a amb t hstep hreq k hk => ?_, (sourced_of_exec h).posted⟩
  obtain ⟨-, hrecv⟩ := step_recv hstep
  cases hrecv with
  | quiet tables log clientAddress stopped =>
      have hhandlers : t.handlers = s.handlers := congrArg Tables.handlers tables
      have hnotReady : t.notReady = s.notReady := congrArg Tables.notReady tables
      rw [hhandlers, hnotReady]
      exact ⟨rfl, rfl⟩
  | @turn p ok pre new decoded effect log resent clientAddress returned raised =>
      exact effect.frame (serverInv_of_exec h).tables (hreq p decoded) (Ne.symm (hk p decoded))

/-- An anonymous request to upload two bytes to the public file `f`. -/
def uploadRequest : Pocket :=
  { basicLayer := ⟨0, .request, .upload⟩
    requestLayer := some ⟨2, 1500, true, [], []⟩
    uploadRequestLayer := some ⟨['f']⟩ }

/-- One client opens an upload; another sends its only segment. -/
def strangerRun : List Event :=
  [.recv uploadRequest.datagram (['c'], 8001) default,
   .recv (segmentPocket 1 0 [1, 7]).datagram (['d'], 8002) default]

theorem driven_by_id_strangerRun :
    ∃ s, exec (step default) (Server.init (installed default)) strangerRun = some s ∧
      ∃ pieces : List Bytes, [1, 7] = pieces.flatten ∧
        ∀ d ∈ pieces, ∃ k, Carried strangerRun 1 k d := by
  have hrun : (exec (step default) (Server.init (installed default)) strangerRun).map
      (fun s => decide (.postUpload 1 [1, 7] ∈ s.app.log)) = some true := by decide +kernel
  obtain ⟨s, hs, hmem⟩ := Option.map_eq_some_iff.mp hrun
  exact ⟨s, hs, (driven_by_id hs).2 1 [1, 7] (of_decide_eq_true hmem)⟩

/-- The upload of one client is completed by another. -/
theorem not_drivenByOwner : ¬ DrivenByOwner default (installed default) := by
  intro h
  have hfirst : (exec (step default) (Server.init (installed default)) (strangerRun.take 1)).map
      (fun s => (s.handlers.get? 1).map Handler.clientAddress) =
      some (some (['c'], 8001)) := by decide +kernel
  obtain ⟨s, hs, hhandler⟩ := Option.map_eq_some_iff.mp hfirst
  obtain ⟨g, hg, haddress⟩ := Option.map_eq_some_iff.mp hhandler
  have hsecond : (exec (step default) (Server.init (installed default)) strangerRun).map
      (fun t => (t.handlers.get? 1).isNone) = some true := by decide +kernel
  obtain ⟨t, ht, hnone⟩ := Option.map_eq_some_iff.mp hsecond
  have hstep : step default s (.recv (segmentPocket 1 0 [1, 7]).datagram (['d'], 8002) default) =
      some t := by
    obtain ⟨s', hs', hst⟩ := exec_concat_iff.mp
      (show exec (step default) _ (strangerRun.take 1 ++ [_]) = some t from ht)
    rw [hs, Option.some_inj] at hs'
    rw [hs']
    exact hst
  have hreq : NoRequest (segmentPocket 1 0 [1, 7]).datagram := by
    intro p hp
    have hdecoded : Pocket.fromBytes (segmentPocket 1 0 [1, 7]).datagram =
        .ok (segmentPocket 1 0 [1, 7]) := by rfl
    rw [hdecoded] at hp
    cases hp
    exact PocketType.noConfusion
  have hkept := (h _ s _ _ default t hs hstep hreq 1 g hg (by rw [haddress]; decide)).1
  rw [hkept] at hnone
  cases hnone

end App
end NetworkingFinal
