/-
  NetworkingFinal.App.Replies

  What the pockets the process sends tell about its uploads.

  - `Stored`: the process has stored a segment of an upload.
  - `Grows`: what a step keeps of the uploads.
  - `Replies`: what is true, right after the step that sent it, of a pocket sent in
    answer to a pocket with a given request id.
-/
import NetworkingFinal.App.Downloads
import NetworkingFinal.App.Log

namespace NetworkingFinal
namespace App

open Py Py.Prog Ftp Lib

variable {env : Env} {clk : Readings}

/-- `post_upload` has been called for the request. -/
def Posted (s : Server) (r : Nat) : Prop := postsFor r s.app.log ≠ []

/-- The handler of the upload `r` holds the segment, or the upload was completed. -/
def Stored (s : Server) (r k : Nat) : Prop :=
  (∃ u, s.handlers.get? r = some (.upload u) ∧ k ∈ u.segments.keys) ∨ Posted s r

-- ============================================================================
-- Uploads in the table
-- ============================================================================

theorem store_keys (u : UploadRequestHandler) (segment : SegmentLayer) (k : Nat) :
    k ∈ (u.store segment).segments.keys ↔ k = segment.segmentID ∨ k ∈ u.segments.keys := by
  unfold UploadRequestHandler.store
  split
  · next hmem =>
      constructor
      · exact Or.inr
      · rintro (rfl | hk)
        · exact hmem
        · exact hk
  · exact Dict.mem_keys_set _ _ _ _

@[simp] theorem store_segmentsAmount (u : UploadRequestHandler) (segment : SegmentLayer) :
    (u.store segment).segmentsAmount = u.segmentsAmount := by
  unfold UploadRequestHandler.store
  split <;> rfl

/-- A later state of the same upload. -/
structure Extends (u u' : UploadRequestHandler) : Prop where
  amount : u'.segmentsAmount = u.segmentsAmount
  clientAddress : u'.clientAddress = u.clientAddress
  keys : ∀ k ∈ u.segments.keys, k ∈ u'.segments.keys

theorem extends_refl (u : UploadRequestHandler) : Extends u u := ⟨rfl, rfl, fun _ hk => hk⟩

theorem extends_store (u : UploadRequestHandler) (segment : SegmentLayer) :
    Extends u (u.store segment) :=
  ⟨store_segmentsAmount u segment, by rw [store_base],
    fun k hk => (store_keys u segment k).mpr (Or.inr hk)⟩

/-- An upload leaves the table when it is completed, and not before. -/
theorem Effect.get?_upload {T T' : Tables} {p : Pocket} {a : Addr} {ok : Bool}
    {new : List Action} (hT : TableInv T) (h : Effect env T p a ok T' new) {k : Nat}
    {u : UploadRequestHandler} (hu : T.handlers.get? k = some (.upload u)) :
    (∃ u', T'.handlers.get? k = some (.upload u') ∧ Extends u u') ∨ postsFor k new ≠ [] := by
  have hle : k ≤ T.lastRequestID := (hT.id _ _ hu).2.2
  have hsame : ∀ {u₀}, T.handlers.get? p.requestID = some (.upload u₀) → k = p.requestID →
      u₀ = u := by
    rintro u₀ hfound rfl
    exact Handler.upload.inj (Option.some.inj (hfound.symm.trans hu))
  have hstore : ∀ {u₀ segment}, T.handlers.get? p.requestID = some (.upload u₀) →
      ∃ u', (T.handlers.set p.requestID (.upload (u₀.store segment))).get? k =
        some (.upload u') ∧ Extends u u' := by
    intro u₀ segment hfound
    by_cases hk : k = p.requestID
    · rw [hk, Dict.get?_set_self, hsame hfound hk]
      exact ⟨_, rfl, extends_store u segment⟩
    · rw [Dict.get?_set_of_ne hk]
      exact ⟨u, hu, extends_refl u⟩
  have hdownload : ∀ {g g'}, T.handlers.get? p.requestID = some (.download g) →
      ∃ u', (T.handlers.set p.requestID (.download g')).get? k = some (.upload u') ∧
        Extends u u' := by
    intro g g' hfound
    rw [Dict.get?_set_of_ne]
    · exact ⟨u, hu, extends_refl u⟩
    · rintro rfl
      rw [hu] at hfound
      cases hfound
  cases h with
  | @opened f res request opened =>
      have hid := opened.base_eq.1
      refine Or.inl ⟨u, ?_, extends_refl u⟩
      simp only
      rw [Dict.get?_set_of_ne (by omega), hu]
  | stored type found layer part length finished => exact Or.inl (hstore found)
  | stuck type found layer full part closed => exact Or.inl (hstore found)
  | @completed u₀ segment type found layer full =>
      have hid : u₀.requestID = p.requestID := (hT.id _ _ found).1
      by_cases hk : k = p.requestID
      · right
        rw [postsFor_completion, store_base, hid, ← hk, if_pos rfl]
        exact List.cons_ne_nil _ _
      · left
        obtain ⟨u', hu', hext⟩ := @hstore _ segment found
        refine ⟨u', ?_, hext⟩
        simp only
        rw [hid, Dict.get?_erase_of_ne hk, hu']
  | started other found unready => exact Or.inl (hdownload found)
  | halfStarted other found unready missing => exact Or.inl (hdownload found)
  | queued other found ready => exact Or.inl (hdownload found)
  | _ => exact Or.inl ⟨u, hu, extends_refl u⟩

/-- What a step of the process keeps of the uploads. -/
structure Grows (s t : Server) : Prop where
  last : s.app.lastRequestID ≤ t.app.lastRequestID
  posted : ∀ r, Posted s r → Posted t r
  uploads : ∀ r u, s.handlers.get? r = some (.upload u) →
    (∃ u', t.handlers.get? r = some (.upload u') ∧ Extends u u') ∨ Posted t r
  old : ∀ r u', r ≤ s.app.lastRequestID → t.handlers.get? r = some (.upload u') →
    ∃ u, s.handlers.get? r = some (.upload u) ∧ Extends u u'

theorem grows_refl (s : Server) : Grows s s :=
  ⟨Nat.le_refl _, fun _ hp => hp, fun _ u hu => Or.inl ⟨u, hu, extends_refl u⟩,
    fun _ u _ hu => ⟨u, hu, extends_refl u⟩⟩

theorem Stored.grow {s t : Server} {r k : Nat} (h : Stored s r k) (hg : Grows s t) :
    Stored t r k := by
  rcases h with ⟨u, hu, hk⟩ | hposted
  · rcases hg.uploads r u hu with ⟨u', hu', hext⟩ | hposted
    · exact Or.inl ⟨u', hu', hext.keys k hk⟩
    · exact Or.inr hposted
  · exact Or.inr (hg.posted r hposted)

theorem posted_of_log {s t : Server} {new : List Action} (hlog : t.app.log = s.app.log ++ new)
    {r : Nat} (h : Posted s r ∨ postsFor r new ≠ []) : Posted t r := by
  rw [Posted, hlog, postsFor_append, Ne, List.append_eq_nil_iff, not_and_or]
  exact h

theorem step_grows {s t : Server} {e : Event} (hs : AppInv s) (h : step env s e = some t) :
    Grows s t := by
  cases e with
  | timeout => exact step_timeout h ▸ grows_refl s
  | recv data a amb =>
      obtain ⟨-, hrecv⟩ := step_recv h
      cases hrecv with
      | quiet tables log clientAddress stopped =>
          have hhandlers : t.handlers = s.handlers := congrArg Tables.handlers tables
          have hlast : t.app.lastRequestID = s.app.lastRequestID :=
            congrArg Tables.lastRequestID tables
          refine ⟨hlast.ge, fun r hp => ?_, fun r u hu => ?_, fun r u _ hu => ?_⟩
          · rw [Posted, log]
            exact hp
          · rw [hhandlers]
            exact Or.inl ⟨u, hu, extends_refl u⟩
          · rw [hhandlers] at hu
            exact ⟨u, hu, extends_refl u⟩
      | @turn p ok pre new decoded effect log resent clientAddress returned raised =>
          rw [List.append_assoc] at log
          refine ⟨effect.lastRequestID_le, fun r hp => posted_of_log log (Or.inl hp),
            fun r u hu => ?_, fun r u' hr hu' => ?_⟩
          · refine (effect.get?_upload hs.server.tables hu).imp_right fun hposts => ?_
            refine posted_of_log log (Or.inr ?_)
            rw [postsFor_append, Ne, List.append_eq_nil_iff, not_and_or]
            exact Or.inr hposts
          · rcases effect.upload_cases hu' with hold | ⟨hnew, -⟩ |
              ⟨g, segment, -, -, found, rfl, rfl⟩
            · exact ⟨u', hold, extends_refl u'⟩
            · exact absurd (show r = s.app.lastRequestID + 1 from hnew) (by omega)
            · exact ⟨g, found, extends_store g segment⟩
  | task i clk =>
      obtain ⟨task, task', result, hd, new, hmem, -, hlive, heff, rfl⟩ := (step_task h).effect
      have hsame : ∀ r u, hd.get? r = some (.upload u) ↔
          s.handlers.get? r = some (.upload u) := fun r u =>
        heff.get?_upload hs.server.tables hmem hlive
      exact ⟨Nat.le_refl _, fun r hp => posted_of_log rfl (Or.inl hp),
        fun r u hu => Or.inl ⟨u, (hsame r u).mpr hu, extends_refl u⟩,
        fun r u _ hu => ⟨u, (hsame r u).mp hu, extends_refl u⟩⟩

-- ============================================================================
-- What is sent
-- ============================================================================

/-- The request id of the pocket a step answers, or of the task it runs. -/
def about (s : Server) : Event → Nat
  | .recv data _ _ =>
      match Pocket.fromBytes data with
      | .ok p => p.requestID
      | .error _ => 0
  | .timeout => 0
  | .task i _ =>
      match s.tasks[i]? with
      | some t => t.key
      | none => 0

/-- The Response accepts an upload of `n` segments. -/
def AcceptsUpload (res : Pocket) (n : Nat) : Prop :=
  res.basicLayer.pocketType = .response ∧ res.basicLayer.pocketSubType = .upload ∧
    ∃ layer, res.responseLayer = some layer ∧ layer.ok = true ∧ layer.segmentsAmount = n

/-- A pocket `q` that the step from `s` to `t` sent in answer to the request id
    `r`. -/
inductive Replies (s t : Server) (r : Nat) (q : Pocket) : Prop
  | response {layer : ResponseLayer}
      (type : q.basicLayer.pocketType = .response)
      (plain : q.requestLayer = none)
      (responseLayer : q.responseLayer = some layer)
      (message : layer.ok = true → layer.errorMessage = [])
      (drawn : q.requestID ≤ t.app.lastRequestID)
      (amount : layer.ok = true → ∀ u, t.handlers.get? q.requestID = some (.upload u) →
        u.segmentsAmount = layer.segmentsAmount)
      (accepted : ∀ n, AcceptsUpload q n → n = 0 ∨
        q.requestID = s.app.lastRequestID + 1 ∧
          ∃ u, t.handlers.get? q.requestID = some (.upload u) ∧ u.segmentsAmount = n)
  | segment (type : q.basicLayer.pocketType = .segment)
  | akc {k : Nat} (eq : q = akcPocket r k) (stored : Stored t r k)
  | close (eq : q = closePocket) (drawn : r ≤ t.app.lastRequestID)
      (finished : Posted t r ∨ ∀ u, t.handlers.get? r ≠ some (.upload u))

theorem opened_replies {s t : Server} {p res : Pocket} {a : Addr} {g : Handler} {r : Nat}
    (ho : Opened env p a (s.app.lastRequestID + 1) g res)
    (hg : t.handlers.get? g.requestID = some g)
    (hlast : t.app.lastRequestID = s.app.lastRequestID + 1) : Replies s t r res := by
  have hid : g.requestID = s.app.lastRequestID + 1 := ho.base_eq.1
  obtain ⟨layer, storagePath, data, dataSize, -, -, -, hres, hshape⟩ := ho.shape
  have hrid : res.requestID = s.app.lastRequestID + 1 := by rw [Pocket.requestID, ho.layer]
  rw [hid] at hg
  refine .response (by rw [ho.layer]) ho.plain hres (fun _ => rfl) (hrid.trans hlast.symm).le
    (fun _ u hu => ?_) fun n hn => Or.inr ⟨hrid, ?_⟩
  · rw [hrid, hg, Option.some_inj, hshape, openedHandler] at hu
    split at hu
    · cases hu
      rfl
    · cases hu
  · obtain ⟨-, hsub, layer', hlayer', -, rfl⟩ := hn
    rw [hres, Option.some_inj] at hlayer'
    rw [ho.layer] at hsub
    rw [openedHandler, if_pos hsub] at hshape
    rw [hrid, hg, hshape, ← hlayer']
    exact ⟨_, rfl, rfl⟩

/-- A Response sent again is that of a download. -/
theorem resent_replies {s t : Server} {r : Nat} {q : Pocket} {b : Addr} (hs : AppInv s)
    (hgrows : Grows s t) (h : Resent s (.sent q b)) : Replies s t r q := by
  obtain ⟨k, res, g, hres, hg, heq⟩ := h
  cases heq
  have hawaits := hs.log.responses k _ hres
  obtain ⟨sub, hsub, hbasic⟩ := hawaits.basic
  obtain ⟨layer, hlayer, hmessage⟩ := hawaits.layer
  have hrid : q.requestID = k := by rw [Pocket.requestID, hbasic]
  have hle : k ≤ s.app.lastRequestID := (hs.server.tables.id _ _ hg).2.2
  refine .response hawaits.type hawaits.plain hlayer (fun _ => hmessage)
    (hrid ▸ hle.trans hgrows.last) (fun _ u hu => ?_) fun n hn => ?_
  · -- the handler is a download that is not ready
    rw [hrid] at hu
    obtain ⟨u₀, hu₀, -⟩ := hgrows.old k u hle hu
    have hkey : k ∈ s.tables.notReady.keys := (Dict.mem_keys_iff _ _).mpr ⟨_, hres⟩
    obtain ⟨f, hf, hunready⟩ := (hs.server.tables.notReady k).mp hkey
    have hf : s.handlers.get? k = some f := hf
    rw [hu₀, Option.some_inj] at hf
    rw [← hf] at hunready
    cases hunready
  · obtain ⟨-, hupload, -⟩ := hn
    rw [hbasic] at hupload
    exact absurd hupload hsub

theorem mem_completion {u : UploadRequestHandler} {k : Nat} {q : Pocket} {b : Addr}
    (h : .sent q b ∈ completion u k) : q = akcPocket u.requestID k ∨ q = closePocket := by
  simp only [completion, List.mem_cons, Action.sent.injEq, reduceCtorEq, List.not_mem_nil,
    or_false] at h
  exact h.imp And.left And.left

/-- A pocket of a completion of which at most the first action is done. -/
theorem eq_akcPocket_of_part {u : UploadRequestHandler} {k : Nat} {new : List Action}
    (hpart : new <+: completion u k) (hlen : new.length ≤ 1) {q : Pocket} {b : Addr}
    (hq : .sent q b ∈ new) : q = akcPocket u.requestID k := by
  have htake : new = (completion u k).take new.length := List.prefix_iff_eq_take.mp hpart
  have hmem : .sent q b ∈ (completion u k).take 1 := by
    rw [htake] at hq
    exact List.take_subset_take_left _ hlen hq
  exact (Action.sent.inj (List.mem_singleton.mp hmem)).1

/-- What a turn of the main loop sends. -/
theorem Effect.replies {s t : Server} {T : Tables} {p : Pocket} {a : Addr} {ok : Bool}
    {new : List Action} (hs : AppInv s) (h : Effect env s.tables p a ok T new)
    (ht : t.tables = T) (hposts : ∀ r, postsFor r new ≠ [] → Posted t r)
    (hdrawn : p.basicLayer.pocketType ≠ .request → p.requestID ≤ s.app.lastRequestID)
    {q : Pocket} {b : Addr} (hq : .sent q b ∈ new) : Replies s t p.requestID q := by
  have hhandlers : t.handlers = T.handlers := congrArg Tables.handlers ht
  have hlast : t.app.lastRequestID = T.lastRequestID := congrArg Tables.lastRequestID ht
  -- the pockets of an upload that has stored the segment
  have hcompletion : ∀ {u : UploadRequestHandler} {segment : SegmentLayer},
      s.tables.handlers.get? p.requestID = some (.upload u) →
      postsFor p.requestID (completion (u.store segment) segment.segmentID) ≠ [] := by
    intro u segment found
    have hid : u.requestID = p.requestID := (hs.server.tables.id _ _ found).1
    rw [postsFor_completion, store_base, hid, if_pos rfl]
    exact List.cons_ne_nil _ _
  have hakc : ∀ {u : UploadRequestHandler} {segment : SegmentLayer},
      s.tables.handlers.get? p.requestID = some (.upload u) →
      q = akcPocket (u.store segment).requestID segment.segmentID →
      Stored t p.requestID segment.segmentID → Replies s t p.requestID q := by
    intro u segment found heq hstored
    have hid : u.requestID = p.requestID := (hs.server.tables.id _ _ found).1
    rw [store_base, hid] at heq
    exact .akc heq hstored
  have hheld : ∀ {u : UploadRequestHandler} {segment : SegmentLayer},
      T = s.tables.withHandler p.requestID (.upload (u.store segment)) →
      Stored t p.requestID segment.segmentID := by
    rintro u segment rfl
    refine Or.inl ⟨_, ?_, (store_keys u segment _).mpr (Or.inl rfl)⟩
    rw [hhandlers]
    exact Dict.get?_set_self _ _ _
  have hfull : ∀ {u : UploadRequestHandler} {segment : SegmentLayer},
      s.tables.handlers.get? p.requestID = some (.upload u) →
      new = completion (u.store segment) segment.segmentID → Replies s t p.requestID q := by
    rintro u segment found rfl
    have hposted := hposts p.requestID (hcompletion found)
    have hle : p.requestID ≤ s.app.lastRequestID := (hs.server.tables.id _ _ found).2.2
    rcases mem_completion hq with heq | heq
    · exact hakc found heq (Or.inr hposted)
    · exact .close heq (hle.trans (hlast.symm ▸ h.lastRequestID_le)) (Or.inl hposted)
  cases h with
  | refused request drawn replies =>
      obtain ⟨-, htype, hplain, hle, layer, hlayer, hok⟩ := replies _ hq
      refine .response htype hplain hlayer (fun h => (hok h).2.1) (hlast ▸ hle)
        (fun h u hu => ?_) fun n hn => Or.inl ?_
      · -- the id is drawn in this turn, so no handler has it
        rw [(hok h).1, hhandlers] at hu
        have hfresh := (hs.server.tables.id _ _ hu).2.2
        omega
      · obtain ⟨-, -, layer', hlayer', h, rfl⟩ := hn
        rw [hlayer, Option.some_inj] at hlayer'
        rw [← hlayer']
        exact (hok (hlayer'.symm ▸ h)).2.2
  | @opened g res request opened =>
      obtain ⟨rfl, -⟩ := Action.sent.inj (List.mem_singleton.mp hq)
      refine opened_replies opened ?_ hlast
      rw [hhandlers]
      exact Dict.get?_set_self _ _ _
  | stored type found layer part length finished =>
      exact hakc found (eq_akcPocket_of_part part length hq) (hheld rfl)
  | stuck type found layer full part closed =>
      rcases closed with hlen | heq
      · exact hakc found (eq_akcPocket_of_part part hlen hq) (hheld rfl)
      · exact hfull found heq
  | completed type found layer full => exact hfull found rfl
  | unknown other absent =>
      have hclose := (Action.sent.inj (List.mem_singleton.mp hq)).1
      refine .close hclose ((hdrawn other).trans hlast.ge) (Or.inr fun u hu => ?_)
      rw [hhandlers] at hu
      exact absurd (absent.symm.trans hu) (Option.some_ne_none _).symm
  | _ => cases hq

/-- What a step of the process sends. -/
theorem step_replies {s t : Server} {e : Event} (hs : AppInv s) (h : step env s e = some t)
    (hdrawn : ∀ data a amb p, e = .recv data a amb → Pocket.fromBytes data = .ok p →
      p.basicLayer.pocketType ≠ .request → p.requestID ≤ s.app.lastRequestID) :
    ∃ new, t.app.log = s.app.log ++ new ∧
      ∀ q b, .sent q b ∈ new → Replies s t (about s e) q := by
  have hgrows := step_grows hs h
  cases e with
  | timeout => exact ⟨[], by rw [step_timeout h, List.append_nil], fun q b hq => by cases hq⟩
  | recv data a amb =>
      obtain ⟨-, hrecv⟩ := step_recv h
      cases hrecv with
      | quiet tables log clientAddress stopped =>
          exact ⟨[], by rw [log, List.append_nil], fun q b hq => by cases hq⟩
      | @turn p ok pre new decoded effect log resent clientAddress returned raised =>
          rw [List.append_assoc] at log
          refine ⟨pre ++ new, log, fun q b hq => ?_⟩
          rw [about, decoded]
          rcases List.mem_append.mp hq with hq | hq
          · exact resent_replies hs hgrows (resent _ hq)
          · refine effect.replies hs rfl (fun r hr => posted_of_log log (Or.inr ?_))
              (fun htype => hdrawn data a amb p rfl decoded htype) hq
            rw [postsFor_append, Ne, List.append_eq_nil_iff, not_and_or]
            exact Or.inr hr
  | task i clk =>
      obtain ⟨task, task', result, hd, new, hmem, htask, hlive, heff, rfl⟩ := (step_task h).effect
      refine ⟨new, rfl, fun q b hq => ?_⟩
      rw [about, htask]
      cases heff with
      | sent phase going found window room address encoded =>
          obtain ⟨rfl, -⟩ := Action.sent.inj (List.mem_singleton.mp hq)
          exact .segment rfl
      | closed phase found =>
          obtain ⟨rfl, -⟩ := Action.sent.inj (List.mem_singleton.mp hq)
          refine .close rfl (hs.server.tables.past task hmem) (Or.inr fun u hu => ?_)
          exact absurd (found.symm.trans hu) (fun heq => by cases heq)
      | _ => cases hq

end App
end NetworkingFinal
