/-
  NetworkingFinal.Net.Upload

  An upload between the server, which serves other requests as well, and the
  client's `upload_data`, over a network that loses, duplicates, reorders and
  delays.

  `UploadInv` relates the two sides: what the client has sent for the request are
  segments of its body, what the server holds for it was taken from them, and
  the server has stored nothing for it or exactly the body, once.
-/
import NetworkingFinal.Net.Pair
import NetworkingFinal.Client.Upload
import NetworkingFinal.Ftp.Wire

namespace NetworkingFinal
namespace Net

open Py Ftp App Client Lib

variable {env : Env} {growth : Int → Nat → Nat}

/-- Segment pockets for the request `r` reach the server only when the client has
    sent them. -/
def OnlyClientSegments (r : Nat) (w : Pair Upload) (e : PairEvent) : Prop :=
  ∀ data a amb p, e = .server (.recv data a amb) → Pocket.fromBytes data = .ok p →
    p.basicLayer.pocketType = .segment → p.requestID = r → data ∈ w.client.sent

-- ============================================================================
-- Collected segments
-- ============================================================================

/-- The upload holds segments of `body`, out of `n`. -/
structure Holds (n size : Nat) (body : Bytes) (u : UploadRequestHandler) : Prop where
  amount : u.segmentsAmount = n
  pieces : ∀ k d, u.segments.get? k = some d → k < n ∧ d = segmentOf body body.length size k

theorem Holds.store {n size : Nat} {body : Bytes} {u : UploadRequestHandler}
    (h : Holds n size body u) {k : Nat} (hk : k < n) :
    Holds n size body (u.store ⟨k, segmentOf body body.length size k⟩) := by
  refine ⟨?_, fun j d hj => ?_⟩
  · rw [← h.amount]
    unfold UploadRequestHandler.store
    split <;> rfl
  · rcases store_get? hj with hj | heq
    · exact h.pieces j d hj
    · cases heq
      exact ⟨hk, rfl⟩

/-- As many segments as the body has are the body. -/
theorem Holds.assembled_eq {n size : Nat} {body : Bytes} {u : UploadRequestHandler}
    (h : Holds n size body u) (hfull : u.segments.size = u.segmentsAmount)
    (hcover : body.length ≤ n * size) : assembled u.segments = body := by
  have hlt : ∀ k ∈ u.segments.keys, k < n := by
    intro k hk
    obtain ⟨d, hd⟩ := (Dict.mem_keys_iff _ _).mp hk
    exact (h.pieces k d hd).1
  have hlen : u.segments.keys.length = n := by
    rw [← Dict.size_eq_length_keys, hfull, h.amount]
  have hsorted : u.segments.keys.insertionSort (· ≤ ·) = List.range n :=
    insertionSort_eq_range u.segments.nodup hlt hlen
  have hget : ∀ k ∈ List.range n,
      (u.segments.get? k).getD [] = segmentOf body body.length size k := by
    intro k hk
    rw [← hsorted, List.mem_insertionSort] at hk
    obtain ⟨d, hd⟩ := (Dict.mem_keys_iff _ _).mp hk
    rw [hd, (h.pieces k d hd).2]
    rfl
  rw [assembled, hsorted, List.flatMap_congr hget]
  exact flatMap_segmentOf hcover

-- ============================================================================
-- The two sides
-- ============================================================================

/-- The relation between the server and the client of the upload `r`. -/
structure UploadInv (r n size : Nat) (body : Bytes) (w : Pair Upload) : Prop where
  app : AppInv w.server
  drawn : r ≤ w.server.app.lastRequestID
  requestID : w.client.requestID = r
  singleSegmentSize : w.client.singleSegmentSize = size
  content : w.client.body = body
  window : ∀ k ∈ w.client.window, k < n
  sent : ∀ bs ∈ w.client.sent, ∃ k, k < n ∧
    (segmentPocket r k (segmentOf body body.length size k)).toBytes = .ok bs
  collected : ∀ u, w.server.handlers.get? r = some (.upload u) → Holds n size body u
  posted : postsFor r w.server.app.log = [] ∨
    postsFor r w.server.app.log = [body] ∧
      (w.server.stopped = none → ∀ u, w.server.handlers.get? r ≠ some (.upload u))

section Steps

variable {r n size : Nat} {body : Bytes} {w w' : Pair Upload}

/-- The client only sends segments of the body. -/
theorem UploadInv.client (h : UploadInv r n size body w) {m : Move} {c : Upload}
    (hstep : Upload.step growth w.client m = some c) :
    UploadInv r n size body { w with client := c } := by
  have hs := Upload.stepped_of_step hstep
  refine ⟨h.app, h.drawn, hs.job.requestID.trans h.requestID,
    hs.job.singleSegmentSize.trans h.singleSegmentSize, hs.job.body.trans h.content,
    fun k hk => h.window k (hs.window k hk), fun bs hbs => ?_, h.collected, h.posted⟩
  have hpocket : ∀ k, w.client.segmentPocket k =
      segmentPocket r k (segmentOf body body.length size k) := by
    intro k
    rw [Upload.segmentPocket, h.requestID, h.singleSegmentSize, h.content]
  rcases hs.sent with hsent | ⟨k, hk, bs', hbytes, hsent⟩
  · rw [show c.sent = w.client.sent from hsent] at hbs
    exact h.sent bs hbs
  · rw [show c.sent = w.client.sent ++ [bs'] from hsent, List.mem_append, List.mem_singleton] at hbs
    rcases hbs with hbs | rfl
    · exact h.sent bs hbs
    · rw [hpocket] at hbytes
      exact ⟨k, h.window k hk, hbytes⟩

/-- What a pocket for the upload carries. -/
theorem UploadInv.pocket (h : UploadInv r n size body w) {data : Bytes} {p : Pocket}
    (hdata : data ∈ w.client.sent) (hp : Pocket.fromBytes data = .ok p) :
    ∃ k, k < n ∧ p = segmentPocket r k (segmentOf body body.length size k) := by
  obtain ⟨k, hk, hbytes⟩ := h.sent data hdata
  rw [Pocket.fromBytes_segmentPocket hbytes, Except.ok.injEq] at hp
  exact ⟨k, hk, hp.symm⟩

/-- A turn of the main loop: a segment of the upload is one of the body's. -/
theorem UploadInv.recv (h : UploadInv r n size body w) (hcover : body.length ≤ n * size)
    {data : Bytes} {a : Addr} {amb : Ambient} {s : Server}
    (honly : OnlyClientSegments r w (.server (.recv data a amb)))
    (hstep : App.step env w.server (.recv data a amb) = some s) :
    UploadInv r n size body { w with server := s } := by
  have happ := h.app.step hstep
  obtain ⟨hrunning, hrecv⟩ := step_recv hstep
  have hidle : postsFor r w.server.app.log ≠ [] →
      ∀ u, w.server.handlers.get? r ≠ some (.upload u) := by
    intro hne
    rcases h.posted with hnil | ⟨-, hnone⟩
    · exact absurd hnil hne
    · exact hnone hrunning
  cases hrecv with
  | quiet tables log clientAddress stopped =>
      have hhandlers : s.handlers = w.server.handlers := congrArg Tables.handlers tables
      have hlast : s.app.lastRequestID = w.server.app.lastRequestID :=
        congrArg Tables.lastRequestID tables
      refine ⟨happ, hlast ▸ h.drawn, h.requestID, h.singleSegmentSize, h.content, h.window, h.sent,
        fun u hu => h.collected u (hhandlers ▸ hu), ?_⟩
      simp only [log, hhandlers]
      exact h.posted.imp_right fun hp => ⟨hp.1, fun _ => hp.2 hrunning⟩
  | @turn p ok pre new decoded effect log resent ca returned raised =>
      have hlast : r ≤ s.app.lastRequestID := h.drawn.trans effect.lastRequestID_le
      -- a request opened in this turn is another one
      have hopened : r ≠ w.server.tables.lastRequestID + 1 :=
        Nat.ne_of_lt (Nat.lt_succ_of_le h.drawn)
      -- the segments the pocket adds to are those of the body
      have hsegment : ∀ g segment, p.basicLayer.pocketType = .segment →
          p.segmentLayer = some segment → w.server.handlers.get? p.requestID = some (.upload g) →
          p.requestID = r → Holds n size body (g.store segment) := by
        intro g segment type layer found hr
        obtain ⟨k, hk, rfl⟩ := h.pocket (honly data a amb p rfl decoded type hr) decoded
        cases layer
        exact (h.collected g (hr ▸ found)).store hk
      have hcollected : ∀ u, s.handlers.get? r = some (.upload u) → Holds n size body u := by
        intro u hu
        rcases effect.upload_cases hu with hold | ⟨hnew, -⟩ |
          ⟨g, segment, type, layer, found, hr, rfl⟩
        · exact h.collected u hold
        · exact absurd hnew hopened
        · exact hsegment g segment type layer found hr.symm
      refine ⟨happ, hlast, h.requestID, h.singleSegmentSize, h.content, h.window, h.sent,
        hcollected, ?_⟩
      have hlog : postsFor r s.app.log = postsFor r w.server.app.log ++ postsFor r new := by
        rw [log, postsFor_append, postsFor_append, postsFor_eq_nil_of_resent resent,
          List.append_nil]
      rcases effect.posts r with hnil | ⟨hnew, -⟩ |
        ⟨g, segment, type, layer, found, full, hr, hposts, hgone⟩
      · rw [hnil, List.append_nil] at hlog
        simp only [hlog]
        refine h.posted.imp_right fun hp => ⟨hp.1, fun _ u hu => ?_⟩
        rcases effect.upload_cases hu with hold | ⟨hnew, -⟩ | ⟨g, segment, -, -, found, hr, -⟩
        · exact hp.2 hrunning u hold
        · exact absurd hnew hopened
        · exact hp.2 hrunning g (hr ▸ found)
      · exact absurd hnew hopened
      · -- the upload is complete, and nothing had been stored for it before
        have hid : p.requestID = r := by
          rw [hr]
          exact (h.app.server.tables.id _ _ found).1.symm
        have hfirst : postsFor r w.server.app.log = [] := by
          by_contra hne
          exact hidle hne g (hid ▸ found)
        have hbody : assembled (g.store segment).segments = body :=
          (hsegment g segment type layer found hid).assembled_eq full hcover
        rw [hfirst, hposts, hbody, List.nil_append] at hlog
        refine Or.inr ⟨hlog, fun hrun u hu => ?_⟩
        have hok : ok = true := by
          cases ok with
          | true => rfl
          | false =>
              obtain ⟨e, he, -⟩ := raised rfl
              simp only [he] at hrun
              cases hrun
        have hnone : s.handlers.get? r = none := hgone hok
        rw [hnone] at hu
        cases hu

theorem UploadInv.step (h : UploadInv r n size body w) (hcover : body.length ≤ n * size)
    {e : PairEvent} (honly : OnlyClientSegments r w e)
    (hstep : Pair.step env (Upload.step growth) w e = some w') :
    UploadInv r n size body w' := by
  cases e with
  | client m =>
      obtain ⟨c, hc, rfl⟩ := Pair.step_client hstep
      exact h.client hc
  | server e =>
      obtain ⟨s, hs, rfl⟩ := Pair.step_server hstep
      cases e with
      | recv data a amb => exact h.recv hcover honly hs
      | timeout =>
          rw [step_timeout hs]
          exact h
      | task i clk =>
          have happ := h.app.step hs
          obtain ⟨task, task', result, hd, new, hmem, -, hlive, heff, rfl⟩ := (step_task hs).effect
          have hupload : ∀ u, hd.get? r = some (.upload u) ↔
              w.server.handlers.get? r = some (.upload u) := fun u =>
            heff.get?_upload h.app.server.tables hmem hlive
          have hlog : postsFor r (w.server.app.log ++ new) = postsFor r w.server.app.log := by
            rw [postsFor_append, heff.postsFor_eq_nil, List.append_nil]
          refine ⟨happ, h.drawn, h.requestID, h.singleSegmentSize, h.content, h.window, h.sent,
            fun u hu => h.collected u ((hupload u).mp hu), ?_⟩
          rw [show (w.server.advanced hd new).app.log = w.server.app.log ++ new from rfl, hlog]
          exact h.posted.imp_right fun hp =>
            ⟨hp.1, fun hrun u hu => hp.2 hrun u ((hupload u).mp hu)⟩

end Steps

-- ============================================================================
-- Whole runs
-- ============================================================================

/-- Right after the request was accepted, and before the client has sent anything,
    the sides are in the relation. -/
theorem uploadInv_start {fs : FileTree} {request res resPocket : Pocket} {r : Nat}
    {s₀ s : Server} {layer : RequestLayer} {body : Bytes} {now : Int} {c : Upload}
    (haccept : Accepts env fs request r res s₀ s)
    (hupload : request.basicLayer.pocketSubType = .upload)
    (hlayer : request.requestLayer = some layer) (hsize : layer.pocketFullSize = body.length)
    (harrives : Arrives res resPocket) (hstart : Upload.start resPocket body now = .ok c) :
    ∃ size, 0 < size ∧ UploadInv r (segmentsAmountOf body.length size) size body ⟨s, c⟩ := by
  obtain ⟨a, g, hopened, hg, hdrawn, happ, hposts, -, -⟩ := haccept.opened
  obtain ⟨hid, hresponse⟩ := harrives.of_opened hopened
  obtain ⟨layer', storagePath, data, dataSize, hlayer', hdata, -, hres, hshape⟩ := hopened.shape
  rw [hlayer, Option.some_inj] at hlayer'
  rw [if_pos hupload, ← hlayer', hsize] at hdata
  subst hdata
  refine ⟨segmentSize env layer'.maxSingleSegmentSize, segmentSize_pos env _, ?_⟩
  rw [openedHandler, if_pos hupload] at hshape
  rw [Upload.start, hresponse, hres, hid] at hstart
  have hc := Except.ok.inj hstart
  refine ⟨happ, hdrawn.ge, ?_, ?_, ?_, fun k hk => ?_, fun bs hbs => ?_, fun u hu => ?_,
    Or.inl hposts⟩
  · rw [← hc]
  · rw [← hc]
  · rw [← hc]
  · rw [← hc] at hk
    simpa [Upload.window] using hk
  · rw [← hc] at hbs
    cases hbs
  · rw [hg, hshape] at hu
    cases hu
    exact ⟨rfl, fun k d hk => by cases hk⟩

/-- **Uploads are exact and happen once.**  The client runs `upload_data` for the
    body whose size it announced, in any schedule with the server, which receives
    segments for the request only from this client.  The server stores nothing
    for the request, or the body, once. -/
theorem upload_exact {fs : FileTree} {request res resPocket : Pocket} {r : Nat}
    {s₀ s : Server} {layer : RequestLayer} {body : Bytes} {now : Int} {c : Upload}
    {es : List PairEvent} {w : Pair Upload}
    (haccept : Accepts env fs request r res s₀ s)
    (hupload : request.basicLayer.pocketSubType = .upload)
    (hlayer : request.requestLayer = some layer) (hsize : layer.pocketFullSize = body.length)
    (hlen : body.length < 2 ^ 53)
    (harrives : Arrives res resPocket) (hstart : Upload.start resPocket body now = .ok c)
    (honly : AllSteps (Pair.step env (Upload.step growth)) (OnlyClientSegments r) ⟨s, c⟩ es)
    (hrun : exec (Pair.step env (Upload.step growth)) ⟨s, c⟩ es = some w) :
    postsFor r w.server.app.log = [] ∨ postsFor r w.server.app.log = [body] := by
  obtain ⟨size, hpos, hinit⟩ :=
    uploadInv_start haccept hupload hlayer hsize harrives hstart
  have hcover : body.length ≤ segmentsAmountOf body.length size * size := by
    apply le_segmentsAmountOf_mul hpos
    omega
  have hinv := exec_invariant_of (UploadInv r _ size body) (OnlyClientSegments r) hinit
    (fun _ _ _ hw hC ht => hw.step hcover hC ht) honly hrun
  exact hinv.posted.imp_right fun hp => hp.1

/-- The Response to `uploadRequest`, and the client that got it. -/
def uploadResponse : Pocket :=
  { basicLayer := ⟨1, .response, .upload⟩, responseLayer := some ⟨true, [], 2, 1, 1500⟩ }

def uploadClient : Upload :=
  { requestID := 1, singleSegmentSize := 1500, segmentsAmount := 1, body := [1, 7],
    windowToSend := [0], last := 0 }

/-- The client sends its only segment, and the server receives it. -/
def uploadRun : List PairEvent :=
  [.client (.proceed 0),
   .server (.recv (segmentPocket 1 0 [1, 7]).datagram (['c'], 8001) default)]

theorem upload_exact_uploadRun :
    ∃ s w, App.step default (Server.init (installed default))
        (.recv uploadRequest.datagram (['c'], 8001) default) = some s ∧
      exec (Pair.step default (Upload.step fun _ cwndMax => cwndMax)) ⟨s, uploadClient⟩ uploadRun =
        some w ∧
      (postsFor 1 w.server.app.log = [] ∨ postsFor 1 w.server.app.log = [[1, 7]]) := by
  have hcheck : (App.step default (Server.init (installed default))
      (.recv uploadRequest.datagram (['c'], 8001) default)).map (fun s =>
        (s.app.log.getLast?, (s.handlers.get? 1).isSome,
          (exec (Pair.step default (Upload.step fun _ cwndMax => cwndMax)) ⟨s, uploadClient⟩
            uploadRun).isSome)) =
      some (some (.sent uploadResponse (['c'], 8001)), true, true) := by decide +kernel
  obtain ⟨s, hs, hfacts⟩ := Option.map_eq_some_iff.mp hcheck
  simp only [Prod.mk.injEq, Option.isSome_iff_exists] at hfacts
  obtain ⟨hlast, ⟨g, hg⟩, ⟨w, hw⟩⟩ := hfacts
  have haccept : Accepts default (installed default) uploadRequest 1 uploadResponse
      (Server.init (installed default)) s :=
    ⟨⟨[], rfl⟩, ⟨_, _, default, hs, by rfl, hlast⟩, rfl, by rw [hg]; exact Option.some_ne_none g⟩
  have hsent : (Upload.step (fun _ cwndMax => cwndMax) uploadClient (.proceed 0)).map Upload.sent =
      some [(segmentPocket 1 0 [1, 7]).datagram] := by decide +kernel
  have honly : AllSteps (Pair.step default (Upload.step fun _ cwndMax => cwndMax))
      (OnlyClientSegments 1) ⟨s, uploadClient⟩ uploadRun := by
    apply allSteps_cons
    · intro data a amb p heq
      cases heq
    · intro t ht
      obtain ⟨c, hc, rfl⟩ := Pair.step_client ht
      rw [hc, Option.map_some, Option.some_inj] at hsent
      refine allSteps_cons (fun data a amb p heq _ _ _ => ?_) fun _ _ => allSteps_nil
      cases heq
      rw [hsent]
      exact List.mem_singleton.mpr rfl
  have harrives : Arrives uploadResponse uploadResponse := ⟨_, rfl, by rfl⟩
  exact ⟨s, w, hs, hw, upload_exact haccept rfl rfl rfl
    (by decide) harrives (show Upload.start uploadResponse [1, 7] 0 = .ok uploadClient by rfl)
    honly hw⟩

end Net
end NetworkingFinal
