/-
  NetworkingFinal.App.Completion

  When an upload is stored, and with what, for any pockets that reach its handler.
  `handle_upload_pocket` keeps the first piece for every id it is sent, whatever the
  id, and calls `post_upload` when it has as many pieces as the upload has segments.

  - `feed`: pockets that reach the handler one after the other.
  - `wp_feed`: what `post_upload` is then called with.
  - `upload_complete_iff`: when that is the whole upload.
-/
import NetworkingFinal.App.Log
import NetworkingFinal.Ftp.Wire

namespace NetworkingFinal
namespace App

open Py Py.Prog Py.Struct Ftp Lib

variable {env : Env}

-- ============================================================================
-- Assembled pieces
-- ============================================================================

/-- The assembled data has the bytes of all pieces. -/
theorem length_assembled (segments : Dict Nat Bytes) :
    (assembled segments).length = (segments.entries.map fun entry => entry.2.length).sum := by
  have hperm := List.perm_insertionSort (· ≤ ·) segments.keys
  have hpieces : segments.keys.map (fun key => ((segments.get? key).getD []).length) =
      segments.entries.map fun entry => entry.2.length := by
    rw [Dict.keys, List.map_map]
    refine List.map_congr_left fun entry hentry => ?_
    rw [Function.comp_apply, (Dict.mem_entries_iff segments entry.1 entry.2).mp hentry,
      Option.getD_some]
  rw [assembled, List.length_flatMap, (hperm.map _).sum_nat, hpieces]

/-- A piece under a new id comes last, and any other is dropped. -/
theorem entries_store (h : UploadRequestHandler) (segment : SegmentLayer) :
    (h.store segment).segments.entries =
      if segment.segmentID ∈ h.segments.keys then h.segments.entries
      else h.segments.entries ++ [(segment.segmentID, segment.data)] := by
  unfold UploadRequestHandler.store
  split
  · rfl
  · next hnew => exact Dict.entries_set_of_notMem hnew

theorem segmentsAmount_store (h : UploadRequestHandler) (segment : SegmentLayer) :
    (h.store segment).segmentsAmount = h.segmentsAmount := by
  unfold UploadRequestHandler.store
  split <;> rfl

-- ============================================================================
-- Pockets for one handler
-- ============================================================================

/-- Pockets that reach the upload handler under `key`, until it is done. -/
def feed (env : Env) (key : Nat) : List (Ambient × Pocket) → Prog Server Unit
  | [] => return ()
  | (amb, pocket) :: rest => do
      match ← getHandler key with
      | .upload h =>
          let more ← handleUploadPocket env amb key h pocket
          when more (feed env key rest)
      | .download _ => throw .assertionError

/-- The segment a pocket brings to an upload. -/
def segmentIn (pocket : Pocket) : Option SegmentLayer :=
  if pocket.basicLayer.pocketType = .segment then pocket.segmentLayer else none

/-- The segments pockets bring, in the order of the pockets. -/
abbrev segmentsIn (ps : List (Ambient × Pocket)) : List SegmentLayer :=
  ps.filterMap fun p => segmentIn p.2

def piece (segment : SegmentLayer) : Nat × Bytes := (segment.segmentID, segment.data)

/-- The pieces kept of these segments, after those with the ids `seen`. -/
abbrev kept (seen : List Nat) (segments : List SegmentLayer) : List SegmentLayer :=
  firsts SegmentLayer.segmentID seen segments

theorem segmentIn_eq_some {pocket : Pocket} {segment : SegmentLayer}
    (h : segmentIn pocket = some segment) :
    pocket.segmentLayer = some segment ∧ pocket.basicLayer.pocketType = .segment := by
  unfold segmentIn at h
  split at h
  · next htype => exact ⟨h, htype⟩
  · cases h

/-- A handler that holds `pieces` holds one more after a segment with a new id. -/
theorem store_pieces {h : UploadRequestHandler} {pieces : List SegmentLayer}
    (hentries : h.segments.entries = pieces.map piece) (segment : SegmentLayer) :
    ∃ pieces', (h.store segment).segments.entries = pieces'.map piece ∧
      pieces'.length ≤ pieces.length + 1 ∧
      ∀ rest, pieces ++ kept (pieces.map SegmentLayer.segmentID) (segment :: rest) =
        pieces' ++ kept (pieces'.map SegmentLayer.segmentID) rest := by
  have hkeys : h.segments.keys = pieces.map SegmentLayer.segmentID := by
    rw [Dict.keys, hentries, List.map_map]
    rfl
  have hstore := entries_store h segment
  rw [hkeys, hentries] at hstore
  by_cases hseen : segment.segmentID ∈ pieces.map SegmentLayer.segmentID
  · rw [if_pos hseen] at hstore
    exact ⟨pieces, hstore, Nat.le_succ _, fun rest => by rw [kept, firsts_cons_of_mem rest hseen]⟩
  · rw [if_neg hseen] at hstore
    refine ⟨pieces ++ [segment], ?_, ?_, fun rest => ?_⟩
    · rw [hstore, List.map_append]
      rfl
    · rw [List.length_append, List.length_singleton]
    · rw [kept, firsts_cons_of_notMem rest hseen, List.map_append, List.append_assoc]
      rfl

section Feed

variable {key n : Nat} {s u : Server} {h : UploadRequestHandler} {amb : Ambient}
  {pocket : Pocket} {segment : SegmentLayer} {ps : List (Ambient × Pocket)}

/-- After the pieces `pieces` arrived, each in the first pocket with its id:
    `post_upload` was called with the first `n` of them, if there are so many. -/
def Fed (key n : Nat) (pieces : List SegmentLayer) (s u : Server) : Prop :=
  if n ≤ pieces.length then
    ∃ h, u.handlers.get? key = some (.upload h) ∧ h.segmentsAmount = n ∧
      h.segments.entries = (pieces.take n).map piece ∧
      postsFor key u.app.log = postsFor key s.app.log ++ [assembled h.segments]
  else postsFor key u.app.log = postsFor key s.app.log

/-- The process after a piece was stored and acknowledged. -/
def Server.storing (s : Server) (key : Nat) (h : UploadRequestHandler) (segment : SegmentLayer) :
    Server :=
  { s with
    handlers := s.handlers.set key (.upload (h.store segment))
    app := { s.app with log := s.app.log ++
      [.sent (akcPocket (h.store segment).requestID segment.segmentID)
        (h.store segment).clientAddress] } }

/-- A pocket that brings no segment is passed over. -/
theorem wp_handleUploadPocket_of_none {Q : Bool → Server → Prop} {R : Exn → Server → Prop}
    (hnone : segmentIn pocket = none) (hQ : Q true s) :
    wp (handleUploadPocket env amb key h pocket) Q R s := by
  unfold handleUploadPocket
  split
  · exact hQ
  · next segment hsegment =>
      refine wp_ite.mpr ⟨fun _ => hQ, fun htype => ?_⟩
      rw [not_not] at htype
      rw [segmentIn, if_pos htype, hsegment] at hnone
      cases hnone

/-- A segment is stored and acknowledged; with the last one the data is posted, whether
    or not the files can be written. -/
theorem wp_handleUploadPocket_of_some {Q : Bool → Server → Prop} {R : Exn → Server → Prop}
    (hsome : segmentIn pocket = some segment)
    (hencodes : ∃ bs, (akcPocket (h.store segment).requestID segment.segmentID).toBytes = .ok bs)
    (hmore : (h.store segment).segments.size ≠ (h.store segment).segmentsAmount →
      Q true (s.storing key h segment))
    (hlast : (h.store segment).segments.size = (h.store segment).segmentsAmount →
      ∀ u, u.handlers = (s.storing key h segment).handlers →
        u.app.log = (s.storing key h segment).app.log ++
          [.sent closePocket (h.store segment).clientAddress,
            .postUpload (h.store segment).requestID (assembled (h.store segment).segments)] →
        Q false u ∧ ∀ e, R e u) :
    wp (handleUploadPocket env amb key h pocket) Q R s := by
  have hlayer := segmentIn_eq_some hsome
  obtain ⟨bs, hbs⟩ := hencodes
  unfold handleUploadPocket
  rw [hlayer.1]
  refine wp_ite.mpr ⟨fun hne => absurd hlayer.2 hne, fun _ => ?_⟩
  rw [wp_bind, wp_setHandler, wp_bind, wp_onApp, wp_sendto]
  refine ⟨fun _ _ => wp_ite.mpr ⟨fun hfull => ?_, hmore⟩, fun e he => ?_⟩
  · have hclose : ∃ bs, closePocket.toBytes = .ok bs := ⟨_, rfl⟩
    obtain ⟨close, hclose⟩ := hclose
    rw [wp_bind, wp_onApp, sendClose, wp_sendto]
    refine ⟨fun _ _ => ?_, fun e he => by rw [hclose] at he; cases he⟩
    have hclosed : ∀ v : Server, v.handlers = (s.storing key h segment).handlers →
        v.app.log = (s.storing key h segment).app.log ++
          [.sent closePocket (h.store segment).clientAddress] ++
          [.postUpload (h.store segment).requestID (assembled (h.store segment).segments)] →
        Q false v ∧ ∀ e, R e v := by
      intro v hhandlers hlog
      refine hlast hfull v hhandlers ?_
      rw [hlog, List.append_assoc]
      rfl
    rw [wp_bind, wp_onApp, postUpload, wp_bind, wp_record]
    split
    · refine (hclosed _ ?_ ?_).2 _
      · rfl
      · rfl
    · refine wp_onFiles raises_storeUpload (fun _ fs => ?_) fun e fs _ => ?_
      · refine (hclosed _ ?_ ?_).1
        · rfl
        · rfl
      · refine (hclosed _ ?_ ?_).2 e
        · rfl
        · rfl
  · rw [hbs] at he
    cases he

theorem Fed.of_storing {pieces : List SegmentLayer}
    (hfed : Fed key n pieces (s.storing key h segment) u) : Fed key n pieces s u := by
  have hposts : postsFor key (s.storing key h segment).app.log = postsFor key s.app.log := by
    rw [Server.storing, postsFor_append]
    exact List.append_nil _
  rw [Fed, hposts] at hfed
  exact hfed

theorem wp_feed (env : Env) (hkey : Code.Q.Fits key) (ps : List (Ambient × Pocket)) :
    ∀ (s : Server) (h : UploadRequestHandler) (pieces : List SegmentLayer),
      (∀ p ∈ ps, ∃ data, Pocket.fromBytes data = .ok p.2) →
      s.handlers.get? key = some (.upload h) → h.requestID = key →
      h.segments.entries = pieces.map piece → pieces.length < h.segmentsAmount →
      let fed := Fed key h.segmentsAmount (pieces ++
        kept (pieces.map SegmentLayer.segmentID) (segmentsIn ps)) s
      wp (feed env key ps) (fun _ => fed) (fun _ => fed) s := by
  induction ps with
  | nil =>
      intro s h pieces _ _ _ _ hlt
      have hall : pieces ++ kept (pieces.map SegmentLayer.segmentID) (segmentsIn []) = pieces :=
        List.append_nil pieces
      rw [feed, wp_pure, hall, Fed, if_neg (Nat.not_le.mpr hlt)]
  | cons p ps ih =>
      intro s h pieces hps hget hid hentries hlt
      obtain ⟨⟨data, hdata⟩, hps⟩ := List.forall_mem_cons.mp hps
      rw [feed, wp_bind, wp_getHandler]
      refine ⟨fun g hg => ?_, fun hnone => by rw [hget] at hnone; cases hnone⟩
      rw [hget, Option.some_inj] at hg
      subst hg
      simp only [wp_bind]
      cases hsegment : segmentIn p.2 with
      | none =>
          refine wp_handleUploadPocket_of_none hsegment
            (wp_when.mpr ⟨fun _ => ?_, fun h => by cases h⟩)
          have hpass : segmentsIn (p :: ps) = segmentsIn ps := List.filterMap_cons_none hsegment
          rw [hpass]
          exact ih s h pieces hps hget hid hentries hlt
      | some segment =>
          have hstep : segmentsIn (p :: ps) = segment :: segmentsIn ps :=
            List.filterMap_cons_some hsegment
          have hstored : (s.storing key h segment).handlers.get? key =
              some (.upload (h.store segment)) := Dict.get?_set_self _ _ _
          have hid' : (h.store segment).requestID = key := by
            rw [UploadRequestHandler.store]
            split <;> exact hid
          have hamount := segmentsAmount_store h segment
          obtain ⟨pieces', hentries', hlen, hrest⟩ := store_pieces hentries segment
          have hsize : (h.store segment).segments.size = pieces'.length := by
            rw [Dict.size, hentries', List.length_map]
          rw [hstep, hrest]
          refine wp_handleUploadPocket_of_some hsegment ?_ (fun hmore => ?_) fun hlast v hv hlog => ?_
          · obtain ⟨hlayer, htype⟩ := segmentIn_eq_some hsegment
            obtain ⟨l, hl, hfits⟩ := Pocket.segmentLayer_of_fromBytes hdata htype
            rw [hlayer, Option.some_inj] at hl
            rw [hid', hl]
            exact Pocket.akcPocket_encodes hkey hfits
          · refine wp_when.mpr ⟨fun _ => ?_, fun h => by cases h⟩
            rw [hsize, hamount] at hmore
            have hgo := ih (s.storing key h segment) (h.store segment) pieces' hps hstored hid'
              hentries' (by omega)
            rw [hamount] at hgo
            exact wp_mono hgo (fun _ _ => Fed.of_storing) fun _ _ => Fed.of_storing
          · have hposted : Fed key h.segmentsAmount
                (pieces' ++ kept (pieces'.map SegmentLayer.segmentID) (segmentsIn ps)) s v := by
              rw [hsize, hamount] at hlast
              rw [Fed, if_pos (by rw [List.length_append]; omega), ← hlast, List.take_left]
              refine ⟨h.store segment, hv ▸ hstored, hamount.trans hlast.symm, hentries', ?_⟩
              rw [hlog, postsFor_append, hid', Server.storing, postsFor_append]
              simp [postsFor]
            exact ⟨wp_when.mpr ⟨fun h => (by cases h), fun _ => hposted⟩, fun _ => hposted⟩

end Feed

-- ============================================================================
-- Whole uploads
-- ============================================================================

/-- `post_upload` was called only with all ids collected, and with `size` bytes. -/
def PostedWhole (key size : Nat) (u : Server) : Prop :=
  ∀ data ∈ postsFor key u.app.log, data.length = size ∧
    ∃ h, u.handlers.get? key = some (.upload h) ∧
      h.segments.keys.insertionSort (· ≤ ·) = List.range h.segmentsAmount

/-- The first `n` pieces, if there are so many, have the ids below `n` and `size` bytes. -/
def WholePieces (n size : Nat) (pieces : List SegmentLayer) : Prop :=
  n ≤ pieces.length → (∀ segment ∈ pieces.take n, segment.segmentID < n) ∧
    ((pieces.take n).map fun segment => segment.data.length).sum = size

theorem Fed.postedWhole_iff {key n size : Nat} {pieces : List SegmentLayer} {s u : Server}
    (hfed : Fed key n pieces s u) (hnone : postsFor key s.app.log = []) :
    PostedWhole key size u ↔ WholePieces n size pieces := by
  by_cases hn : n ≤ pieces.length
  · rw [Fed, if_pos hn] at hfed
    obtain ⟨h, hget, hamount, hentries, hposts⟩ := hfed
    rw [hnone, List.nil_append] at hposts
    have hkeys : h.segments.keys = (pieces.take n).map SegmentLayer.segmentID := by
      rw [Dict.keys, hentries, List.map_map]
      rfl
    have hlen : (assembled h.segments).length =
        ((pieces.take n).map fun segment => segment.data.length).sum := by
      rw [length_assembled, hentries, List.map_map]
      rfl
    have hcount : h.segments.keys.length = n := by
      rw [hkeys, List.length_map, List.length_take_of_le hn]
    constructor
    · intro hposted _
      obtain ⟨hsize, g, hg, hsorted⟩ := hposted (assembled h.segments) (by simp [hposts])
      rw [hget, Option.some_inj, Handler.upload.injEq] at hg
      subst hg
      refine ⟨fun segment hsegment => ?_, hlen.symm.trans hsize⟩
      have hmem : segment.segmentID ∈ h.segments.keys := by
        rw [hkeys]
        exact List.mem_map_of_mem hsegment
      rw [← (List.perm_insertionSort (· ≤ ·) h.segments.keys).mem_iff, hsorted, hamount] at hmem
      exact List.mem_range.mp hmem
    · intro hpieces data hdata
      obtain ⟨hids, hsum⟩ := hpieces hn
      rw [hposts, List.mem_singleton] at hdata
      rw [hdata]
      refine ⟨hlen.trans hsum, h, hget, ?_⟩
      rw [hamount]
      refine insertionSort_eq_range h.segments.nodup (fun k hk => ?_) hcount
      rw [hkeys] at hk
      obtain ⟨segment, hsegment, rfl⟩ := List.mem_map.mp hk
      exact hids segment hsegment
  · rw [Fed, if_neg hn, hnone] at hfed
    constructor
    · exact fun _ hle => absurd hle hn
    · intro _ data hdata
      rw [hfed] at hdata
      cases hdata

/-- The handler of an accepted upload, which holds no segments yet. -/
theorem Accepts.upload_handler {fs : FileTree} {request res : Pocket} {r : Nat} {s t : Server}
    {layer : RequestLayer} (h : Accepts env fs request r res s t)
    (hupload : request.basicLayer.pocketSubType = .upload)
    (hlayer : request.requestLayer = some layer) :
    Code.Q.Fits r ∧ postsFor r t.app.log = [] ∧ layer.pocketFullSize ≠ 0 ∧
      ∃ g, t.handlers.get? r = some (.upload g) ∧ g.requestID = r ∧
        g.segments = Dict.empty ∧ g.segmentsAmount =
          segmentsAmountOf layer.pocketFullSize (segmentSize env layer.maxSingleSegmentSize) := by
  obtain ⟨a, g, hopened, hg, -, -, hposts, -, -⟩ := h.opened
  obtain ⟨layer', storagePath, data, dataSize, hlayer', hsize, hne, -, hshape⟩ := hopened.shape
  rw [hlayer, Option.some_inj] at hlayer'
  subst hlayer'
  rw [if_pos hupload] at hsize
  rw [openedHandler, if_pos hupload] at hshape
  refine ⟨?_, hposts, hsize ▸ hne, _, hshape ▸ hg, rfl, rfl, by rw [hsize]⟩
  obtain ⟨bs, hbs⟩ := hopened.sent
  obtain ⟨head, tail, hhead, -, -⟩ := Pocket.toBytes_ok_iff.mp hbs
  have hfits := fits_of_pack hhead
  simp only [List.forall₂_cons] at hfits
  have hr : res.basicLayer.requestID = r := by rw [hopened.layer]
  exact hr ▸ hfits.2.2.1

/-- For any decoded pockets that reach the handler of an accepted upload: the data is
    posted only as a whole exactly if the first pieces that arrive are a whole. -/
theorem upload_complete_iff {fs : FileTree} {request res : Pocket} {r : Nat} {s t : Server}
    {layer : RequestLayer} {ps : List (Ambient × Pocket)}
    (haccept : Accepts env fs request r res s t)
    (hupload : request.basicLayer.pocketSubType = .upload)
    (hlayer : request.requestLayer = some layer)
    (hps : ∀ p ∈ ps, ∃ data, Pocket.fromBytes data = .ok p.2) :
    PostedWhole r layer.pocketFullSize (final (feed env r ps t)) ↔
      WholePieces (segmentsAmountOf layer.pocketFullSize
        (segmentSize env layer.maxSingleSegmentSize)) layer.pocketFullSize
        (kept [] (segmentsIn ps)) := by
  obtain ⟨hkey, hposts, hsize, g, hg, hid, hempty, hamount⟩ :=
    haccept.upload_handler hupload hlayer
  have hnone : g.segments.entries = [].map piece := by
    rw [hempty]
    rfl
  have hfew : 0 < g.segmentsAmount := hamount ▸ segmentsAmountOf_pos hsize
  have hrun := wp_feed env hkey ps t g [] hps hg hid hnone hfew
  rw [hamount] at hrun
  exact (final_of_wp hrun).postedWhole_iff hposts

/-- The whole upload `uploadRequest` announces. -/
def wholePockets : List (Ambient × Pocket) := [(default, segmentPocket 1 0 [1, 7])]

/-- The same bytes under an id the upload does not have. -/
def strayPockets : List (Ambient × Pocket) := [(default, segmentPocket 1 5 [1, 7])]

theorem accepts_uploadRequest : ∃ t, Accepts default (installed default) uploadRequest 1
    (okResponse { basicLayer := ⟨1, .response, .upload⟩ } 2 1 1500)
    (Server.init (installed default)) t ∧
    App.step default (Server.init (installed default))
      (.recv uploadRequest.datagram (['c'], 8001) default) = some t := by
  have hcheck : (App.step default (Server.init (installed default))
      (.recv uploadRequest.datagram (['c'], 8001) default)).map (fun s =>
        (s.app.log.getLast?, (s.handlers.get? 1).isSome)) =
      some (some (.sent (okResponse { basicLayer := ⟨1, .response, .upload⟩ } 2 1 1500)
        (['c'], 8001)), true) := by decide +kernel
  obtain ⟨t, ht, hfacts⟩ := Option.map_eq_some_iff.mp hcheck
  simp only [Prod.mk.injEq, Option.isSome_iff_ne_none] at hfacts
  exact ⟨t, ⟨⟨[], rfl⟩, ⟨_, _, default, ht, by rfl, hfacts.1⟩, rfl, hfacts.2⟩, ht⟩

theorem upload_complete_iff_wholePockets :
    ∃ t, App.step default (Server.init (installed default))
        (.recv uploadRequest.datagram (['c'], 8001) default) = some t ∧
      PostedWhole 1 2 (final (feed default 1 wholePockets t)) := by
  obtain ⟨t, haccept, ht⟩ := accepts_uploadRequest
  have hwhole : WholePieces 1 2 (kept [] (segmentsIn wholePockets)) :=
    fun _ => ⟨by decide +kernel, by decide +kernel⟩
  refine ⟨t, ht, (upload_complete_iff haccept rfl rfl fun p hp => ?_).mpr hwhole⟩
  rw [List.mem_singleton.mp hp]
  exact ⟨(segmentPocket 1 0 [1, 7]).datagram, by rfl⟩

/-- Whatever pockets reach it, an accepted upload is posted only as a whole. -/
def UploadsWhole (env : Env) (fs : FileTree) : Prop :=
  ∀ (request res : Pocket) (r : Nat) (s t : Server) (layer : RequestLayer)
    (ps : List (Ambient × Pocket)), Accepts env fs request r res s t →
    request.basicLayer.pocketSubType = .upload → request.requestLayer = some layer →
    (∀ p ∈ ps, ∃ data, Pocket.fromBytes data = .ok p.2) →
    PostedWhole r layer.pocketFullSize (final (feed env r ps t))

/-- One segment with the id 5 completes the upload of a single segment. -/
theorem not_uploadsWhole : ¬ UploadsWhole default (installed default) := by
  intro h
  obtain ⟨t, haccept, ht⟩ := accepts_uploadRequest
  have hcheck : (App.step default (Server.init (installed default))
      (.recv uploadRequest.datagram (['c'], 8001) default)).map (fun t =>
        let u := final (feed default 1 strayPockets t)
        (postsFor 1 u.app.log, (u.handlers.get? 1).map fun
          | .upload g => (g.segments.keys, g.segmentsAmount)
          | .download _ => ([], 0))) = some ([[1, 7]], some ([5], 1)) := by decide +kernel
  rw [ht, Option.map_some, Option.some_inj, Prod.mk.injEq] at hcheck
  obtain ⟨hposts, hkeys⟩ := hcheck
  have hposted := h _ _ _ _ t _ strayPockets haccept rfl rfl fun p hp => by
    rw [List.mem_singleton.mp hp]
    exact ⟨(segmentPocket 1 5 [1, 7]).datagram, by rfl⟩
  obtain ⟨-, g, hg, hsorted⟩ := hposted [1, 7] (by rw [hposts]; exact List.mem_singleton.mpr rfl)
  rw [hg, Option.map_some, Option.some_inj, Prod.mk.injEq] at hkeys
  rw [hkeys.1, hkeys.2] at hsorted
  exact absurd hsorted (by decide)

end App
end NetworkingFinal
