/-
  NetworkingFinal.Net.Download

  A download between the server, which serves other requests as well, and the
  client's `download_data`, over a network that loses, duplicates, reorders and
  delays.

  `DownloadInv` relates the two sides: what the client has kept are the segments
  of the data, and as long as it misses one, the server still has the download
  and every missing segment is in one of its windows.
-/
import NetworkingFinal.App.Downloads
import NetworkingFinal.Client.Download
import NetworkingFinal.Net.Pair

namespace NetworkingFinal
namespace Net

open Py Py.Struct Ftp App Client Lib

variable {env : Env}

/-- The action sent this datagram as a Segment of the request `r`. -/
def SendsSegment (r : Nat) (data : Bytes) : Action → Prop
  | .sent q _ => q.basicLayer.pocketType = .segment ∧ q.requestID = r ∧ q.toBytes = .ok data
  | .postUpload _ _ => False

instance (r : Nat) (data : Bytes) : (x : Action) → Decidable (SendsSegment r data x)
  | .sent q _ => inferInstanceAs (Decidable (q.basicLayer.pocketType = .segment ∧
      q.requestID = r ∧ q.toBytes = .ok data))
  | .postUpload _ _ => isFalse fun h => h

/-- The network between the two sides of the download `r`: what carries `r` and
    reaches the server was sent by this client, and the Segments that reach the
    client were sent for `r`. -/
def Exchanged (r : Nat) (w : Pair Download) : PairEvent → Prop
  | .server (.recv data _ _) => ∀ p ∈ (Pocket.fromBytes data).toOption,
      p.basicLayer.pocketType ≠ .request → p.requestID = r → data ∈ w.client.sent
  | .client (.receive (.datagram data) _) => ∀ p ∈ (Pocket.fromBytes data).toOption,
      p.basicLayer.pocketType = .segment → ∃ x ∈ w.server.app.log, SendsSegment r data x
  | _ => True

instance (r : Nat) (w : Pair Download) : (e : PairEvent) → Decidable (Exchanged r w e)
  | .server (.recv data _ _) => inferInstanceAs (Decidable (∀ p ∈ (Pocket.fromBytes data).toOption,
      p.basicLayer.pocketType ≠ .request → p.requestID = r → data ∈ w.client.sent))
  | .client (.receive (.datagram data) _) =>
      inferInstanceAs (Decidable (∀ p ∈ (Pocket.fromBytes data).toOption,
        p.basicLayer.pocketType = .segment → ∃ x ∈ w.server.app.log, SendsSegment r data x))
  | .server .timeout => isTrue trivial
  | .server (.task _ _) => isTrue trivial
  | .client (.proceed _) => isTrue trivial
  | .client (.receive .timeout _) => isTrue trivial
  | .client (.receive .osError _) => isTrue trivial

-- ============================================================================
-- The client's side
-- ============================================================================

/-- A pocket acknowledges no missing segment, and reports completion only when none
    is missing. -/
structure Truthful (needed : List Nat) (p : Pocket) : Prop where
  akc : ∀ layer, p.akcLayer = some layer → layer.segmentID ∉ needed
  complited : p.basicLayer.pocketType = .downloadComplited → needed = []

theorem Truthful.mono {needed needed' : List Nat} {p : Pocket} (h : Truthful needed p)
    (hsub : needed' ⊆ needed) : Truthful needed' p :=
  ⟨fun layer hl hmem => h.akc layer hl (hsub hmem),
    fun hc => List.subset_nil.mp (h.complited hc ▸ hsub)⟩

/-- The client holds segments of `data`, out of `n`. -/
structure Keeps (r n size : Nat) (data : Bytes) (d : Download) : Prop extends
    Download.Sound r n d where
  pieces : ∀ k piece, k ∉ d.neededSegments → d.segments[k]? = some piece →
    piece = segmentOf data data.length size k
  truthful : ∀ bs ∈ d.sent, ∀ p, Pocket.fromBytes bs = .ok p → Truthful d.neededSegments p

section Client

variable {r n size : Nat} {data : Bytes} {d d' : Download} {m : Move}

theorem keep_subset (d : Download) (segment : SegmentLayer) :
    (d.keep segment).neededSegments ⊆ d.neededSegments := by
  unfold Download.keep
  split
  · exact List.erase_subset
  · exact List.Subset.refl _

theorem Keeps.step (h : Keeps r n size data d) (hstep : Download.Effect d m d')
    (hown : d.neededSegments ≠ [] → ∀ r' segment, Download.Brings m r' segment →
      segment.data = segmentOf data data.length size segment.segmentID) :
    Keeps r n size data d' ∧ d'.neededSegments ⊆ d.neededSegments := by
  have hsound := h.toSound.step hstep
  have hadd : ∀ {bs : Bytes} {q : Pocket} {needed : List Nat}, needed ⊆ d.neededSegments →
      Pocket.fromBytes bs = .ok q → Truthful needed q →
      ∀ bs' ∈ d.sent ++ [bs], ∀ p, Pocket.fromBytes bs' = .ok p → Truthful needed p := by
    intro bs q needed hsub hq htruth bs' hbs' p hp
    rcases List.mem_append.mp hbs' with hbs' | hbs'
    · exact (h.truthful bs' hbs' p hp).mono hsub
    · rw [List.mem_singleton.mp hbs', hq, Except.ok.injEq] at hp
      exact hp ▸ htruth
  have hkeep : ∀ {p : Pocket} {segment : SegmentLayer}, m.Delivers p →
      p.basicLayer.pocketType = .segment → p.segmentLayer = some segment →
      ∀ k piece, k ∉ (d.keep segment).neededSegments →
        (d.keep segment).segments[k]? = some piece → piece = segmentOf data data.length size k := by
    intro p segment hp htype hlayer k piece hk hpiece
    rcases Download.keep_piece hk hpiece with ⟨hk, hpiece⟩ | ⟨hmissing, rfl⟩
    · exact h.pieces k piece hk hpiece
    · exact hown hmissing _ _ ⟨p, hp, htype, rfl, hlayer⟩
  cases hstep with
  | moved finishing collect passed => exact ⟨⟨hsound, h.pieces, h.truthful⟩, List.Subset.refl _⟩
  | asked bytes now move =>
      have hready := Pocket.fromBytes_readyPocket bytes
      have htruth : Truthful d.neededSegments
          { basicLayer := ⟨d.requestID, .readyForDownloading, .unknown⟩ } :=
        ⟨fun layer hl => (by cases hl), fun hc => (by cases hc)⟩
      exact ⟨⟨hsound, h.pieces, hadd (List.Subset.refl _) hready htruth⟩, List.Subset.refl _⟩
  | told phase bytes now move =>
      have hnil : d.neededSegments = [] := h.finishing (phase ▸ trivial)
      have htruth : Truthful d.neededSegments (complitedPocket d.requestID) :=
        ⟨fun layer hl => (by cases hl), fun _ => hnil⟩
      exact ⟨⟨hsound, h.pieces, hadd (List.Subset.refl _)
        (Pocket.fromBytes_complitedPocket bytes) htruth⟩, List.Subset.refl _⟩
  | @took p segment bs delivers isOpen missing type layer bytes =>
      have htruth : Truthful (d.keep segment).neededSegments
          (akcPocket d.requestID segment.segmentID) := by
        refine ⟨fun layer hl hmem => ?_, fun hc => (by cases hc)⟩
        cases hl
        exact ((Download.mem_neededSegments_keep h.nodup).mp hmem).1 rfl
      exact ⟨⟨hsound, hkeep delivers type layer, hadd (keep_subset d segment)
        (Pocket.fromBytes_akcPocket bytes) htruth⟩, keep_subset d segment⟩
  | @broke p segment e delivers isOpen type layer encodes =>
      refine ⟨⟨hsound, hkeep delivers type layer, fun bs hbs q hq => ?_⟩, keep_subset d segment⟩
      have hsent : bs ∈ d.sent := (Download.keep_sent segment) ▸ hbs
      exact (h.truthful bs hsent q hq).mono (keep_subset d segment)

/-- A client that misses nothing has the data. -/
theorem Keeps.result_eq (h : Keeps r n size data d) (hnil : d.neededSegments = [])
    (hcover : data.length ≤ n * size) : d.result = data := by
  have hsegments : d.segments = (List.range n).map (segmentOf data data.length size) := by
    apply List.ext_getElem
    · rw [h.amount, List.length_map, List.length_range]
    · intro k hk hk'
      rw [List.getElem_map, List.getElem_range]
      exact h.pieces k _ (hnil ▸ List.not_mem_nil) (List.getElem?_eq_getElem hk)
  rw [Download.result, hsegments, ← List.flatMap_def]
  exact flatMap_segmentOf hcover

end Client

-- ============================================================================
-- The server's side
-- ============================================================================

/-- The handler still offers every missing segment. -/
structure Offers (size : Nat) (data : Bytes) (needed : List Nat) (g : DownloadRequestHandler) :
    Prop where
  data : g.data = data
  sizes : ∀ res layer, g.response = some res → res.responseLayer = some layer →
    layer.singleSegmentSize = size
  queue : ∀ p ∈ g.pockets, Truthful needed p
  window : ∀ k ∈ needed, k ∈ g.windowToSend ∨ k ∈ g.windowSending

/-- The task has not come to its end. -/
structure Works (size : Nat) (data : Bytes) (t : Task) : Prop where
  sizes : t.phase = .head ∨ t.phase = .refresh →
    t.dataSize = data.length ∧ t.singleSegmentSize = size
  going : t.downloading = true
  unended : t.phase ≠ .closing ∧ t.phase ≠ .leaving

/-- What the server does for the download while segments of it are missing. -/
structure Serves (r size : Nat) (data : Bytes) (needed : List Nat) (s : Server) : Prop where
  offers : ∃ g, s.handlers.get? r = some (.download g) ∧ Offers size data needed g
  works : ∀ t ∈ s.tasks, t.key = r → Works size data t
  log : ∀ p a, .sent p a ∈ s.app.log → p.basicLayer.pocketType = .segment → p.requestID = r →
    ∃ k, p = segmentPocket r k (segmentOf data data.length size k)

section Server

variable {r size : Nat} {data : Bytes} {needed needed' : List Nat} {s t : Server}

theorem Serves.mono (h : Serves r size data needed s) (hsub : needed' ⊆ needed) :
    Serves r size data needed' s := by
  obtain ⟨g, hg, ho⟩ := h.offers
  exact ⟨⟨g, hg, ho.data, ho.sizes, fun p hp => (ho.queue p hp).mono hsub,
    fun k hk => ho.window k (hsub hk)⟩, h.works, h.log⟩

/-- A turn of the main loop leaves the windows alone. -/
theorem Serves.recv (h : Serves r size data needed s) (hs : AppInv s)
    {bytes : Bytes} {a : Addr} (hstep : RecvStep env s bytes a t)
    (hown : ∀ p, Pocket.fromBytes bytes = .ok p → p.basicLayer.pocketType ≠ .request →
      p.requestID = r → Truthful needed p) : Serves r size data needed t := by
  cases hstep with
  | quiet tables log clientAddress stopped =>
      have hhandlers : t.handlers = s.handlers := congrArg Tables.handlers tables
      have htasks : t.tasks = s.tasks := congrArg Tables.tasks tables
      exact ⟨hhandlers ▸ h.offers, htasks ▸ h.works, log ▸ h.log⟩
  | @turn p ok pre new decoded effect log resent clientAddress returned raised =>
      obtain ⟨g, hg, ho⟩ := h.offers
      obtain ⟨g', hg', htouched⟩ := effect.get?_download hs.server.tables hg
      refine ⟨⟨g', hg', ?_⟩, fun task htask hkey => ?_, fun q b hq htype hr => ?_⟩
      · cases htouched with
        | same => exact ho
        | readied other own => exact ⟨ho.data, ho.sizes, ho.queue, ho.window⟩
        | queued other own =>
            refine ⟨ho.data, ho.sizes, fun q hq => ?_, ho.window⟩
            rcases List.mem_append.mp hq with hq | hq
            · exact ho.queue q hq
            · rw [List.mem_singleton.mp hq]
              exact hown p decoded other own
      · have hsubmitted : task ∈ s.tasks ∨ task = { key := p.requestID } := by
          rcases effect.tasks_eq with htasks | htasks
          · rw [show t.tasks = s.tasks from htasks] at htask
            exact Or.inl htask
          · rw [show t.tasks = s.tasks ++ [{ key := p.requestID }] from htasks, List.mem_append,
              List.mem_singleton] at htask
            exact htask
        rcases hsubmitted with htask | rfl
        · exact h.works task htask hkey
        · exact ⟨fun hp => (by rcases hp with hp | hp <;> cases hp), rfl,
            TaskPhase.noConfusion, TaskPhase.noConfusion⟩
      · rw [log, List.mem_append, List.mem_append] at hq
        rcases hq with (hq | hq) | hq
        · exact h.log q b hq htype hr
        · obtain ⟨k, res, f, hres, -, heq⟩ := resent _ hq
          cases heq
          rw [(hs.log.responses k _ hres).type] at htype
          cases htype
        · exact absurd htype (effect.not_segment hq)

theorem Offers.shift {g : DownloadRequestHandler} (h : Offers size data needed g) {k : Nat}
    {windowToSend : List Nat} (hwindow : g.windowToSend = k :: windowToSend) :
    Offers size data needed (g.shift k windowToSend) := by
  refine ⟨h.data, h.sizes, h.queue, fun j hj => ?_⟩
  rcases h.window j hj with hj | hj
  · rw [hwindow, List.mem_cons] at hj
    rcases hj with rfl | hj
    · exact Or.inr (List.mem_append_right _ (List.mem_singleton.mpr rfl))
    · exact Or.inl hj
  · exact Or.inr (List.mem_append_left _ hj)

theorem Offers.requeue {g : DownloadRequestHandler} (h : Offers size data needed g) :
    Offers size data needed (requeue g) := by
  refine ⟨h.data, h.sizes, h.queue, fun j hj => Or.inl ?_⟩
  exact List.mem_append.mpr (h.window j hj).symm

/-- An acknowledgement takes no missing segment out of the windows. -/
theorem Offers.receivePocket {g : DownloadRequestHandler} (h : Offers size data needed g)
    (hmissing : needed ≠ []) {pocket : Pocket} {pockets : List Pocket}
    (hqueue : g.pockets = pocket :: pockets) :
    Offers size data needed (receivePocket { g with pockets } pocket) ∧
      pocket.basicLayer.pocketType ≠ .downloadComplited := by
  have htruth : Truthful needed pocket := h.queue pocket (hqueue ▸ List.mem_cons_self)
  have htype : pocket.basicLayer.pocketType ≠ .downloadComplited :=
    fun hc => hmissing (htruth.complited hc)
  have hrest : ∀ p ∈ pockets, Truthful needed p := fun p hp =>
    h.queue p (hqueue ▸ List.mem_cons_of_mem _ hp)
  refine ⟨?_, htype⟩
  unfold App.receivePocket
  rw [if_neg htype]
  split
  · next layer hlayer =>
      refine ⟨h.data, h.sizes, hrest, fun k hk => ?_⟩
      have hne : k ≠ layer.segmentID := fun heq => htruth.akc layer hlayer (heq ▸ hk)
      exact (h.window k hk).imp (List.mem_erase_of_ne hne).mpr (List.mem_erase_of_ne hne).mpr
  · exact ⟨h.data, h.sizes, hrest, h.window⟩

/-- What a step of the download's own worker keeps. -/
theorem Works.step {task : Task} {result : Option Task} {hs : Dict Nat Handler}
    {new : List Action} {clk : Readings} {g : DownloadRequestHandler}
    (h : Works size data task) (heff : TaskEffect clk s task result hs new)
    (hlive : task.live = true) (hg : s.handlers.get? task.key = some (.download g))
    (hid : g.requestID = task.key) (ho : Offers size data needed g) (hmissing : needed ≠ []) :
    (∃ g', hs.get? task.key = some (.download g') ∧ Offers size data needed g') ∧
      (∀ task', result = some task' → Works size data task') ∧
      ∀ q b, .sent q b ∈ new → ∃ k, q = segmentPocket task.key k
        (segmentOf data data.length size k) := by
  have hsame : ∀ {g₀}, s.handlers.get? task.key = some (.download g₀) → g₀ = g := fun hfound =>
    Handler.download.inj (Option.some.inj (hfound.symm.trans hg))
  have hset : ∀ {g₁}, Offers size data needed g₁ → ∃ g',
      (s.handlers.set task.key (.download g₁)).get? task.key = some (.download g') ∧
        Offers size data needed g' := fun ho => ⟨_, Dict.get?_set_self _ _ _, ho⟩
  have hquiet : ∀ q b, .sent q b ∈ ([] : List Action) → ∃ k, q = segmentPocket task.key k
      (segmentOf data data.length size k) := fun q b hq => by cases hq
  have hstay : Works size data task → ∀ task', some task = some task' → Works size data task' :=
    fun hw task' heq => Option.some.inj heq ▸ hw
  cases heff with
  | failed => exact ⟨⟨g, hg, ho⟩, fun _ heq => (by cases heq), hquiet⟩
  | began phase found response sizes =>
      refine ⟨⟨g, hg, ho⟩, fun _ heq => ?_, hquiet⟩
      cases hsame found
      cases heq
      exact ⟨fun _ => ⟨congrArg List.length ho.data, ho.sizes _ _ response sizes⟩, h.going,
        TaskPhase.noConfusion, TaskPhase.noConfusion⟩
  | finished phase ended => exact absurd (h.going.symm.trans ended) Bool.noConfusion
  | @sent g₀ k windowToSend a phase going found window room address encoded =>
      cases hsame found
      refine ⟨hset (ho.shift window), hstay h, fun q b hq => ⟨k, ?_⟩⟩
      cases List.mem_singleton.mp hq
      obtain ⟨hdata, hsize⟩ := h.sizes (Or.inl phase)
      rw [taskPocket, hid, ho.data, hdata, hsize]
  | dropped phase going found window =>
      cases hsame found
      exact ⟨hset (ho.shift window), fun _ heq => (by cases heq), hquiet⟩
  | paused phase going =>
      refine ⟨⟨g, hg, ho⟩, fun _ heq => ?_, hquiet⟩
      cases heq
      exact ⟨fun _ => h.sizes (Or.inl phase), h.going, TaskPhase.noConfusion,
        TaskPhase.noConfusion⟩
  | @received g₀ pocket pockets phase found queue =>
      cases hsame found
      obtain ⟨hreceived, htype⟩ := ho.receivePocket hmissing queue
      refine ⟨hset hreceived, fun _ heq => ?_, hquiet⟩
      rw [Task.afterPocket, if_neg htype, Option.some_inj] at heq
      exact heq ▸ h
  | requeued phase found queue =>
      cases hsame found
      refine ⟨hset ho.requeue, fun _ heq => ?_, hquiet⟩
      cases heq
      exact ⟨fun _ => h.sizes (Or.inr phase), h.going, TaskPhase.noConfusion,
        TaskPhase.noConfusion⟩
  | waiting phase => exact ⟨⟨g, hg, ho⟩, hstay h, hquiet⟩
  | closed phase found => exact absurd phase h.unended.1
  | left phase found => exact absurd phase h.unended.2
  | halted dead => exact absurd (hlive.symm.trans dead) Bool.noConfusion

/-- A step of a worker keeps every missing segment in a window. -/
theorem Serves.task (h : Serves r size data needed s) (hmissing : needed ≠ []) (hs : AppInv s)
    {i : Nat} {clk : Readings} (hstep : TaskStep clk s i t) : Serves r size data needed t := by
  obtain ⟨task, task', handlers, new, htask, hlive, heffect, rfl⟩ := hstep.worked
  obtain ⟨g, hg, ho⟩ := h.offers
  have hmem : task ∈ s.tasks := List.mem_of_getElem? htask
  -- the task after the step, whether it goes on or fails
  have hresult : ∃ result, TaskEffect clk s task result handlers new ∧ task'.key = task.key ∧
      ((∀ task'', result = some task'' → Works size data task'') → Works size data task →
        Works size data task') := by
    rcases heffect with heffect | ⟨heffect, e, rfl, -⟩
    · exact ⟨_, heffect, heffect.key_eq, fun hall _ => hall _ rfl⟩
    · refine ⟨_, heffect, rfl, fun _ hw => ⟨fun hp => ?_, hw.going, TaskPhase.noConfusion,
        TaskPhase.noConfusion⟩⟩
      rcases hp with hp | hp <;> cases hp
  obtain ⟨result, heff, hkey', hworks⟩ := hresult
  by_cases hkey : task.key = r
  · subst hkey
    have hid : g.requestID = task.key := (hs.server.tables.id _ _ hg).1
    have hw := h.works task hmem rfl
    obtain ⟨hoffers, hnext, hsent⟩ := hw.step heff hlive hg hid ho hmissing
    refine ⟨hoffers, fun u hu hukey => ?_, fun q b hq htype hr => ?_⟩
    · rcases List.mem_or_eq_of_mem_set hu with hu | rfl
      · exact h.works u hu hukey
      · exact hworks hnext hw
    · rcases List.mem_append.mp hq with hq | hq
      · exact h.log q b hq htype hr
      · exact hsent q b hq
  · refine ⟨⟨g, ?_, ho⟩, fun u hu hukey => ?_, fun q b hq htype hr => ?_⟩
    · exact (heff.get?_of_ne hs.server.tables fun hk => hkey hk.symm).trans hg
    · rcases List.mem_or_eq_of_mem_set hu with hu | rfl
      · exact h.works u hu hukey
      · exact absurd (hkey'.symm.trans hukey) hkey
    · rcases List.mem_append.mp hq with hq | hq
      · exact h.log q b hq htype hr
      · exact absurd ((heff.segment_requestID hs.server.tables hq htype).1.symm.trans hr) hkey

end Server

-- ============================================================================
-- The two sides
-- ============================================================================

/-- The relation between the server and the client of the download `r`. -/
structure DownloadInv (r n size : Nat) (data : Bytes) (w : Pair Download) : Prop where
  app : AppInv w.server
  client : Keeps r n size data w.client
  server : w.client.neededSegments ≠ [] →
    Serves r size data w.client.neededSegments w.server

section Steps

variable {r n size : Nat} {data : Bytes} {w w' : Pair Download}

/-- What the client is brought while it misses a segment is a segment of the data. -/
theorem DownloadInv.brings (h : DownloadInv r n size data w) {m : Move}
    (hmissing : w.client.neededSegments ≠ []) (hex : Exchanged r w (.client m)) {r' : Nat}
    {segment : SegmentLayer} (hb : Download.Brings m r' segment) :
    segment.data = segmentOf data data.length size segment.segmentID := by
  obtain ⟨p, ⟨bytes, clk, rfl, hdecode⟩, htype, -, hlayer⟩ := hb
  obtain ⟨x, hx, hsent⟩ := hex p (by rw [hdecode]; rfl) htype
  cases x with
  | sent q a =>
      obtain ⟨hqtype, hr, hbytes⟩ := hsent
      obtain ⟨k, rfl⟩ := (h.server hmissing).log q a hx hqtype hr
      rw [Pocket.fromBytes_segmentPocket hbytes, Except.ok.injEq] at hdecode
      rw [← hdecode] at hlayer
      cases hlayer
      rfl
  | postUpload r'' body => exact hsent.elim

theorem DownloadInv.step (h : DownloadInv r n size data w) {e : PairEvent}
    (hex : Exchanged r w e) (hstep : Pair.step env Download.step w e = some w') :
    DownloadInv r n size data w' := by
  cases e with
  | client m =>
      obtain ⟨d, hd, rfl⟩ := Pair.step_client hstep
      have heffect := Download.effect_of_step h.client.collect hd
      obtain ⟨hkeeps, hsub⟩ := h.client.step heffect fun hmissing r' segment hb =>
        h.brings hmissing hex hb
      refine ⟨h.app, hkeeps, fun hmissing => (h.server fun hnil => ?_).mono hsub⟩
      rw [hnil] at hsub
      exact hmissing (List.subset_nil.mp hsub)
  | server e =>
      obtain ⟨s, hs, rfl⟩ := Pair.step_server hstep
      refine ⟨h.app.step hs, h.client, fun hmissing => ?_⟩
      have hserves := h.server hmissing
      cases e with
      | recv bytes a amb =>
          obtain ⟨-, hrecv⟩ := step_recv hs
          refine hserves.recv h.app hrecv fun p hp htype hr => ?_
          have hsent : bytes ∈ w.client.sent := hex p (by rw [hp]; rfl) htype hr
          exact h.client.truthful bytes hsent p hp
      | timeout => exact step_timeout hs ▸ hserves
      | task i clk => exact hserves.task hmissing h.app (step_task hs)

end Steps

-- ============================================================================
-- Whole runs
-- ============================================================================

/-- Right after the request was accepted, and before the client has sent anything,
    the sides are in the relation. -/
theorem downloadInv_start {fs : FileTree} {request res resPocket : Pocket} {r : Nat}
    {s₀ s : Server} {layer : RequestLayer} {g : DownloadRequestHandler} {d : Download}
    (haccept : Accepts env fs request r res s₀ s)
    (hlayer : request.requestLayer = some layer)
    (hg : s.handlers.get? r = some (.download g))
    (harrives : Arrives res resPocket) (hstart : Download.start resPocket = .ok d) :
    DownloadInv r (segmentsAmountOf g.data.length (segmentSize env layer.maxSingleSegmentSize))
      (segmentSize env layer.maxSingleSegmentSize) g.data ⟨s, d⟩ ∧ Code.Q.Fits g.data.length := by
  obtain ⟨a, f, hopened, hf, hdrawn, happ, -, hlog, htasks⟩ := haccept.opened
  obtain ⟨hid, hresponse⟩ := harrives.of_opened hopened
  obtain ⟨bs, hbs, -⟩ := harrives
  obtain ⟨layer', storagePath, data, dataSize, hlayer', hdata, -, hres, hshape⟩ := hopened.shape
  have hfits := Pocket.dataSize_fits hbs hopened.plain hres
  rw [hlayer, Option.some_inj] at hlayer'
  subst hlayer'
  -- the handler is the one that was opened for a download
  rw [hg, Option.some_inj] at hf
  rw [← hf, openedHandler] at hshape
  split at hshape
  · cases hshape
  · next hdownload =>
      rw [if_neg hdownload] at hdata
      cases hshape
      subst hdata
      obtain ⟨hsound, hneeded, hsent, layer', hlayer', hamount⟩ := Download.start_eq hstart
      rw [hresponse, hres, Option.some_inj] at hlayer'
      rw [← hlayer'] at hamount
      have hn : d.segmentsAmount =
          segmentsAmountOf data.length (segmentSize env layer.maxSingleSegmentSize) := hamount
      rw [hid, hn] at hsound
      refine ⟨⟨happ, ⟨hsound, fun k piece hk hpiece => ?_, ?_⟩, fun _ =>
        ⟨⟨_, hg, rfl, fun res' layer' hres' hlayer' => ?_, ?_, fun k hk => Or.inl ?_⟩,
          fun task htask hkey => ?_, fun p b hp htype hr => ?_⟩⟩, hfits⟩
      · obtain ⟨hlt, -⟩ := List.getElem?_eq_some_iff.mp hpiece
        rw [hneeded, hn, List.mem_range] at hk
        exact absurd (hsound.amount ▸ hlt) hk
      · rw [hsent]
        intro bs' hbs'
        cases hbs'
      · cases hres'
        rw [hres, Option.some_inj] at hlayer'
        rw [← hlayer']
      · intro p hp
        cases hp
      · rw [hneeded, hn] at hk
        exact hk
      · exact absurd hkey (htasks task htask).ne
      · exact absurd hr (hlog p b hp htype).ne

/-- **Downloads are exact.**  The client runs `download_data` on the Response of an
    accepted download or listing, in any schedule with the server.  What it returns
    is the data of the handler, and whatever segment it misses is in one of the
    windows of the server.

    The segments cover the data when the segment size is 1024 or more, or when the
    data has at most `2 ^ 54` segments. -/
theorem download_exact {fs : FileTree} {request res resPocket : Pocket} {r : Nat}
    {s₀ s : Server} {layer : RequestLayer} {g : DownloadRequestHandler} {d : Download}
    {es : List PairEvent} {w : Pair Download}
    (haccept : Accepts env fs request r res s₀ s)
    (hlayer : request.requestLayer = some layer)
    (hg : s.handlers.get? r = some (.download g))
    (hsize : 1024 ≤ segmentSize env layer.maxSingleSegmentSize ∨
      g.data.length ≤ 2 ^ 54 * segmentSize env layer.maxSingleSegmentSize)
    (harrives : Arrives res resPocket) (hstart : Download.start resPocket = .ok d)
    (hex : AllSteps (Pair.step env Download.step) (Exchanged r) ⟨s, d⟩ es)
    (hrun : exec (Pair.step env Download.step) ⟨s, d⟩ es = some w) :
    (w.client.phase = .returned → w.client.result = g.data) ∧
      ∀ k ∈ w.client.neededSegments, ∃ h, w.server.handlers.get? r = some (.download h) ∧
        (k ∈ h.windowToSend ∨ k ∈ h.windowSending) := by
  obtain ⟨hinit, hfits⟩ := downloadInv_start haccept hlayer hg harrives hstart
  have hinv := exec_invariant_of (DownloadInv r _ _ g.data) (Exchanged r) hinit
    (fun _ _ _ hw hC ht => hw.step hC ht) hex hrun
  constructor
  · intro hret
    have hlen : g.data.length < 2 ^ 64 := hfits
    have hcover : g.data.length ≤ segmentsAmountOf g.data.length
        (segmentSize env layer.maxSingleSegmentSize) *
          segmentSize env layer.maxSingleSegmentSize := by
      apply le_segmentsAmountOf_mul (segmentSize_pos env _)
      omega
    exact hinv.client.result_eq (hinv.client.finishing (hret ▸ trivial)) hcover
  · intro k hk
    obtain ⟨h, hh, hoffers⟩ := (hinv.server (List.ne_nil_of_mem hk)).offers
    exact ⟨h, hh, hoffers.window k hk⟩

/-- The Response to `downloadRequest`, and the client that got it. -/
def downloadResponse : Pocket :=
  { basicLayer := ⟨1, .response, .download⟩, responseLayer := some ⟨true, [], 4, 1, 1500⟩ }

def downloadClient : Download :=
  { requestID := 1, segmentsAmount := 1, neededSegments := [0], segments := [[]] }

/-- The only segment, a flag and the content of the file, is sent and arrives; its
    acknowledgement is lost, and the client reports completion. -/
def downloadExchange : List PairEvent :=
  [.client (.proceed 0),
   .server (.recv (readyPocket 1).datagram (['c'], 8001) default),
   .server (.task 0 ⟨0, 0, 0⟩), .server (.task 0 ⟨0, 0, 0⟩),
   .client (.receive (.datagram (segmentPocket 1 0 [1, 1, 2, 3]).datagram) ⟨0, 0, 0⟩),
   .client (.proceed 0),
   .server (.recv (complitedPocket 1).datagram (['c'], 8001) default),
   .server (.task 0 ⟨0, 0, 0⟩), .server (.task 0 ⟨0, 0, 0⟩),
   .server (.task 0 ⟨200000, 200000, 200000⟩),
   .server (.task 0 ⟨200000, 0, 0⟩), .server (.task 0 ⟨200000, 0, 0⟩),
   .client (.receive (.datagram closePocket.datagram) ⟨0, 0, 0⟩)]

/-- The data of a download handler. -/
def offered : Handler → Option Bytes
  | .upload _ => none
  | .download h => some h.data

theorem download_exact_downloadExchange :
    ∃ s w, App.step default (Server.init (installedWith default ['a'] [1, 2, 3]))
        (.recv downloadRequest.datagram (['c'], 8001) default) = some s ∧
      exec (Pair.step default Download.step) ⟨s, downloadClient⟩ downloadExchange = some w ∧
      w.client.phase = .returned ∧ w.client.result = [1, 1, 2, 3] := by
  have hcheck : (App.step default (Server.init (installedWith default ['a'] [1, 2, 3]))
      (.recv downloadRequest.datagram (['c'], 8001) default)).map (fun s =>
        (s.app.log.getLast?, (s.handlers.get? 1).bind offered,
          (exec (Pair.step default Download.step) ⟨s, downloadClient⟩
            downloadExchange).map (fun w => w.client.phase),
          decide (AllSteps (Pair.step default Download.step) (Exchanged 1) ⟨s, downloadClient⟩
            downloadExchange))) =
      some (some (.sent downloadResponse (['c'], 8001)), some [1, 1, 2, 3], some .returned, true) := by
    decide +kernel
  obtain ⟨s, hs, hfacts⟩ := Option.map_eq_some_iff.mp hcheck
  simp only [Prod.mk.injEq, decide_eq_true_eq] at hfacts
  obtain ⟨hlast, hoffered, hphase, hex⟩ := hfacts
  obtain ⟨w, hw, hret⟩ := Option.map_eq_some_iff.mp hphase
  obtain ⟨h, hh, hdata⟩ := Option.bind_eq_some_iff.mp hoffered
  cases h with
  | upload h => cases hdata
  | download g =>
      have haccept : Accepts default (installedWith default ['a'] [1, 2, 3]) downloadRequest 1
          downloadResponse (Server.init (installedWith default ['a'] [1, 2, 3])) s :=
        ⟨⟨[], rfl⟩, ⟨_, _, default, hs, by rfl, hlast⟩, rfl, by rw [hh]; exact Option.some_ne_none _⟩
      have hexact := download_exact haccept rfl hh (Or.inl (by decide))
        (show Arrives downloadResponse downloadResponse from ⟨_, rfl, by rfl⟩)
        (show Download.start downloadResponse = .ok downloadClient by rfl) hex hw
      exact ⟨s, w, hs, hw, hret, (hexact.1 hret).trans (Option.some.inj hdata)⟩

end Net
end NetworkingFinal
