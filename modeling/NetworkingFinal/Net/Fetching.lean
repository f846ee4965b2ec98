/-
  NetworkingFinal.Net.Fetching

  Whether a download can still end.

  In a round the worker requeues what was not acknowledged, sends the first segment, the
  client acknowledges it, and the worker takes it out of its windows: less is left in
  them, and what the client misses is always there (`DownloadInv`).  With `Goes.finish`
  it follows that `download_data` can still return whatever was lost
  (`download_can_end`), if a worker is free and, while the client only collects, the main
  loop heard from it last.  `download_stalls` says what happens when it did not.
-/
import NetworkingFinal.Net.Finish

namespace NetworkingFinal
namespace Net

open Py Ftp App Client Lib

variable {env : Env} {fs : FileTree}

-- ============================================================================
-- The worker that sends
-- ============================================================================

/-- The client misses segments, and hears the worker `t` of the download at position `i`,
    whose handler is `g`. -/
structure Serving (env : Env) (fs : FileTree) (J : Fetch) (x : Clocked) (i : Nat) (t : Task)
    (g : DownloadRequestHandler) : Prop extends Goes env fs J x where
  waits : x.pair.client.phase = .awaitFirst ∨ x.pair.client.phase = .collect
  missing : x.pair.client.neededSegments ≠ []
  address : x.pair.server.clientAddress = some J.address
  work : Working J.requestID x.pair.server i t
  found : x.pair.server.handlers.get? J.requestID = some (.download g)
  ready : g.ready = true

/-- The number of segments in the windows. -/
def load (g : DownloadRequestHandler) : Nat := g.windowToSend.length + g.windowSending.length

section Serving

variable {J : Fetch} {x : Clocked} {P : Clocked → Prop} {i : Nat} {t : Task}
  {g : DownloadRequestHandler}

theorem Serving.works (h : Serving env fs J x i t g) : Works J.size J.data t :=
  (h.inv.server h.missing).works t (List.mem_of_getElem? h.work.found) h.work.key

theorem Serving.offers (h : Serving env fs J x i t g) :
    Offers J.size J.data x.pair.client.neededSegments g := by
  obtain ⟨g', hg', hoffers⟩ := (h.inv.server h.missing).offers
  rw [h.found, Option.some_inj, Handler.download.injEq] at hg'
  exact hg' ▸ hoffers

theorem Serving.clientAddress (h : Serving env fs J x i t g) : g.clientAddress = J.address := by
  obtain ⟨g', heq, haddress⟩ := h.own _ h.found
  cases heq
  exact haddress

theorem Serving.found_key (h : Serving env fs J x i t g) :
    x.pair.server.handlers.get? t.key = some (.download g) := h.work.key ▸ h.found

/-- A step of the worker that keeps the handler `g'`. -/
theorem Serving.step (h : Serving env fs J x i t g) {t' : Task} {g' : DownloadRequestHandler}
    {u : Server} {clk : Readings} {now : Int}
    (hstep : taskStep env clk t x.pair.server = .ok t' u) (hclk : readFrom x.now clk = some now)
    (hkey : t'.key = t.key) (hlive : t'.live = true)
    (hfound : u.handlers.get? J.requestID = some (.download g'))
    (hsame : g'.toRequestHandler = g.toRequestHandler) (hready : g'.ready = true)
    (htasks : u.tasks = x.pair.server.tasks) (hrun : u.stopped = x.pair.server.stopped)
    (haddress : u.clientAddress = x.pair.server.clientAddress)
    (hlog : x.pair.server.app.log <+: u.app.log)
    (hrest : ∀ y, Serving env fs J y i t' g' → y.pair.client = x.pair.client → y.now = now →
      y.pair.server.app.log = u.app.log → Comes env J P y) : Comes env J P x := by
  have hown : DownloadFrom J.address J.requestID u := by
    intro f hf
    rw [hfound, Option.some_inj] at hf
    exact ⟨g', hf.symm, by rw [hsame, h.clientAddress]⟩
  exact h.toGoes.work h.work hstep hclk (hkey.trans h.work.key) htasks hrun hown hlog fun hy ht =>
    hrest _ ⟨hy, h.waits, h.missing, haddress.trans h.address, ⟨ht, hkey.trans h.work.key, hlive⟩,
      hfound, hready⟩ rfl rfl rfl

-- ============================================================================
-- One round
-- ============================================================================

/-- The worker comes to its queue. -/
theorem Serving.toRefresh (h : Serving env fs J x i t g)
    (hrest : ∀ y t', Serving env fs J y i t' g → t'.phase = .refresh →
      y.pair.client = x.pair.client → Comes env J P y) : Comes env J P x := by
  -- from the top of the loop
  have hhead : ∀ {z : Clocked} {t' : Task}, Serving env fs J z i t' g → t'.phase = .head →
      z.pair.client = x.pair.client → Comes env J P z := by
    intro z t' hz hphase hclient
    obtain ⟨now, hclk, hover⟩ := readFrom_past z.now (t'.last + t'.rtt)
    refine hz.step (taskStep_of_pause hphase hz.works.going hz.found_key hover.le) hclk
      rfl rfl hz.found rfl hz.ready rfl rfl rfl (List.prefix_refl _) fun y hy hsame _ _ =>
        hrest y _ hy rfl (hsame.trans hclient)
  cases hphase : t.phase with
  | start =>
      obtain ⟨es, hes⟩ := h.reach
      obtain ⟨res, layer, bs, hres, hlayer, -⟩ := (supplied_of_exec hes).announced _ g h.found
      exact h.step (taskStep_of_start hphase h.found_key hres hlayer) (readFrom_at _) rfl rfl
        h.found rfl h.ready rfl rfl rfl (List.prefix_refl _) fun y hy hsame _ _ =>
          hhead hy rfl hsame
  | head => exact hhead h hphase rfl
  | refresh => exact hrest x t h hphase rfl
  | closing => exact absurd hphase h.works.unended.1
  | leaving => exact absurd hphase h.works.unended.2
  | ended => exact absurd hphase h.work.unended.1
  | failed e => exact absurd hphase (h.work.unended.2 e)

/-- What an acknowledgement leaves. -/
theorem receivePocket_of_other (g : DownloadRequestHandler) (pockets : List Pocket) {p : Pocket}
    (hp : p.basicLayer.pocketType ≠ .downloadComplited) :
    (receivePocket { g with pockets } p).ready = g.ready ∧
      (receivePocket { g with pockets } p).pockets = pockets ∧
      load (receivePocket { g with pockets } p) ≤ load g := by
  rw [receivePocket, if_neg hp]
  cases p.akcLayer with
  | none => exact ⟨rfl, rfl, Nat.le_refl _⟩
  | some layer => exact ⟨rfl, rfl, Nat.add_le_add List.length_erase_le List.length_erase_le⟩

/-- The worker takes a pocket out of its queue. -/
theorem Serving.pop (h : Serving env fs J x i t g) (hphase : t.phase = .refresh) {p : Pocket}
    {pockets : List Pocket} (hqueue : g.pockets = p :: pockets)
    (hrest : ∀ y, Serving env fs J y i t (receivePocket { g with pockets } p) →
      y.pair.client = x.pair.client → Comes env J P y) : Comes env J P x := by
  have htype := (h.offers.receivePocket h.missing hqueue).2
  have htask : t.afterPocket p = t := if_neg htype
  have hfound : (x.pair.server.handlers.set t.key
      (.download (receivePocket { g with pockets } p))).get? J.requestID =
        some (.download (receivePocket { g with pockets } p)) := by
    rw [← h.work.key]
    exact Dict.get?_set_self _ _ _
  have hstep : taskStep env ⟨x.now, x.now, x.now⟩ t x.pair.server = _ :=
    taskStep_of_pocket hphase h.found_key hqueue
  rw [htask] at hstep
  exact h.step hstep (readFrom_at _) rfl h.work.live hfound (same_receivePocket g pockets p).base
    ((receivePocket_of_other g pockets htype).1.trans h.ready) rfl rfl rfl (List.prefix_refl _)
    fun y hy hclient _ _ => hrest y hy hclient

/-- The worker empties its queue. -/
theorem Serving.drain {pockets : List Pocket} (h : Serving env fs J x i t g)
    (hphase : t.phase = .refresh) (hqueue : g.pockets = pockets)
    (hrest : ∀ y g', Serving env fs J y i t g' → g'.pockets = [] → load g' ≤ load g →
      y.pair.client = x.pair.client → Comes env J P y) : Comes env J P x := by
  induction pockets generalizing x g with
  | nil => exact hrest x g h hqueue (Nat.le_refl _) rfl
  | cons p pockets ih =>
      have htype := (h.offers.receivePocket h.missing hqueue).2
      obtain ⟨-, hpockets, hload⟩ := receivePocket_of_other g pockets htype
      refine h.pop hphase hqueue fun y hy hclient => ih hy hpockets fun z g' hz hnil hless hsame =>
        hrest z g' hz hnil (hless.trans hload) (hsame.trans hclient)

/-- The round is over, and the next one begins with time and room to send. -/
theorem Serving.over (h : Serving env fs J x i t g) (hphase : t.phase = .refresh)
    (hqueue : g.pockets = [])
    (hrest : ∀ y t', Serving env fs J y i t' (requeue g) → t'.phase = .head →
      y.now < t'.last + t'.rtt → 0 < t'.cwnd → y.pair.client = x.pair.client →
        Comes env J P y) : Comes env J P x := by
  obtain ⟨now, hclk, hlate⟩ := readFrom_past x.now (max (t.last + t.rtt) t.last)
  have hover : t.last + t.rtt < now := Int.lt_of_le_of_lt (le_max_left _ _) hlate
  have hlast : t.last < now := Int.lt_of_le_of_lt (le_max_right _ _) hlate
  have hfound : (x.pair.server.handlers.set t.key (.download (requeue g))).get? J.requestID =
      some (.download (requeue g)) := by
    rw [← h.work.key]
    exact Dict.get?_set_self _ _ _
  have hroom : ∀ lost, 0 < (nextWindow env t lost).1 := by
    intro lost
    rw [nextWindow]
    split
    · exact Nat.lt_of_lt_of_le Nat.one_pos (le_max_right _ _)
    · exact Nat.lt_of_lt_of_le Nat.one_pos (le_max_right _ _)
  refine h.step (taskStep_of_over hphase h.found_key hqueue hover) hclk rfl rfl hfound rfl h.ready
    rfl rfl rfl (List.prefix_refl _) fun y hy hclient hnow _ =>
      hrest y _ hy rfl ?_ (hroom _) hclient
  rw [hnow]
  show now < now + (now - t.last)
  omega

/-- The first segment is sent to the client. -/
theorem Serving.send (h : Serving env fs J x i t g) (hphase : t.phase = .head) {k : Nat}
    {windowToSend : List Nat} (hwindow : g.windowToSend = k :: windowToSend)
    (htime : x.now < t.last + t.rtt) (hroom : g.windowSending.length < t.cwnd)
    (hrest : ∀ y piece bs, Serving env fs J y i t (g.shift k windowToSend) →
      (segmentPocket J.requestID k piece).toBytes = .ok bs →
      .sent (segmentPocket J.requestID k piece) J.address ∈
        y.pair.server.app.log.drop J.start.server.app.log.length →
      y.pair.client = x.pair.client → Comes env J P y) : Comes env J P x := by
  obtain ⟨es, hes⟩ := h.reach
  have hid : g.requestID = t.key :=
    ((serverInv_of_exec hes).tables.id _ _ h.found_key).1
  obtain ⟨bs, hbs⟩ := taskPocket_encodes hphase (List.mem_of_getElem? h.work.found) hid
    ((supplied_of_exec hes).announced _ g h.found_key)
    ((windows_of_exec hes).downloads _ g h.found_key) hwindow
  have hfound : (x.pair.server.handlers.set t.key (.download (g.shift k windowToSend))).get?
      J.requestID = some (.download (g.shift k windowToSend)) := by
    rw [← h.work.key]
    exact Dict.get?_set_self _ _ _
  have hpocket : ∃ piece, taskPocket g t k = segmentPocket J.requestID k piece :=
    ⟨_, by rw [taskPocket, hid, h.work.key]⟩
  obtain ⟨piece, hpiece⟩ := hpocket
  rw [hpiece] at hbs
  have hstep : taskStep env ⟨x.now, x.now, x.now⟩ t x.pair.server = _ :=
    taskStep_of_room hphase h.works.going h.found_key hwindow ⟨htime, hroom⟩ h.address
      (hpiece ▸ hbs)
  rw [hpiece] at hstep
  refine h.step hstep (readFrom_at _) rfl h.work.live hfound rfl h.ready rfl rfl rfl
    (List.prefix_append _ _) fun y hy hclient _ hlog => hrest y piece bs hy hbs ?_ hclient
  rw [hlog]
  show Action.sent (segmentPocket J.requestID k piece) J.address ∈
    (x.pair.server.app.log ++ _).drop _
  rw [List.drop_append_of_le_length h.log.length_le]
  exact List.mem_append_right _ (List.mem_singleton_self _)

/-- The segment arrives, and is the last one that was missing, or is acknowledged. -/
theorem Serving.deliver (h : Serving env fs J x i t g) {k : Nat} {piece bs : Bytes}
    (hbs : (segmentPocket J.requestID k piece).toBytes = .ok bs)
    (hsent : .sent (segmentPocket J.requestID k piece) J.address ∈
      x.pair.server.app.log.drop J.start.server.app.log.length)
    (hover : ∀ y, Goes env fs J y → y.pair.client.phase = .sendComplited → Comes env J P y)
    (hrest : ∀ y akc, Serving env fs J y i t g → (akcPocket J.requestID k).toBytes = .ok akc →
      akc ∈ y.pair.client.sent.drop J.start.client.sent.length → Comes env J P y) :
    Comes env J P x := by
  obtain ⟨akc, hakc⟩ := akcPocket_encodes_of_segment hbs
  have hanew : J.Anew x (.client (.receive (.datagram bs) ⟨0, 0, 0⟩)) :=
    ⟨⟨_, hsent, rfl, hbs⟩, fun _ _ _ => ⟨_, List.mem_of_mem_drop hsent, rfl, rfl, hbs⟩⟩
  have hown : (akcPocket x.pair.client.requestID k).toBytes = .ok akc := by
    rw [h.inv.client.requestID]
    exact hakc
  refine h.toGoes.client hanew (Download.step_segment h.waits h.missing hbs hown ⟨0, 0, 0⟩)
    (List.prefix_append _ _) fun hy => ?_
  by_cases hmissing : (x.pair.client.keep ⟨k, piece⟩).neededSegments = []
  · exact hover _ hy (if_pos hmissing)
  · refine hrest _ akc ⟨hy, Or.inr (if_neg hmissing), hmissing, h.address, h.work, h.found, h.ready⟩
      hakc ?_
    show akc ∈ (x.pair.client.sent ++ [akc]).drop _
    rw [List.drop_append_of_le_length h.sent.length_le]
    exact List.mem_append_right _ (List.mem_singleton_self akc)

/-- The ACK takes its segment out of the windows. -/
theorem Serving.acknowledge (h : Serving env fs J x i t g) {k : Nat} {akc : Bytes}
    (hakc : (akcPocket J.requestID k).toBytes = .ok akc)
    (hnew : akc ∈ x.pair.client.sent.drop J.start.client.sent.length) (hqueue : g.pockets = [])
    (hsending : k ∈ g.windowSending)
    (hrest : ∀ y t' g', Serving env fs J y i t' g' → load g' < load g → Comes env J P y) :
    Comes env J P x := by
  refine h.toGoes.hear (Pocket.fromBytes_akcPocket hakc) rfl PocketType.noConfusion hnew
    fun s hy haddress hheard => ?_
  obtain ⟨hfound, htasks⟩ := hheard.of_ready h.found h.ready
  have hz : Serving env fs J (x.withServer s x.now) i t
      { g with pockets := g.pockets ++ [akcPocket J.requestID k] } :=
    ⟨hy, h.waits, h.missing, haddress, ⟨htasks ▸ h.work.found, h.work.key, h.work.live⟩, hfound,
      h.ready⟩
  have hpockets : g.pockets ++ [akcPocket J.requestID k] = akcPocket J.requestID k :: [] := by
    rw [hqueue]
    rfl
  refine hz.toRefresh fun v t' hv hphase _ => hv.pop hphase hpockets fun w hw _ =>
    hrest w t' _ hw ?_
  have hless := List.length_erase_of_mem hsending
  have hpos := List.length_pos_of_mem hsending
  have hle := (List.erase_sublist (a := k) (l := g.windowToSend)).length_le
  show (g.windowToSend.erase k).length + (g.windowSending.erase k).length < load g
  rw [load]
  omega

/-- One round: the client misses no segment any more, or less is left in the windows. -/
theorem Serving.round (h : Serving env fs J x i t g)
    (hover : ∀ y, Goes env fs J y → y.pair.client.phase = .sendComplited → Comes env J P y)
    (hrest : ∀ y t' g', Serving env fs J y i t' g' → load g' < load g → Comes env J P y) :
    Comes env J P x := by
  refine h.toRefresh fun y₁ t₁ h₁ hphase₁ _ => ?_
  refine h₁.drain hphase₁ rfl fun y₂ g₂ h₂ hqueue hload _ => ?_
  refine h₂.over hphase₁ hqueue fun y₃ t₃ h₃ hphase₃ htime hroom _ => ?_
  -- what is missing is in the first window now
  obtain ⟨j, hj⟩ := List.exists_mem_of_ne_nil _ h₃.missing
  have hwindow : (requeue g₂).windowToSend ≠ [] := by
    rcases h₃.offers.window j hj with hmem | hmem
    · exact List.ne_nil_of_mem hmem
    · cases hmem
  obtain ⟨k, windowToSend, hwindow⟩ := List.exists_cons_of_ne_nil hwindow
  refine h₃.send hphase₃ hwindow htime hroom fun y₄ piece bs h₄ hbs hsent _ => ?_
  refine h₄.deliver hbs hsent hover fun y₅ akc h₅ hakc hnew => ?_
  refine h₅.acknowledge hakc hnew hqueue (List.mem_append_right _ (List.mem_singleton_self k))
    fun y₆ t₆ g₆ h₆ hless => hrest y₆ t₆ g₆ h₆ (Nat.lt_of_lt_of_le hless ?_)
  have hlength := congrArg List.length hwindow
  have hshift : load ((requeue g₂).shift k windowToSend) = windowToSend.length + 1 := rfl
  have hboth : (requeue g₂).windowToSend.length = load g₂ := by
    rw [load, Nat.add_comm]
    exact List.length_append
  rw [List.length_cons, hboth] at hlength
  rw [hshift, ← hlength]
  exact hload

/-- The client gets every segment. -/
theorem Serving.collect {n : Nat} (h : Serving env fs J x i t g) (hload : load g = n)
    (hover : ∀ y, Goes env fs J y → y.pair.client.phase = .sendComplited → Comes env J P y) :
    Comes env J P x := by
  induction n using Nat.strongRecOn generalizing x t g with
  | ind n ih => exact h.round hover fun y t' g' hy hless => ih _ (hload ▸ hless) hy rfl

end Serving

-- ============================================================================
-- The first segment
-- ============================================================================

section Goes

variable {J : Fetch} {x : Clocked} {P : Clocked → Prop} {bs : Bytes}

/-- A ready download whose client misses segments, and was heard last. -/
theorem Goes.serving (h : Goes env fs J x)
    (hwaits : x.pair.client.phase = .awaitFirst ∨ x.pair.client.phase = .collect)
    (hmissing : x.pair.client.neededSegments ≠ [])
    (haddress : x.pair.server.clientAddress = some J.address) {g : DownloadRequestHandler}
    (hfound : x.pair.server.handlers.get? J.requestID = some (.download g))
    (hready : g.ready = true)
    (hover : ∀ y, Goes env fs J y → y.pair.client.phase = .sendComplited → Comes env J P y) :
    Comes env J P x := by
  obtain ⟨i, t, hwork⟩ := h.working hfound hready
  have hx : Serving env fs J x i t g := ⟨h, hwaits, hmissing, haddress, hwork, hfound, hready⟩
  exact hx.collect rfl hover

theorem readyPocket_encodes {r : Nat} (hr : r < 2 ^ 64) :
    ∃ bs, (readyPocket r).toBytes = .ok bs := by
  obtain ⟨head, hhead, -⟩ := BasicLayer.measured (l := ⟨r, .readyForDownloading, .unknown⟩) hr
  obtain ⟨tail, htail⟩ : ∃ tail, (AKCLayer.toBytes ⟨0⟩) = .ok tail := ⟨_, rfl⟩
  exact ⟨head ++ tail, Pocket.toBytes_ok_iff.mpr ⟨head, tail, hhead, htail, rfl⟩⟩

/-- The client asks for the first segment. -/
theorem Goes.ask (h : Goes env fs J x) (hfits : J.requestID < 2 ^ 64)
    (hphase : x.pair.client.phase = .sendReady) (hmissing : x.pair.client.neededSegments ≠ [])
    (hover : ∀ y, Goes env fs J y → y.pair.client.phase = .sendComplited → Comes env J P y) :
    Comes env J P x := by
  obtain ⟨bs, hbs⟩ := readyPocket_encodes hfits
  have hready : (readyPocket x.pair.client.requestID).toBytes = .ok bs := by
    rw [h.inv.client.requestID]
    exact hbs
  obtain ⟨g, hg, -⟩ := (h.inv.server hmissing).offers
  refine h.client anew_proceed (Download.step_ready hphase hready 0) (List.prefix_append _ _)
    fun hy => ?_
  have hnew : bs ∈ (x.pair.client.sent ++ [bs]).drop J.start.client.sent.length := by
    rw [List.drop_append_of_le_length h.sent.length_le]
    exact List.mem_append_right _ (List.mem_singleton_self bs)
  refine hy.hear (Pocket.fromBytes_readyPocket hbs) rfl PocketType.noConfusion hnew
    fun s hz haddress hheard => ?_
  by_cases hready : g.ready = true
  · exact hz.serving (Or.inl rfl) hmissing haddress (hheard.of_ready hg hready).1 hready hover
  · exact hz.serving (Or.inl rfl) hmissing haddress (hheard.of_unready hg hready) rfl hover

end Goes

-- ============================================================================
-- Every state of a download
-- ============================================================================

/-- What a run of the download `r` from `a` keeps besides `DownloadInv`. -/
structure Begun (env : Env) (fs : FileTree) (a : Addr) (r : Nat) (w : Pair Download) : Prop where
  reach : ∃ es, exec (App.step env) (Server.init fs) es = some w.server
  drawn : r ≤ w.server.app.lastRequestID
  own : DownloadFrom a r w.server
  early : w.client.Early → w.client.neededSegments ≠ []
  collecting : w.client.phase = .collect → ∃ q b, .sent q b ∈ w.server.app.log ∧
    q.basicLayer.pocketType = .segment ∧ q.requestID = r

section Begun

variable {a : Addr} {r n size : Nat} {data : Bytes} {w w' : Pair Download}

/-- The process has reached the state in which the request is open. -/
theorem reach_of_accepts {request res : Pocket} {s₀ s : Server}
    (h : Accepts env fs request r res s₀ s) :
    ∃ es, exec (App.step env) (Server.init fs) es = some s := by
  obtain ⟨es, hes⟩ := h.reached
  obtain ⟨data, source, amb, hturn, -, -⟩ := h.turn
  exact ⟨es ++ [.recv data source amb], exec_concat_iff.mpr ⟨_, hes, hturn⟩⟩

/-- The client starts with a list that is not empty: the data has a first byte. -/
theorem begun_start {resPocket : Pocket} {s : Server} {g : DownloadRequestHandler} {d : Download}
    (hreach : ∃ es, exec (App.step env) (Server.init fs) es = some s)
    (hg : s.handlers.get? r = some (.download g)) (hstart : Download.start resPocket = .ok d)
    (hinit : DownloadInv r n size g.data ⟨s, d⟩) (hcover : g.data.length ≤ n * size) :
    Begun env fs g.clientAddress r ⟨s, d⟩ := by
  obtain ⟨es, hes⟩ := hreach
  refine ⟨⟨es, hes⟩, ((serverInv_of_exec hes).tables.id _ _ hg).2.2, fun f hf => ?_,
    fun _ => ?_, fun hc => ?_⟩
  · exact ⟨g, Option.some.inj (hf.symm.trans hg), rfl⟩
  · obtain ⟨hsound, hneeded, -⟩ := Download.start_eq hstart
    have hamount := hsound.amount.symm.trans hinit.client.amount
    have hpos : 0 < g.data.length :=
      List.length_pos_of_ne_nil ((windows_of_exec hes).downloads r g hg).nonempty
    rw [hneeded, hamount]
    intro hnil
    rw [List.range_eq_nil.mp hnil, Nat.zero_mul] at hcover
    exact absurd hpos (Nat.not_lt.mpr hcover)
  · rw [Download.start_phase hstart] at hc
    cases hc

theorem Begun.step (h : Begun env fs a r w) (hinv : DownloadInv r n size data w) {e : PairEvent}
    (hex : Exchanged r w e) (hstep : Pair.step env Download.step w e = some w') :
    Begun env fs a r w' := by
  obtain ⟨es, hes⟩ := h.reach
  cases e with
  | server e =>
      obtain ⟨s, hs, rfl⟩ := Pair.step_server hstep
      obtain ⟨new, hlog, -⟩ := openers_of_step hinv.app hs
      refine ⟨⟨es ++ [e], exec_concat_iff.mpr ⟨_, hes, hs⟩⟩,
        h.drawn.trans (step_grows hinv.app hs).last, h.own.step hinv.app hs h.drawn, h.early,
        fun hc => ?_⟩
      obtain ⟨q, b, hq, hrest⟩ := h.collecting hc
      exact ⟨q, b, hlog ▸ List.mem_append_left _ hq, hrest⟩
  | client m =>
      obtain ⟨d, hd, rfl⟩ := Pair.step_client hstep
      refine ⟨h.reach, h.drawn, h.own, fun hearly => ?_, fun hc => ?_⟩
      · obtain ⟨hbefore, hsame⟩ := Download.early_of_step hd hearly
        rw [hsame]
        exact h.early hbefore
      · cases Download.effect_of_step hinv.client.collect hd with
        | moved finishing collect passed => exact h.collecting (collect hc).1
        | asked bytes now move => cases hc
        | told phase bytes now move => cases hc
        | broke delivers isOpen type layer encodes => cases hc
        | took delivers isOpen missing type layer bytes =>
            obtain ⟨data, clk, rfl, hdecode⟩ := delivers
            obtain ⟨x, hx, hsent⟩ := hex _ (by rw [hdecode]; rfl) type
            cases x with
            | sent q b => exact ⟨q, b, hx, hsent.1, hsent.2.1⟩
            | postUpload k body => exact hsent.elim

/-- A client that has got a segment is served by a worker. -/
theorem Begun.ready (h : Begun env fs a r w) (hc : w.client.phase = .collect)
    {g : DownloadRequestHandler} (hfound : w.server.handlers.get? r = some (.download g)) :
    g.ready = true := by
  obtain ⟨es, hes⟩ := h.reach
  obtain ⟨q, b, hq, htype, rfl⟩ := h.collecting hc
  obtain ⟨t, hmem, hkey, -⟩ := served_of_exec hes hq htype
  have htables := (serverInv_of_exec hes).tables
  have hfound : w.server.tables.handlers.get? t.key = some (.download g) := hkey ▸ hfound
  have hunended : t.phase ≠ .ended := by
    intro hended
    have hnone := htables.done t hmem hended
    rw [hfound] at hnone
    cases hnone
  obtain ⟨f, hf, hbusy⟩ := htables.working t hmem hunended
  obtain ⟨g', rfl, hready⟩ := Handler.busy_iff.mp hbusy
  rw [hfound, Option.some_inj, Handler.download.injEq] at hf
  exact hf ▸ hready

end Begun

/-- **A download can still end**: while the main loop goes on and a worker is free, a
    client that is still in `download_data` gets what it misses and its Close, and returns
    the data, also when everything that is in flight is lost; while it collects segments
    only if the main loop heard from it last. -/
theorem download_can_end {request res resPocket : Pocket} {r : Nat} {s₀ s : Server}
    {layer : RequestLayer} {g : DownloadRequestHandler} {d : Download} {es : List PairEvent}
    {w : Pair Download} (now : Int) (haccept : Accepts env fs request r res s₀ s)
    (hlayer : request.requestLayer = some layer)
    (hg : s.handlers.get? r = some (.download g))
    (hsize : 1024 ≤ segmentSize env layer.maxSingleSegmentSize ∨
      g.data.length ≤ 2 ^ 54 * segmentSize env layer.maxSingleSegmentSize)
    (harrives : Arrives res resPocket) (hstart : Download.start resPocket = .ok d)
    (hex : AllSteps (Pair.step env Download.step) (Exchanged r) ⟨s, d⟩ es)
    (hrun : exec (Pair.step env Download.step) ⟨s, d⟩ es = some w)
    (hserver : w.server.stopped = none) (hfree : others r w.server.tasks < workers)
    (hgoing : w.client.phase ≠ .returned ∧ ∀ e, w.client.phase ≠ .failed e)
    (hheard : w.client.phase = .collect → w.server.clientAddress = some g.clientAddress) :
    CanReach (Clocked.step env) (Anew g.clientAddress r w)
      (fun x => x.pair.client.phase = .returned ∧ x.pair.client.result = g.data) ⟨w, now⟩ := by
  obtain ⟨hinit, hdata⟩ := downloadInv_start haccept hlayer hg harrives hstart
  have hlength : g.data.length < 2 ^ 64 := hdata
  have hcover : g.data.length ≤ segmentsAmountOf g.data.length
      (segmentSize env layer.maxSingleSegmentSize) *
        segmentSize env layer.maxSingleSegmentSize := by
    apply le_segmentsAmountOf_mul (segmentSize_pos env _)
    omega
  let J : Fetch :=
    { address := g.clientAddress, requestID := r, amount := _, size := _, data := g.data,
      start := w, cover := hcover }
  obtain ⟨es₀, hes₀⟩ := reach_of_accepts haccept
  have hfits : r < 2 ^ 64 := ((supplied_of_exec hes₀).announced r g hg).fits.1
  have hbegun₀ : Begun env fs g.clientAddress r ⟨s, d⟩ :=
    begun_start ⟨es₀, hes₀⟩ hg hstart hinit hcover
  obtain ⟨hinv, hbegun⟩ : DownloadInv r _ _ g.data w ∧ Begun env fs g.clientAddress r w :=
    exec_invariant_of (fun w => DownloadInv r _ _ g.data w ∧ Begun env fs g.clientAddress r w)
      (Exchanged r) ⟨hinit, hbegun₀⟩
      (fun _ _ _ hw hC ht => ⟨hw.1.step hC ht, hw.2.step hw.1 hC ht⟩) hex hrun
  have hx : Goes env fs J ⟨w, now⟩ :=
    ⟨hbegun.reach, hserver, hbegun.own, hfree, hinv, List.prefix_refl _, List.prefix_refl _⟩
  have hover : ∀ y, Goes env fs J y → y.pair.client.phase = .sendComplited →
      Comes env J (Finished J) y := fun y hy hphase => hy.finish hfits hphase
  cases hphase : w.client.phase with
  | sendReady => exact hx.ask hfits hphase (hbegun.early (Or.inl hphase)) hover
  | awaitFirst =>
      exact hx.client anew_timeout (Download.step_unanswered hphase ⟨0, 0, 0⟩)
        (List.prefix_refl _) fun hy => hy.ask hfits rfl (hbegun.early (Or.inr hphase)) hover
  | collect =>
      have hmissing := hinv.client.collect hphase
      obtain ⟨g', hg', -⟩ := (hinv.server hmissing).offers
      exact hx.serving (Or.inr hphase) hmissing (hheard hphase) hg' (hbegun.ready hphase hg') hover
  | sendComplited => exact hover _ hx hphase
  | awaitClose => exact hx.again hphase fun y hy hreports _ => hover y hy hreports
  | returned => exact absurd hphase hgoing.1
  | failed e => exact absurd hphase (hgoing.2 e)

/-- The Response to `downloadRequest` for a file of two segments. -/
def twoSegments : Pocket :=
  { basicLayer := ⟨1, .response, .download⟩, responseLayer := some ⟨true, [], 1501, 2, 1500⟩ }

/-- The client that got it. -/
def twoSegmentsClient : Download :=
  { requestID := 1, segmentsAmount := 2, neededSegments := [0, 1], segments := [[], []] }

/-- The first segment arrives. -/
def firstSegment : List PairEvent :=
  [.client (.proceed 0),
   .server (.recv (readyPocket 1).datagram (['c'], 8001) default),
   .server (.task 0 ⟨0, 0, 0⟩), .server (.task 0 ⟨0, 0, 0⟩),
   .client (.receive (.datagram (segmentPocket 1 0 (1 :: List.replicate 1499 0)).datagram)
     ⟨0, 0, 0⟩)]

theorem download_can_end_firstSegment :
    ∃ s w, App.step default (Server.init (installedWith default ['a'] (List.replicate 1500 0)))
        (.recv downloadRequest.datagram (['c'], 8001) default) = some s ∧
      exec (Pair.step default Download.step) ⟨s, twoSegmentsClient⟩ firstSegment = some w ∧
      w.client.phase = .collect ∧
      CanReach (Clocked.step default) (Anew (['c'], 8001) 1 w)
        (fun x => x.pair.client.phase = .returned ∧
          x.pair.client.result = 1 :: List.replicate 1500 0) ⟨w, 0⟩ := by
  have hcheck : (App.step default
      (Server.init (installedWith default ['a'] (List.replicate 1500 0)))
      (.recv downloadRequest.datagram (['c'], 8001) default)).map (fun s =>
        (s.app.log.getLast?,
          (s.handlers.get? 1).map fun h => decide (offered h = some (1 :: List.replicate 1500 0) ∧
            h.clientAddress = (['c'], 8001)),
          (exec (Pair.step default Download.step) ⟨s, twoSegmentsClient⟩ firstSegment).map fun w =>
            decide (w.client.phase = .collect ∧ w.server.stopped = none ∧
              others 1 w.server.tasks < workers ∧ w.server.clientAddress = some (['c'], 8001)),
          decide (AllSteps (Pair.step default Download.step) (Exchanged 1) ⟨s, twoSegmentsClient⟩
            firstSegment))) =
      some (some (.sent twoSegments (['c'], 8001)), some true, some true, true) := by
    decide +kernel
  obtain ⟨s, hs, hfacts⟩ := Option.map_eq_some_iff.mp hcheck
  simp only [Prod.mk.injEq, decide_eq_true_eq] at hfacts
  obtain ⟨hlast, hhandler, hreached, hex⟩ := hfacts
  obtain ⟨w, hw, hstate⟩ := Option.map_eq_some_iff.mp hreached
  obtain ⟨hphase, hserver, hfree, hsource⟩ := of_decide_eq_true hstate
  obtain ⟨h, hh, hfound⟩ := Option.map_eq_some_iff.mp hhandler
  obtain ⟨hdata, haddress⟩ := of_decide_eq_true hfound
  cases h with
  | upload h => cases hdata
  | download g =>
      have hg : g.data = 1 :: List.replicate 1500 0 := Option.some.inj hdata
      have hclient : g.clientAddress = (['c'], 8001) := haddress
      have haccept : Accepts default (installedWith default ['a'] (List.replicate 1500 0))
          downloadRequest 1 twoSegments
          (Server.init (installedWith default ['a'] (List.replicate 1500 0))) s :=
        ⟨⟨[], rfl⟩, ⟨_, _, default, hs, by rfl, hlast⟩, rfl,
          hh ▸ Option.some_ne_none _⟩
      have hgoing : w.client.phase ≠ .returned ∧ ∀ e, w.client.phase ≠ .failed e := by
        rw [hphase]
        exact ⟨DownloadPhase.noConfusion, fun e => DownloadPhase.noConfusion⟩
      have hends := download_can_end 0 haccept rfl hh (Or.inl (by decide))
        (show Arrives twoSegments twoSegments from ⟨_, rfl, by rfl⟩)
        (show Download.start twoSegments = .ok twoSegmentsClient by rfl) hex hw hserver
        hfree hgoing (fun _ => by rw [hsource, hclient])
      rw [hg, hclient] at hends
      exact ⟨s, w, hs, hw, hphase, hends⟩

end Net
end NetworkingFinal
