/-
  NetworkingFinal.Net.Finish

  How a download ends that is complete.

  A client that has every segment sends DownloadComplited until a Close arrives.  The
  main loop answers it with a Close when the download is over, and hands it to the
  worker, which sends the Close, when it is not.  So a Close that is lost is sent again
  (`Goes.finish`), as long as a worker is free.
-/
import NetworkingFinal.Net.Progress
import NetworkingFinal.Net.Stall

namespace NetworkingFinal
namespace Net

open Py Ftp App Client Lib

variable {env : Env} {fs : FileTree}

-- ============================================================================
-- The handler of the download
-- ============================================================================

/-- Under the id `r` there is no handler but that of a download from `a`. -/
def DownloadFrom (a : Addr) (r : Nat) (s : Server) : Prop :=
  ∀ h, s.handlers.get? r = some h → ∃ g, h = .download g ∧ g.clientAddress = a

section Handler

variable {a : Addr} {r : Nat} {s t : Server} {e : Event}

/-- A handler under an id that was drawn before was there before. -/
theorem handler_of_step (hs : AppInv s) (hstep : App.step env s e = some t)
    (hdrawn : r ≤ s.app.lastRequestID) {h : Handler} (hh : t.handlers.get? r = some h) :
    ∃ h₀, s.handlers.get? r = some h₀ := by
  cases h with
  | upload u =>
      obtain ⟨u₀, hu₀, -⟩ := (step_grows hs hstep).old r u hdrawn hh
      exact ⟨_, hu₀⟩
  | download g =>
      by_contra hnone
      have hkind : ∀ g₀, s.handlers.get? r ≠ some (.download g₀) := fun g₀ hg₀ =>
        hnone ⟨_, hg₀⟩
      exact not_download_of_step hs hstep hdrawn hkind g hh

/-- The id of a download from `a` stays one. -/
theorem DownloadFrom.step (h : DownloadFrom a r s) (hs : AppInv s)
    (hstep : App.step env s e = some t) (hdrawn : r ≤ s.app.lastRequestID) :
    DownloadFrom a r t := by
  intro f hf
  obtain ⟨f₀, hf₀⟩ := handler_of_step hs hstep hdrawn hf
  obtain ⟨hbase, hkind⟩ := hs.server.kept hstep r f₀ f hf₀ hf
  obtain ⟨g, rfl, haddress⟩ := h f₀ hf₀
  cases f with
  | upload u => cases hkind
  | download g' =>
      have hbase : g'.toRequestHandler = g.toRequestHandler := hbase
      exact ⟨g', rfl, by rw [hbase, haddress]⟩

theorem downloadFrom_set {k : Nat} {g : DownloadRequestHandler} (hk : k = r)
    (haddress : g.clientAddress = a) (ht : t.handlers = s.handlers.set k (.download g)) :
    DownloadFrom a r t := by
  intro f hf
  rw [ht, hk, Dict.get?_set_self, Option.some_inj] at hf
  exact ⟨g, hf.symm, haddress⟩

end Handler

-- ============================================================================
-- A free worker
-- ============================================================================

/-- The tasks of other requests that are not finished. -/
def others (r : Nat) (tasks : List Task) : Nat :=
  tasks.countP fun t => t.live && decide (t.key ≠ r)

section Tasks

variable {r i : Nat} {tasks : List Task} {t t' : Task}

theorem others_set (ht : tasks[i]? = some t) (hkey : t.key = r) (hkey' : t'.key = r) :
    others r (tasks.set i t') = others r tasks := by
  obtain ⟨hi, hget⟩ := List.getElem?_eq_some_iff.mp ht
  rw [others, others, List.countP_set hi, hget]
  simp [hkey, hkey']

theorem others_append (hkey : t.key = r) : others r (tasks ++ [t]) = others r tasks := by
  rw [others, others, List.countP_append]
  simp [hkey]

/-- With a free worker, the turn of the download's task has come. -/
theorem running_of_others {s : Server} (honce : (s.tasks.map Task.key).Nodup)
    (ht : s.tasks[i]? = some t) (hlive : t.live = true) (hfree : others t.key s.tasks < workers) :
    App.running s i = true := by
  have hbefore : ∀ u ∈ s.tasks.take i, u.key ≠ t.key := by
    intro u hu hkey
    obtain ⟨j, hj, hget⟩ := List.mem_take_iff_getElem.mp hu
    have hji : j < i := (Nat.lt_min.mp hj).1
    have hlen : j < (s.tasks.map Task.key).length := by
      rw [List.length_map]
      exact (Nat.lt_min.mp hj).2
    obtain ⟨hi, hgeti⟩ := List.getElem?_eq_some_iff.mp ht
    have hleni : i < (s.tasks.map Task.key).length := by
      rw [List.length_map]
      exact hi
    have hsame : (s.tasks.map Task.key)[j] = (s.tasks.map Task.key)[i] := by
      rw [List.getElem_map, List.getElem_map, hget, hgeti, hkey]
    exact absurd ((List.Nodup.getElem_inj_iff honce).mp hsame) hji.ne
  have hcount : ((s.tasks.take i).filter Task.live).length ≤ others t.key s.tasks := by
    have hsame : (s.tasks.take i).countP Task.live = others t.key (s.tasks.take i) := by
      refine List.countP_congr fun u hu => ?_
      simp [hbefore u hu]
    rw [← List.countP_eq_length_filter, hsame]
    exact (List.take_sublist i s.tasks).countP_le
  rw [App.running, ht]
  simp only [hlive, Bool.true_and, decide_eq_true_eq]
  exact Nat.lt_of_le_of_lt hcount hfree

end Tasks

-- ============================================================================
-- Steps of the pair
-- ============================================================================

/-- The pair and the time at the server. -/
structure Clocked where
  pair : Pair Download
  now : Int

namespace Clocked

/-- The server's clock after an event: a worker reads it. -/
def tick (now : Int) : PairEvent → Option Int
  | .server (.task _ clk) => readFrom now clk
  | _ => some now

/-- A step of the pair that the server's clock allows. -/
def step (env : Env) (x : Clocked) (e : PairEvent) : Option Clocked :=
  (Pair.step env Download.step x.pair e).bind fun pair =>
    (tick x.now e).map fun now => { pair, now }

theorem step_of {x : Clocked} {e : PairEvent} {w : Pair Download} {now : Int}
    (hw : Pair.step env Download.step x.pair e = some w) (hnow : tick x.now e = some now) :
    step env x e = some ⟨w, now⟩ := by
  rw [step, hw, Option.bind_some, hnow, Option.map_some]

def withClient (x : Clocked) (d : Download) : Clocked := ⟨⟨x.pair.server, d⟩, x.now⟩

def withServer (x : Clocked) (s : Server) (now : Int) : Clocked := ⟨⟨s, x.pair.client⟩, now⟩

end Clocked

/-- A download that is followed: the address of its client, its request id, its segments
    and data, and the state from which on it is followed. -/
structure Fetch where
  address : Addr
  requestID : Nat
  amount : Nat
  size : Nat
  data : Bytes
  start : Pair Download
  cover : data.length ≤ amount * size

/-- Only what is sent after `w₀` arrives, between the client at `a` and the server, and what
    reaches the server for the download `r` is the client's. -/
def Anew (a : Addr) (r : Nat) (w₀ : Pair Download) (x : Clocked) (e : PairEvent) : Prop :=
  Parted a w₀ x.pair e ∧ Exchanged r x.pair e

abbrev Fetch.Anew (J : Fetch) : Clocked → PairEvent → Prop :=
  Net.Anew J.address J.requestID J.start

/-- What a state of the pair leads to. -/
abbrev Comes (env : Env) (J : Fetch) (P : Clocked → Prop) (x : Clocked) : Prop :=
  CanReach (Clocked.step env) J.Anew P x

/-- `download_data` has returned the data. -/
def Finished (J : Fetch) (x : Clocked) : Prop :=
  x.pair.client.phase = .returned ∧ x.pair.client.result = J.data

/-- The download goes on, and a worker is free for it. -/
structure Goes (env : Env) (fs : FileTree) (J : Fetch) (x : Clocked) : Prop where
  reach : ∃ es, exec (App.step env) (Server.init fs) es = some x.pair.server
  running : x.pair.server.stopped = none
  own : DownloadFrom J.address J.requestID x.pair.server
  free : others J.requestID x.pair.server.tasks < workers
  inv : DownloadInv J.requestID J.amount J.size J.data x.pair
  sent : J.start.client.sent <+: x.pair.client.sent
  log : J.start.server.app.log <+: x.pair.server.app.log

section Goes

variable {J : Fetch} {x : Clocked} {P : Clocked → Prop} {bs : Bytes}

theorem anew_timeout {clk : Readings} : J.Anew x (.client (.receive .timeout clk)) :=
  ⟨trivial, trivial⟩

theorem anew_proceed {now : Int} : J.Anew x (.client (.proceed now)) :=
  ⟨trivial, trivial⟩

theorem anew_task {i : Nat} {clk : Readings} : J.Anew x (.server (.task i clk)) :=
  ⟨trivial, trivial⟩

/-- A move of the client. -/
theorem Goes.client (h : Goes env fs J x) {m : Move} {d : Download} (hanew : J.Anew x (.client m))
    (hmove : x.pair.client.step m = some d) (hsent : x.pair.client.sent <+: d.sent)
    (hrest : Goes env fs J (x.withClient d) → Comes env J P (x.withClient d)) :
    Comes env J P x := by
  have hpair : Pair.step env Download.step x.pair (.client m) = some (x.withClient d).pair := by
    rw [Pair.step, hmove]
    rfl
  refine canReach_step hanew (Clocked.step_of hpair rfl) (hrest ?_)
  exact ⟨h.reach, h.running, h.own, h.free, h.inv.step hanew.2 hpair, h.sent.trans hsent, h.log⟩

/-- A step of the process. -/
theorem Goes.server (h : Goes env fs J x) {e : Event} {t : Server} {now : Int}
    (hanew : J.Anew x (.server e)) (hstep : App.step env x.pair.server e = some t)
    (hnow : Clocked.tick x.now (.server e) = some now) (hrun : t.stopped = none)
    (hown : DownloadFrom J.address J.requestID t) (hfree : others J.requestID t.tasks < workers)
    (hlog : x.pair.server.app.log <+: t.app.log)
    (hrest : Goes env fs J (x.withServer t now) → Comes env J P (x.withServer t now)) :
    Comes env J P x := by
  have hpair : Pair.step env Download.step x.pair (.server e) =
      some (x.withServer t now).pair := by
    rw [Pair.step, hstep]
    rfl
  obtain ⟨es, hes⟩ := h.reach
  refine canReach_step hanew (Clocked.step_of hpair hnow) (hrest ?_)
  exact ⟨⟨es ++ [e], exec_concat_iff.mpr ⟨_, hes, hstep⟩⟩, hrun, hown, hfree,
    h.inv.step hanew.2 hpair, h.sent, h.log.trans hlog⟩

/-- What the main loop keeps that hears a pocket for the download. -/
theorem Goes.heard (h : Goes env fs J x) {t : Server} {p : Pocket}
    (hid : p.requestID = J.requestID) (hheard : Heard x.pair.server t p J.address) :
    DownloadFrom J.address J.requestID t ∧ others J.requestID t.tasks < workers ∧
      x.pair.server.app.log <+: t.app.log := by
  cases hheard with
  | closed gone tables log =>
      have hhandlers : t.handlers = x.pair.server.handlers := congrArg Tables.handlers tables
      have htasks : t.tasks = x.pair.server.tasks := congrArg Tables.tasks tables
      exact ⟨fun f hf => h.own f (hhandlers ▸ hf), htasks ▸ h.free, log ▸ List.prefix_append _ _⟩
  | started found unready handlers tasks log =>
      obtain ⟨g, heq, haddress⟩ := h.own _ (hid ▸ found)
      cases heq
      refine ⟨downloadFrom_set hid (by exact haddress) handlers, ?_, log ▸ List.prefix_append _ _⟩
      rw [tasks, others_append (t := { key := p.requestID }) hid]
      exact h.free
  | queued found ready handlers tasks log =>
      obtain ⟨g, heq, haddress⟩ := h.own _ (hid ▸ found)
      cases heq
      exact ⟨downloadFrom_set hid (by exact haddress) handlers, tasks ▸ h.free,
        log ▸ List.prefix_append _ _⟩

/-- The client's pocket reaches the main loop. -/
theorem Goes.hear (h : Goes env fs J x) {p : Pocket} (hp : Pocket.fromBytes bs = .ok p)
    (hid : p.requestID = J.requestID) (hother : p.basicLayer.pocketType ≠ .request)
    (hnew : bs ∈ x.pair.client.sent.drop J.start.client.sent.length)
    (hrest : ∀ t, Goes env fs J (x.withServer t x.now) → t.clientAddress = some J.address →
      Heard x.pair.server t p J.address → Comes env J P (x.withServer t x.now)) :
    Comes env J P x := by
  obtain ⟨es, hes⟩ := h.reach
  have hkind : ∀ u, x.pair.server.handlers.get? p.requestID ≠ some (.upload u) := by
    intro u hu
    obtain ⟨g, heq, -⟩ := h.own _ (hid ▸ hu)
    cases heq
  obtain ⟨t, ht, hrun, haddress, hheard⟩ : ∃ t,
      App.step env x.pair.server (.recv bs J.address default) = some t ∧ t.stopped = none ∧
        t.clientAddress = some J.address ∧ Heard x.pair.server t p J.address :=
    heard_of_pocket (serverInv_of_exec hes).tables (responsesEncode_of_exec hes) hp h.running hother
      hkind
  obtain ⟨hown, hfree, hlog⟩ := h.heard hid hheard
  have hanew : J.Anew x (.server (.recv bs J.address default)) :=
    ⟨fun _ => hnew, fun _ _ _ _ => List.mem_of_mem_drop hnew⟩
  exact h.server hanew ht rfl hrun hown hfree hlog fun hy => hrest t hy haddress hheard

/-- The task of the download, which is not finished. -/
structure Working (r : Nat) (s : Server) (i : Nat) (t : Task) : Prop where
  found : s.tasks[i]? = some t
  key : t.key = r
  live : t.live = true

theorem Working.unended {r i : Nat} {s : Server} {t : Task} (h : Working r s i t) :
    t.phase ≠ .ended ∧ ∀ e, t.phase ≠ .failed e := by
  have hlive := h.live
  unfold Task.live at hlive
  split at hlive
  · cases hlive
  · cases hlive
  · next hended hfailed => exact ⟨hended, hfailed⟩

/-- A step of the worker. -/
theorem Goes.work (h : Goes env fs J x) {i : Nat} {t t' : Task}
    (hwork : Working J.requestID x.pair.server i t) {clk : Readings} {now : Int} {u : Server}
    (hstep : taskStep env clk t x.pair.server = .ok t' u) (hclk : readFrom x.now clk = some now)
    (hkey : t'.key = J.requestID) (htasks : u.tasks = x.pair.server.tasks)
    (hrun : u.stopped = x.pair.server.stopped) (hown : DownloadFrom J.address J.requestID u)
    (hlog : x.pair.server.app.log <+: u.app.log)
    (hrest : Goes env fs J (x.withServer { u with tasks := u.tasks.set i t' } now) →
      (u.tasks.set i t')[i]? = some t' →
      Comes env J P (x.withServer { u with tasks := u.tasks.set i t' } now)) :
    Comes env J P x := by
  obtain ⟨es, hes⟩ := h.reach
  have hrunning : App.running x.pair.server i = true :=
    running_of_others (serverInv_of_exec hes).tables.once hwork.found hwork.live
      (hwork.key ▸ h.free)
  have hserver : App.step env x.pair.server (.task i clk) =
      some { u with tasks := u.tasks.set i t' } := by
    rw [App.step, hwork.found]
    dsimp only
    rw [if_pos hrunning, hstep]
    rfl
  have hfree : others J.requestID (u.tasks.set i t') < workers := by
    rw [htasks, others_set hwork.found hwork.key hkey]
    exact h.free
  refine h.server anew_task hserver hclk (hrun.trans h.running) hown hfree hlog fun hy =>
    hrest hy ?_
  rw [htasks, List.getElem?_set_self (List.getElem?_eq_some_iff.mp hwork.found).1]

/-- A download that is ready has a worker. -/
theorem Goes.working (h : Goes env fs J x) {g : DownloadRequestHandler}
    (hfound : x.pair.server.handlers.get? J.requestID = some (.download g))
    (hready : g.ready = true) : ∃ i t, Working J.requestID x.pair.server i t := by
  obtain ⟨es, hes⟩ := h.reach
  obtain ⟨t, hmem, hkey⟩ := List.mem_map.mp (tasked_of_exec hes _ g hfound hready)
  obtain ⟨i, hi⟩ := List.getElem?_of_mem hmem
  refine ⟨i, t, hi, hkey, ?_⟩
  unfold Task.live
  split
  · next hended =>
      have hnone := (serverInv_of_exec hes).tables.done t hmem hended
      have hfound : x.pair.server.tables.handlers.get? J.requestID = some (.download g) := hfound
      rw [hkey, hfound] at hnone
      cases hnone
  · next e hfailed => exact absurd hfailed (not_failed_of_exec hes t hmem e)
  · rfl

-- ============================================================================
-- The worker that knows
-- ============================================================================

/-- The worker knows, or will read in its queue, that the download is complete. -/
def Informed (t : Task) (g : DownloadRequestHandler) : Prop :=
  t.downloading = false ∨ ∃ p ∈ g.pockets, p.basicLayer.pocketType = .downloadComplited

/-- How far the worker is from sending the Close. -/
def stepsLeft (t : Task) (g : DownloadRequestHandler) : Nat :=
  match t.phase with
  | .start => g.pockets.length + 6
  | .head => if t.downloading then g.pockets.length + 5 else 2
  | .refresh => if t.downloading then g.pockets.length + 4 else g.pockets.length + 3
  | .closing => 1
  | _ => 0

/-- A pocket that is taken out of the queue: the worker is still informed, and closer to
    its end. -/
theorem Informed.received {t : Task} {g : DownloadRequestHandler} {p : Pocket}
    {pockets : List Pocket} (h : Informed t g) (hphase : t.phase = .refresh)
    (hqueue : g.pockets = p :: pockets) :
    Informed (t.afterPocket p) (receivePocket { g with pockets } p) ∧
      stepsLeft (t.afterPocket p) (receivePocket { g with pockets } p) < stepsLeft t g := by
  by_cases hp : p.basicLayer.pocketType = .downloadComplited
  · have htask : t.afterPocket p = { t with downloading := false } := if_pos hp
    have hqueued : (receivePocket { g with pockets } p).pockets = [] := by
      rw [receivePocket, if_pos hp]
    refine ⟨Or.inl (by rw [htask]), ?_⟩
    rw [htask, stepsLeft, stepsLeft, hqueued, hqueue]
    simp only [hphase, List.length_nil, List.length_cons]
    rw [if_neg Bool.false_ne_true]
    split <;> omega
  · have htask : t.afterPocket p = t := if_neg hp
    have hqueued : (receivePocket { g with pockets } p).pockets = pockets := by
      rw [receivePocket, if_neg hp]
      split <;> rfl
    rw [htask]
    refine ⟨h.imp_right ?_, ?_⟩
    · rintro ⟨q, hq, hcomplited⟩
      rw [hqueue] at hq
      rcases List.mem_cons.mp hq with rfl | hq
      · exact absurd hcomplited hp
      · exact ⟨q, hqueued.symm ▸ hq, hcomplited⟩
    · rw [stepsLeft, stepsLeft, hqueued, hqueue]
      simp only [hphase, List.length_cons]
      split <;> omega

/-- The Close that arrives ends the download. -/
theorem Goes.close (h : Goes env fs J x) (hphase : x.pair.client.phase = .awaitClose)
    (hsent : .sent closePocket J.address ∈
      x.pair.server.app.log.drop J.start.server.app.log.length) :
    Comes env J (Finished J) x := by
  have hanew : J.Anew x (.client (.receive (.datagram closePocket.datagram) ⟨0, 0, 0⟩)) := by
    refine ⟨⟨_, hsent, rfl, closePocket_encodes⟩, fun p hp hsegment => ?_⟩
    obtain rfl : closePocket = p := Option.some.inj hp
    cases hsegment
  refine h.client hanew (Download.step_close hphase ⟨0, 0, 0⟩) (List.prefix_refl _) fun hy =>
    canReach_here ⟨rfl, ?_⟩
  exact hy.inv.client.result_eq (hy.inv.client.finishing trivial) J.cover

/-- The clock can be read past a limit. -/
theorem readFrom_past (now limit : Int) :
    ∃ late, readFrom now ⟨late, late, late⟩ = some late ∧ limit < late :=
  ⟨max now (limit + 1), if_pos ⟨le_max_left _ _, Int.le_refl _, Int.le_refl _⟩,
    Int.lt_of_add_one_le (le_max_right _ _)⟩

/-- The client awaits its Close, and the worker `t` of its download at position `i`, whose
    handler is `g`, is informed. -/
structure Ending (env : Env) (fs : FileTree) (J : Fetch) (x : Clocked) (i : Nat) (t : Task)
    (g : DownloadRequestHandler) : Prop extends Goes env fs J x where
  waits : x.pair.client.phase = .awaitClose
  work : Working J.requestID x.pair.server i t
  stays : t.phase ≠ .leaving
  found : x.pair.server.handlers.get? J.requestID = some (.download g)
  informed : Informed t g

section Ending

variable {i : Nat} {t : Task} {g : DownloadRequestHandler}

theorem Ending.found_key (h : Ending env fs J x i t g) :
    x.pair.server.handlers.get? t.key = some (.download g) := h.work.key ▸ h.found

theorem Ending.address (h : Ending env fs J x i t g) : g.clientAddress = J.address := by
  obtain ⟨g', heq, haddress⟩ := h.own _ h.found
  cases heq
  exact haddress

/-- A step of the worker after which it has the same handler in a later phase. -/
theorem Ending.pass (h : Ending env fs J x i t g) {t' : Task} {clk : Readings} {now : Int}
    (hstep : taskStep env clk t x.pair.server = .ok t' x.pair.server)
    (hclk : readFrom x.now clk = some now) (hkey : t'.key = t.key) (hlive : t'.live = true)
    (hstays : t'.phase ≠ .leaving) (hinformed : Informed t' g)
    (hrest : ∀ y, Ending env fs J y i t' g → Comes env J P y) : Comes env J P x :=
  h.toGoes.work h.work hstep hclk (hkey.trans h.work.key) rfl rfl h.own (List.prefix_refl _)
    fun hy ht => hrest _ ⟨hy, h.waits, ⟨ht, hkey.trans h.work.key, hlive⟩, hstays, h.found,
      hinformed⟩

/-- The wait for pockets: one is taken out of the queue, or the round is over. -/
theorem Ending.refresh (h : Ending env fs J x i t g) (hphase : t.phase = .refresh)
    (hrest : ∀ y t' g', Ending env fs J y i t' g' → stepsLeft t' g' < stepsLeft t g →
      Comes env J P y) : Comes env J P x := by
  obtain ⟨now, hclk, hover⟩ := readFrom_past x.now (t.last + t.rtt)
  cases hqueue : g.pockets with
  | cons p pockets =>
      have hsame := (same_receivePocket g pockets p).base
      have hg' : (receivePocket { g with pockets } p).clientAddress = J.address :=
        (congrArg RequestHandler.clientAddress hsame).trans h.address
      obtain ⟨hstill, hless⟩ := h.informed.received hphase hqueue
      obtain ⟨hkey, hphase'⟩ := afterPocket_same t p
      have hkey' : (t.afterPocket p).key = J.requestID := hkey.trans h.work.key
      refine h.toGoes.work h.work (taskStep_of_pocket hphase h.found_key hqueue) hclk hkey' rfl rfl
        (downloadFrom_set h.work.key hg' rfl) (List.prefix_refl _) fun hy ht =>
          hrest _ _ _ ⟨hy, h.waits, ⟨ht, hkey', ?_⟩, ?_, ?_, hstill⟩ hless
      · rw [Task.live, hphase', hphase]
      · rw [hphase', hphase]
        exact TaskPhase.noConfusion
      · rw [← h.work.key]
        exact Dict.get?_set_self _ _ _
  | nil =>
      have hdownloading : t.downloading = false := by
        rcases h.informed with hended | ⟨p, hp, -⟩
        · exact hended
        · rw [hqueue] at hp
          cases hp
      refine h.toGoes.work h.work (taskStep_of_over hphase h.found_key hqueue hover) hclk h.work.key
        rfl rfl (downloadFrom_set (g := requeue g) h.work.key h.address rfl) (List.prefix_refl _)
        fun hy ht => hrest _ _ (requeue g) ⟨hy, h.waits, ⟨ht, h.work.key, rfl⟩,
          TaskPhase.noConfusion, ?_, Or.inl hdownloading⟩ ?_
      · rw [← h.work.key]
        exact Dict.get?_set_self _ _ _
      · rw [stepsLeft, stepsLeft, hphase]
        simp [hdownloading]

/-- The Close. -/
theorem Ending.close (h : Ending env fs J x i t g) (hphase : t.phase = .closing) :
    Comes env J (Finished J) x := by
  obtain ⟨now, hclk, -⟩ := readFrom_past x.now 0
  refine h.toGoes.work h.work (taskStep_of_closing hphase h.found_key) hclk h.work.key rfl rfl h.own
    (List.prefix_append _ _) fun hy _ => hy.close h.waits ?_
  show Action.sent closePocket J.address ∈
    (x.pair.server.app.log ++ [Action.sent closePocket g.clientAddress]).drop _
  rw [List.drop_append_of_le_length h.log.length_le, h.address]
  exact List.mem_append_right _ (List.mem_singleton_self _)

/-- A worker that is informed sends the Close. -/
theorem Ending.serve {n : Nat} (h : Ending env fs J x i t g) (hleft : stepsLeft t g = n) :
    Comes env J (Finished J) x := by
  induction n using Nat.strongRecOn generalizing x t g with
  | ind n ih =>
      obtain ⟨now, hclk, hover⟩ := readFrom_past x.now (t.last + t.rtt)
      cases hphase : t.phase with
      | start =>
          obtain ⟨es, hes⟩ := h.reach
          obtain ⟨res, layer, bs, hres, hlayer, -⟩ :=
            (supplied_of_exec hes).announced _ g h.found
          refine h.pass (taskStep_of_start hphase h.found_key hres hlayer) hclk rfl rfl
            TaskPhase.noConfusion h.informed fun y hy => ih _ ?_ hy rfl
          rw [← hleft, stepsLeft, stepsLeft, hphase]
          dsimp only
          split <;> omega
      | head =>
          cases hdownloading : t.downloading with
          | false =>
              refine h.pass (taskStep_of_finished hphase hdownloading) hclk rfl rfl
                TaskPhase.noConfusion h.informed fun y hy => ih _ ?_ hy rfl
              rw [← hleft, stepsLeft, stepsLeft, hphase]
              simp [hdownloading]
          | true =>
              refine h.pass (taskStep_of_pause hphase hdownloading h.found_key hover.le) hclk rfl
                rfl TaskPhase.noConfusion h.informed fun y hy => ih _ ?_ hy rfl
              rw [← hleft, stepsLeft, stepsLeft, hphase]
              simp [hdownloading]
      | refresh =>
          exact h.refresh hphase fun y t' g' hy hless => ih _ (hleft ▸ hless) hy rfl
      | closing => exact h.close hphase
      | leaving => exact absurd hphase h.stays
      | ended => exact absurd hphase h.work.unended.1
      | failed e => exact absurd hphase (h.work.unended.2 e)

end Ending

-- ============================================================================
-- DownloadComplited, again and again
-- ============================================================================

theorem complitedPocket_encodes {r : Nat} (hr : r < 2 ^ 64) :
    ∃ bs, (complitedPocket r).toBytes = .ok bs := by
  obtain ⟨head, hhead, -⟩ := BasicLayer.measured (l := ⟨r, .downloadComplited, .unknown⟩) hr
  exact ⟨head ++ [], Pocket.toBytes_ok_iff.mpr ⟨head, [], hhead, rfl, rfl⟩⟩

/-- The client reports to the main loop that it has every segment. -/
theorem Goes.report (h : Goes env fs J x) (hbs : (complitedPocket J.requestID).toBytes = .ok bs)
    (hphase : x.pair.client.phase = .sendComplited)
    (hrest : ∀ y, Goes env fs J y → y.pair.client.phase = .awaitClose →
      Heard x.pair.server y.pair.server (complitedPocket J.requestID) J.address →
        Comes env J P y) : Comes env J P x := by
  have hcomplited : (complitedPocket x.pair.client.requestID).toBytes = .ok bs := by
    rw [h.inv.client.requestID]
    exact hbs
  refine h.client anew_proceed (Download.step_complited hphase hcomplited 0)
    (List.prefix_append _ _) fun hy => ?_
  refine hy.hear (Pocket.fromBytes_complitedPocket hbs) rfl PocketType.noConfusion ?_
    fun t hz _ hheard => hrest _ hz rfl hheard
  show bs ∈ (x.pair.client.sent ++ [bs]).drop _
  rw [List.drop_append_of_le_length h.sent.length_le]
  exact List.mem_append_right _ (List.mem_singleton_self bs)

/-- With no handler the main loop answers the DownloadComplited itself. -/
theorem Goes.gone (h : Goes env fs J x) (hbs : (complitedPocket J.requestID).toBytes = .ok bs)
    (hphase : x.pair.client.phase = .sendComplited)
    (hnone : x.pair.server.handlers.get? J.requestID = none) : Comes env J (Finished J) x := by
  refine h.report hbs hphase fun y hy hwaits hheard => hy.close hwaits ?_
  obtain ⟨pre, hlog⟩ := hheard.of_none hnone
  rw [hlog, List.drop_append_of_le_length h.log.length_le]
  exact List.mem_append_right _ (List.mem_append_right _ (List.mem_singleton_self _))

/-- The wait for the Close is over. -/
theorem Goes.again (h : Goes env fs J x) (hphase : x.pair.client.phase = .awaitClose)
    (hrest : ∀ y, Goes env fs J y → y.pair.client.phase = .sendComplited →
      y.pair.server = x.pair.server → Comes env J P y) : Comes env J P x :=
  h.client anew_timeout (Download.step_again hphase ⟨0, 0, 0⟩) (List.prefix_refl _) fun hy =>
    hrest _ hy rfl rfl

/-- A download that its worker leaves. -/
theorem Goes.leave (h : Goes env fs J x) (hbs : (complitedPocket J.requestID).toBytes = .ok bs)
    (hclient : x.pair.client.phase = .awaitClose) {i : Nat} {t : Task}
    {g : DownloadRequestHandler} (hwork : Working J.requestID x.pair.server i t)
    (hphase : t.phase = .leaving)
    (hfound : x.pair.server.handlers.get? J.requestID = some (.download g)) :
    Comes env J (Finished J) x := by
  obtain ⟨es, hes⟩ := h.reach
  have hid : g.requestID = t.key :=
    ((serverInv_of_exec hes).tables.id _ _ hfound).1.trans hwork.key.symm
  have hnone : (x.pair.server.handlers.erase t.key).get? J.requestID = none := by
    rw [Dict.get?_erase, if_pos hwork.key.symm]
  have hown : DownloadFrom J.address J.requestID
      { x.pair.server with handlers := x.pair.server.handlers.erase t.key } := by
    intro f hf
    rw [show _ = some f from hf] at hnone
    cases hnone
  refine h.work hwork (taskStep_of_leaving hphase (hwork.key ▸ hfound) hid) (readFrom_at _)
    hwork.key rfl rfl hown (List.prefix_refl _) fun hy _ => hy.again hclient
      fun z hz hreports hsame => hz.gone hbs hreports ?_
  rw [hsame]
  exact hnone

/-- A download that is ready. -/
theorem Goes.ready (h : Goes env fs J x) (hbs : (complitedPocket J.requestID).toBytes = .ok bs)
    (hphase : x.pair.client.phase = .sendComplited) {g : DownloadRequestHandler}
    (hfound : x.pair.server.handlers.get? J.requestID = some (.download g))
    (hready : g.ready = true) : Comes env J (Finished J) x := by
  refine h.report hbs hphase fun y hy hwaits hheard => ?_
  have hqueued := (hheard.of_ready hfound hready).1
  obtain ⟨i, t, hwork⟩ := hy.working hqueued hready
  have hinformed : Informed t
      { g with pockets := g.pockets ++ [complitedPocket J.requestID] } :=
    Or.inr ⟨_, List.mem_append_right _ (List.mem_singleton_self _), rfl⟩
  by_cases hleaving : t.phase = .leaving
  · exact hy.leave hbs hwaits hwork hleaving hqueued
  · exact Ending.serve ⟨hy, hwaits, hwork, hleaving, hqueued, hinformed⟩ rfl

/-- A client that has every segment gets its Close, whatever became of the handler. -/
theorem Goes.finish (h : Goes env fs J x) (hfits : J.requestID < 2 ^ 64)
    (hphase : x.pair.client.phase = .sendComplited) : Comes env J (Finished J) x := by
  obtain ⟨bs, hbs⟩ := complitedPocket_encodes hfits
  cases hfound : x.pair.server.handlers.get? J.requestID with
  | none => exact h.gone hbs hphase hfound
  | some f =>
      obtain ⟨g, rfl, -⟩ := h.own f hfound
      by_cases hready : g.ready = true
      · exact h.ready hbs hphase hfound hready
      · -- the first pocket makes it ready
        refine h.report hbs hphase fun y hy hwaits hheard => hy.again hwaits
          fun z hz hreports hsame => hz.ready hbs hreports (g := { g with ready := true }) ?_ rfl
        rw [hsame]
        exact hheard.of_unready hfound hready

end Goes

end Net
end NetworkingFinal
