/-
  NetworkingFinal.Net.Progress

  Whether an upload can still end.

  The network may lose everything that is in flight.  While `upload_data` has a segment
  that is not acknowledged it sends it again, and what the server answers takes it on:
  the ACK, or the Close with the last one (`upload_can_end`).  With every segment
  acknowledged it sends nothing any more, and the server, which answers only what it
  receives, does not send the Close again: when that one datagram is lost, `upload_data`
  does not return (`upload_hangs`).
-/
import NetworkingFinal.Lib.Progress
import NetworkingFinal.Net.Openers

namespace NetworkingFinal
namespace Net

open Py Ftp App Client Lib

variable {env : Env} {growth : Int → Nat → Nat} {me : Addr}

-- ============================================================================
-- What was in flight is lost
-- ============================================================================

/-- Nothing that was in flight in `w₀` arrives, neither a pocket for the request `r` nor
    an answer, and no other command is started. -/
def Renewed (r : Nat) (w₀ w : World) : WorldEvent → Prop
  | .server (.recv data _ _) => ∀ p ∈ (Pocket.fromBytes data).toOption,
      p.basicLayer.pocketType ≠ .request → p.requestID = r →
        data ∈ w.shell.sent.drop w₀.shell.sent.length
  | .deliver i _ => w₀.air.length ≤ i
  | .command _ _ => False
  | _ => True

instance (r : Nat) (w₀ w : World) : (e : WorldEvent) → Decidable (Renewed r w₀ w e)
  | .server (.recv data _ _) => inferInstanceAs (Decidable (∀ p ∈ (Pocket.fromBytes data).toOption,
      p.basicLayer.pocketType ≠ .request → p.requestID = r →
        data ∈ w.shell.sent.drop w₀.shell.sent.length))
  | .server .timeout => isTrue trivial
  | .server (.task _ _) => isTrue trivial
  | .command _ _ => isFalse id
  | .deliver i _ => inferInstanceAs (Decidable (w₀.air.length ≤ i))
  | .proceed _ => isTrue trivial
  | .timeout _ => isTrue trivial
  | .osError _ => isTrue trivial

/-- The conditions on a step after `w₀`. -/
def Onward (me : Addr) (r : Nat) (w₀ w : World) (e : WorldEvent) : Prop :=
  Network me w e ∧ Answers w e ∧ Renewed r w₀ w e

instance (me : Addr) (r : Nat) (w₀ w : World) (e : WorldEvent) :
    Decidable (Onward me r w₀ w e) :=
  inferInstanceAs (Decidable (Network me w e ∧ Answers w e ∧ Renewed r w₀ w e))

theorem onward_proceed {r : Nat} {w₀ w : World} {now : Int} :
    Onward me r w₀ w (.proceed now) :=
  ⟨trivial, trivial, trivial⟩

theorem onward_timeout {r : Nat} {w₀ w : World} {clk : Readings} :
    Onward me r w₀ w (.timeout clk) :=
  ⟨trivial, trivial, trivial⟩

-- ============================================================================
-- The clock of the client
-- ============================================================================

/-- The clock after a move that reads it from `now` on. -/
def readFrom (now : Int) (clk : Readings) : Option Int :=
  if now ≤ clk.now ∧ clk.now ≤ clk.rttEnd ∧ clk.rttEnd ≤ clk.lastEnd then some clk.lastEnd
  else none

/-- The client's clock after an event that comes at `now` or later.  A timeout comes
    `SOCKET_TIMEOUT` after the wait began. -/
def tick (now : Int) : WorldEvent → Option Int
  | .proceed now' => if now ≤ now' then some now' else none
  | .deliver _ clk => readFrom now clk
  | .osError clk => readFrom now clk
  | .timeout clk => readFrom (now + SOCKET_TIMEOUT) clk
  | .server _ => some now
  | .command _ _ => some now

theorem readFrom_at (now : Int) : readFrom now ⟨now, now, now⟩ = some now := by
  rw [readFrom, if_pos ⟨Int.le_refl _, Int.le_refl _, Int.le_refl _⟩]

/-- The world and the time at the client. -/
structure Timed where
  world : World
  now : Int

namespace Timed

/-- A step of the world that its clock allows. -/
def step (env : Env) (growth : Int → Nat → Nat) (me : Addr) (x : Timed) (e : WorldEvent) :
    Option Timed :=
  (World.step env growth me x.world e).bind fun world =>
    (tick x.now e).map fun now => { world, now }

theorem step_of {x : Timed} {e : WorldEvent} {w : World} {now : Int}
    (hw : World.step env growth me x.world e = some w) (hnow : tick x.now e = some now) :
    step env growth me x e = some ⟨w, now⟩ := by
  rw [step, hw, Option.bind_some, hnow, Option.map_some]

end Timed

-- ============================================================================
-- The course of an upload
-- ============================================================================

/-- In the course of the upload `r`, some time after `w₀`, `upload_data` is in the
    state `u`. -/
structure Course (me : Addr) (w₀ : World) (res : Pocket) (r : Nat) (x : Timed) (u : Upload) :
    Prop where
  inv : WorldInv me x.world
  known : Known me x.world
  phase : x.world.shell.phase = .uploading res u
  upload : res.basicLayer.pocketSubType = .upload
  requestID : u.requestID = r
  amount : 0 < u.segmentsAmount
  encodes : ∀ k ∈ u.window, ∃ bs, (u.segmentPocket k).toBytes = .ok bs
  last : u.last ≤ x.now
  air : w₀.air <+: x.world.air
  sent : w₀.shell.sent <+: x.world.shell.sent

/-- The upload has ended, and was stored. -/
def Ended (res : Pocket) (r : Nat) (x : Timed) : Prop :=
  (∃ u, x.world.shell.phase = .uploading res u ∧ u.requestID = r ∧ u.phase = .returned) ∧
    Posted x.world.server r

namespace Timed

/-- `upload_data` has come to `u`. -/
def moved (x : Timed) (res : Pocket) (u : Upload) (now : Int) : Timed where
  world := { x.world with shell := { x.world.shell with phase := .uploading res u } }
  now := now

end Timed

section Course

variable {w₀ : World} {res : Pocket} {r : Nat} {x : Timed} {u u' : Upload}

theorem Course.running (h : Course me w₀ res r x u) :
    Uploading x.world.server x.world.air res u := by
  have hrunning := h.inv.running
  rw [h.phase] at hrunning
  exact hrunning

/-- What a state of the course leads to. -/
abbrev Leads (env : Env) (growth : Int → Nat → Nat) (me : Addr) (r : Nat) (w₀ : World)
    (P : Timed → Prop) (x : Timed) : Prop :=
  CanReach (Timed.step env growth me) (fun x e => Onward me r w₀ x.world e) P x

/-- A move of the client takes the course on. -/
theorem Course.move {P : Timed → Prop} (h : Course me w₀ res r x u) {e : WorldEvent} {m : Move}
    {now : Int} (honward : Onward me r w₀ x.world e)
    (hmoved : World.step env growth me x.world e = x.world.moved growth m)
    (hstep : Upload.step growth u m = some u') (hnow : tick x.now e = some now)
    (hlast : u'.last ≤ now)
    (hrest : Course me w₀ res r (x.moved res u' now) u' →
      Leads env growth me r w₀ P (x.moved res u' now)) : Leads env growth me r w₀ P x := by
  have hshell : x.world.shell.step growth m =
      some { x.world.shell with phase := .uploading res u' } := by
    rw [Shell.step, h.phase]
    simp only [hstep, Option.map_some]
  have hworld : World.step env growth me x.world e = some (x.moved res u' now).world := by
    rw [hmoved, World.moved, hshell]
    rfl
  have hs := Upload.stepped_of_step hstep
  have hbody : ∀ k, u'.segmentPocket k = u.segmentPocket k := fun k => by
    rw [Upload.segmentPocket, Upload.segmentPocket, hs.job.requestID, hs.job.body,
      hs.job.singleSegmentSize]
  refine canReach_step honward (Timed.step_of hworld hnow) (hrest ?_)
  refine ⟨h.inv.step honward.1 honward.2.1 hworld, h.known.step h.inv hworld, rfl, h.upload,
    hs.job.requestID.trans h.requestID, hs.job.segmentsAmount.symm ▸ h.amount, fun k hk => ?_,
    hlast, h.air, h.sent.trans ?_⟩
  · rw [hbody]
    exact h.encodes k (hs.window k hk)
  · have hold : x.world.shell.sent = x.world.shell.past ++ u.sent := by rw [Shell.sent, h.phase]
    show x.world.shell.sent <+: x.world.shell.past ++ u'.sent
    rw [hold]
    rcases hs.sent with hsame | ⟨-, -, bs, -, hsame⟩
    · exact hsame ▸ List.prefix_refl _
    · rw [hsame, ← List.append_assoc]
      exact List.prefix_append _ _

-- ============================================================================
-- One round
-- ============================================================================

/-- The top of the loop leads to the next `recvfrom`, when the round is over. -/
theorem Course.pause (h : Course me w₀ res r x u) (hphase : u.phase = .head)
    (hgoing : u.uploading = true) :
    Leads env growth me r w₀ (fun y => y.world.server = x.world.server ∧
      y.world.air = x.world.air ∧ Course me w₀ res r y { u with phase := .refresh }) x := by
  have hearly : x.now ≤ max x.now (u.last + u.rtt) := le_max_left _ _
  exact h.move onward_proceed rfl
    (Upload.step_pause hphase hgoing (le_max_right x.now (u.last + u.rtt))) (if_pos hearly)
    (h.last.trans hearly) fun hy => canReach_here ⟨rfl, rfl, hy⟩

/-- A segment that is not acknowledged has just been sent. -/
structure Underway (w₀ : World) (r : Nat) (x : Timed) (u : Upload) (k : Nat) (bs : Bytes) :
    Prop where
  phase : u.phase = .head
  going : u.uploading = true
  window : k ∈ u.window
  encoded : ∃ d, (segmentPocket r k d).toBytes = .ok bs
  sent : bs ∈ x.world.shell.sent.drop w₀.shell.sent.length

/-- The timeout of a `recvfrom` leads to the sending of a segment. -/
theorem Course.resend (h : Course me w₀ res r x u) (hphase : u.phase = .refresh)
    (hgoing : u.uploading = true) (hwindow : u.window ≠ []) :
    Leads env growth me r w₀ (fun y => y.world.server = x.world.server ∧
      ∃ u' k bs, Course me w₀ res r y u' ∧ u'.window.length = u.window.length ∧
        Underway w₀ r y u' k bs) x := by
  -- the round is over, and the wait has taken its time
  let now := max (x.now + SOCKET_TIMEOUT) (u.last + u.rtt + 1)
  have hwait : x.now + SOCKET_TIMEOUT ≤ now := le_max_left _ _
  have hover : u.last + u.rtt < now := Int.lt_of_add_one_le (le_max_right _ _)
  have hpositive : now < now + (now - u.last) := by
    have hlast := h.last
    have htimeout : 0 < SOCKET_TIMEOUT := by decide
    omega
  let u₁ := Upload.leaveRefresh growth ⟨now, now, now⟩ u
  have hstep₁ : Upload.step growth u (.receive .timeout ⟨now, now, now⟩) = some u₁ :=
    Upload.step_timeout hphase hover
  refine h.move onward_timeout rfl hstep₁ (if_pos ⟨hwait, Int.le_refl _, Int.le_refl _⟩)
    (Int.le_refl now) fun h₁ => ?_
  -- what was not acknowledged comes first
  obtain ⟨k, windowToSend, hfirst⟩ := List.exists_cons_of_ne_nil
    (show u.windowSending ++ u.windowToSend ≠ [] from fun hnil => hwindow (by
      rw [Upload.window, (List.append_eq_nil_iff.mp hnil).1, (List.append_eq_nil_iff.mp hnil).2]
      rfl))
  have hmem : k ∈ u₁.window := by
    show k ∈ (u.windowSending ++ u.windowToSend) ++ []
    rw [hfirst]
    exact List.mem_cons_self
  obtain ⟨bs, hbs⟩ := h₁.encodes k hmem
  let u₂ : Upload := { u₁ with windowToSend, windowSending := [k], sent := u₁.sent ++ [bs] }
  have hstep₂ : Upload.step growth u₁ (.proceed now) = some u₂ :=
    Upload.step_send rfl hgoing hfirst hpositive Upload.cwnd_leaveRefresh hbs
  refine h₁.move onward_proceed rfl hstep₂ (if_pos (Int.le_refl _)) (Int.le_refl now) fun h₂ =>
    canReach_here ⟨rfl, u₂, k, bs, h₂, ?_, rfl, hgoing, ?_, ?_, ?_⟩
  · show (windowToSend ++ [k]).length = (u.windowToSend ++ u.windowSending).length
    have hlength := congrArg List.length hfirst
    simp only [List.length_append, List.length_cons, List.length_nil] at hlength ⊢
    omega
  · exact List.mem_append_right _ (List.mem_singleton_self k)
  · refine ⟨segmentOf u.body u.body.length u.singleSegmentSize k, ?_⟩
    rw [← h₁.requestID]
    exact hbs
  · have hold : x.world.shell.sent = x.world.shell.past ++ u.sent := by rw [Shell.sent, h.phase]
    have hlength := h.sent.length_le
    rw [hold] at hlength
    show bs ∈ (x.world.shell.past ++ (u.sent ++ [bs])).drop w₀.shell.sent.length
    rw [← List.append_assoc, List.drop_append_of_le_length hlength]
    exact List.mem_append_right _ (List.mem_singleton_self bs)

/-- An answer to the upload `r` that was not in flight in `w₀`. -/
structure Fresh (w₀ : World) (me : Addr) (r : Nat) (x : Timed) (i : Nat) (l : Letter) : Prop where
  late : w₀.air.length ≤ i
  there : x.world.air[i]? = some l
  dest : l.dest = me
  about : l.about = r

/-- The server's answer to a segment: the upload is closed, or goes on. -/
inductive Answer (w₀ : World) (me : Addr) (r k : Nat) (x : Timed) : Prop
  | close {i : Nat} {l : Letter} (fresh : Fresh w₀ me r x i l)
      (pocket : l.pocket = closePocket) (posted : Posted x.world.server r)
  | akc {i : Nat} {l : Letter} (fresh : Fresh w₀ me r x i l)
      (pocket : l.pocket = akcPocket r k) (running : x.world.server.stopped = none)
      (waiting : ∃ g, x.world.server.handlers.get? r = some (.upload g))

/-- An upload that is accepted and not in the table has been stored. -/
theorem Course.posted_of_none (h : Course me w₀ res r x u)
    (hnone : x.world.server.handlers.get? r = none) : Posted x.world.server r := by
  obtain ⟨l, hl, hid, haccepts⟩ := h.running.letter h.upload
  rw [h.requestID] at hid
  rcases hid ▸ h.inv.air.accepted l hl _ haccepts with ⟨g, hg, -⟩ | hall
  · exact absurd (hnone.symm.trans hg) (Option.some_ne_none _).symm
  · rcases hall 0 h.amount with ⟨g, hg, -⟩ | hposted
    · exact absurd (hnone.symm.trans hg) (Option.some_ne_none _).symm
    · exact hposted

/-- The segment arrives, and is answered. -/
theorem Course.answer (h : Course me w₀ res r x u) (hrun : x.world.server.stopped = none) {k : Nat}
    {bs : Bytes} (hsent : Underway w₀ r x u k bs) :
    Leads env growth me r w₀ (fun y => Course me w₀ res r y u ∧ Answer w₀ me r k y) x := by
  obtain ⟨d, hd⟩ := hsent.encoded
  have hdecode := Pocket.fromBytes_segmentPocket hd
  -- the handler, when it is still there, is that of an upload of this client
  have hcommand := h.known.command
  rw [h.phase] at hcommand
  obtain ⟨l, hl, hdest, hid, haccepts⟩ := hcommand.2 h.upload
  rw [h.requestID] at hid
  obtain ⟨hdrawn, hkind, haddress⟩ := h.known.openers l hl _ h.amount haccepts
  rw [hid] at hdrawn hkind haddress
  obtain ⟨t, ht, hanswered⟩ : ∃ t, App.step env x.world.server (.recv bs me default) = some t ∧
      Answered x.world.server t r k me :=
    answered_of_segment h.inv.app.server.tables h.known.responses hd hkind hrun
  have honward : Onward me r w₀ x.world (.server (.recv bs me default)) :=
    ⟨fun _ _ _ => Or.inl (List.mem_of_mem_drop hsent.sent), trivial, fun _ _ _ _ => hsent.sent⟩
  have habout : about x.world.server (.recv bs me default) = r := by
    rw [about, hdecode]
    rfl
  let air := x.world.air ++ letters (about x.world.server (.recv bs me default))
    (t.app.log.drop x.world.server.app.log.length)
  let y : Timed := ⟨{ x.world with server := t, air }, x.now⟩
  have hworld : World.step env growth me x.world (.server (.recv bs me default)) =
      some y.world := by
    rw [World.step, ht]
    rfl
  have hstep : Timed.step env growth me x (.server (.recv bs me default)) = some y :=
    Timed.step_of hworld rfl
  have hgrows := step_grows h.inv.app ht
  have hy : Course me w₀ res r y u :=
    ⟨h.inv.step honward.1 honward.2.1 hworld, h.known.step h.inv hworld, h.phase, h.upload,
      h.requestID, h.amount, h.encodes, h.last, h.air.trans (List.prefix_append _ _), h.sent⟩
  -- where the answer is found
  have hfresh : ∀ {new : List Action} {q : Pocket}, t.app.log = x.world.server.app.log ++ new →
      .sent q me ∈ new → ∃ i, Fresh w₀ me r y i ⟨q, me, r⟩ := by
    intro new q hlog hq
    have hmem : (⟨q, me, r⟩ : Letter) ∈ letters r new := mem_letters.mpr ⟨hq, rfl⟩
    obtain ⟨i, hi⟩ := List.getElem?_of_mem hmem
    refine ⟨x.world.air.length + i, h.air.length_le.trans (Nat.le_add_right _ _), ?_, rfl, rfl⟩
    show (x.world.air ++ letters _ (t.app.log.drop _))[x.world.air.length + i]? = _
    rw [habout, hlog, List.drop_left, List.getElem?_append_right (Nat.le_add_right _ _),
      Nat.add_sub_cancel_left, hi]
  refine canReach_step honward hstep (canReach_here ⟨hy, ?_⟩)
  cases hanswered with
  | closed gone running log =>
      obtain ⟨i, hi⟩ := hfresh log (List.mem_append_right _ (List.mem_singleton_self _))
      exact .close hi rfl (hgrows.posted r (h.posted_of_none gone))
  | more found running stays log =>
      rw [haddress _ found, hdest] at log
      obtain ⟨i, hi⟩ := hfresh log (List.mem_append_right _ (List.mem_singleton_self _))
      exact .akc hi rfl running ⟨_, stays⟩
  | completed found log =>
      rw [haddress _ found, hdest] at log
      obtain ⟨i, hi⟩ := hfresh log
        (List.mem_append_right _ (List.mem_cons_of_mem _ List.mem_cons_self))
      refine .close hi rfl (posted_of_log log (Or.inr fun hnil => ?_))
      rw [postsFor_append, List.append_eq_nil_iff] at hnil
      simp [postsFor] at hnil

/-- An answer that is delivered to the blocked `recvfrom`. -/
theorem Course.deliver {P : Timed → Prop} (h : Course me w₀ res r x u) {i : Nat} {l : Letter}
    (hfresh : Fresh w₀ me r x i l)
    (hstep : Upload.step growth u (.receive (.datagram l.pocket.datagram) ⟨x.now, x.now, x.now⟩) =
      some u') (hlast : u'.last ≤ x.now)
    (hrest : Course me w₀ res r (x.moved res u' x.now) u' →
      Leads env growth me r w₀ P (x.moved res u' x.now)) : Leads env growth me r w₀ P x := by
  have honward : Onward me r w₀ x.world (.deliver i ⟨x.now, x.now, x.now⟩) := by
    refine ⟨trivial, fun l' hl' => ?_, hfresh.late⟩
    rw [hfresh.there, Option.mem_some_iff] at hl'
    rw [← hl', h.phase]
    exact ⟨fun _ => ⟨hfresh.about.trans h.requestID.symm, h.upload⟩,
      fun _ => hfresh.about.trans h.requestID.symm⟩
  refine h.move honward ?_ hstep (readFrom_at _) hlast hrest
  rw [World.step, hfresh.there]
  exact if_pos hfresh.dest

theorem Fresh.same {y : Timed} {i : Nat} {l : Letter} (h : Fresh w₀ me r x i l)
    (hair : y.world.air = x.world.air) : Fresh w₀ me r y i l :=
  ⟨h.late, hair ▸ h.there, h.dest, h.about⟩

/-- The Close that arrives ends the upload. -/
theorem Course.finish (h : Course me w₀ res r x u) (hphase : u.phase = .head)
    (hgoing : u.uploading = true) {i : Nat} {l : Letter} (hfresh : Fresh w₀ me r x i l)
    (hpocket : l.pocket = closePocket) (hposted : Posted x.world.server r) :
    Leads env growth me r w₀ (Ended res r) x := by
  refine (h.pause hphase hgoing).trans ?_
  rintro y ⟨hserver, hair, hy⟩
  have hdata : Pocket.fromBytes l.pocket.datagram = .ok closePocket := by
    rw [hpocket]
    rfl
  refine hy.deliver (hfresh.same hair) (Upload.step_close rfl hdata) (Int.le_refl _) fun hz => ?_
  refine hz.move onward_proceed rfl (Upload.step_return rfl rfl) (if_pos (Int.le_refl y.now))
    (Int.le_refl _) fun hv => canReach_here ⟨⟨_, hv.phase, hv.requestID, rfl⟩, ?_⟩
  show Posted y.world.server r
  rw [hserver]
  exact hposted

/-- An upload that waits for a segment has one that is not acknowledged. -/
theorem Course.window_ne_nil (h : Course me w₀ res r x u)
    (hrun : x.world.server.stopped = none) {g : UploadRequestHandler}
    (hg : x.world.server.handlers.get? r = some (.upload g)) : u.window ≠ [] := by
  intro hnil
  have hopen : postsFor r x.world.server.app.log = [] :=
    ((h.known.once.uploads r g hg).table hrun).mpr ⟨g, hg⟩
  have hsize : g.segments.size < g.segmentsAmount := h.inv.app.server.uploads hrun r g hg
  -- all its ids are stored, so that it holds them
  have hall : List.range g.segmentsAmount ⊆ g.segments.keys := by
    intro k hk
    rw [h.running.amount g (h.requestID.symm ▸ hg)] at hk
    have hdropped : k ∉ u.window := by
      rw [hnil]
      exact List.not_mem_nil
    have hstored := h.running.dropped k (List.mem_range.mp hk) hdropped
    rw [h.requestID] at hstored
    rcases hstored with ⟨g', hg', hmem⟩ | hposted
    · rw [hg, Option.some_inj, Handler.upload.injEq] at hg'
      exact hg' ▸ hmem
    · exact absurd hopen hposted
  have hle := (List.subperm_of_subset List.nodup_range hall).length_le
  rw [List.length_range, ← Dict.size_eq_length_keys] at hle
  exact absurd hsize (Nat.not_lt.mpr hle)

/-- The ACK that arrives takes its segment out of the window. -/
theorem Course.acknowledge (h : Course me w₀ res r x u) (hphase : u.phase = .head)
    (hgoing : u.uploading = true) {k i : Nat} {l : Letter} (hmem : k ∈ u.window)
    (hfresh : Fresh w₀ me r x i l)
    (hdata : Pocket.fromBytes l.pocket.datagram = .ok (akcPocket r k)) :
    Leads env growth me r w₀ (fun y => y.world.server = x.world.server ∧
      ∃ u', Course me w₀ res r y u' ∧ u'.phase = .refresh ∧ u'.uploading = true ∧
        u'.window.length < u.window.length) x := by
  refine (h.pause hphase hgoing).trans ?_
  rintro y ⟨hserver, hair, hy⟩
  refine hy.deliver (hfresh.same hair) (Upload.step_akc rfl hdata) hy.last fun hz =>
    canReach_here ⟨hserver, _, hz, rfl, hgoing, ?_⟩
  show (u.windowToSend.erase k ++ u.windowSending.erase k).length < u.window.length
  rw [Upload.window, List.length_append, List.length_append]
  rcases List.mem_append.mp hmem with hk | hk
  · have hless := List.length_erase_of_mem hk
    have hpos := List.length_pos_of_mem hk
    have hle := (List.erase_sublist (a := k) (l := u.windowSending)).length_le
    omega
  · have hless := List.length_erase_of_mem hk
    have hpos := List.length_pos_of_mem hk
    have hle := (List.erase_sublist (a := k) (l := u.windowToSend)).length_le
    omega

-- ============================================================================
-- Whole runs
-- ============================================================================

/-- The upload goes on, and the server runs. -/
structure Going (me : Addr) (w₀ : World) (res : Pocket) (r : Nat) (x : Timed) (u : Upload) :
    Prop where
  course : Course me w₀ res r x u
  phase : u.phase = .head ∨ u.phase = .refresh
  going : u.uploading = true
  window : u.window ≠ []
  running : x.world.server.stopped = none

/-- How much the upload still waits for. -/
def left (x : Timed) : Nat :=
  match x.world.shell.phase with
  | .uploading _ u => u.window.length
  | _ => 0

theorem Course.left_eq (h : Course me w₀ res r x u) : left x = u.window.length := by
  rw [left, h.phase]

/-- One round: the upload ends, or waits for less. -/
theorem Going.round (h : Going me w₀ res r x u) :
    Leads env growth me r w₀
      (fun y => Ended res r y ∨ (∃ u', Going me w₀ res r y u') ∧ left y < left x) x := by
  -- to `recvfrom`
  have hrefresh : Leads env growth me r w₀ (fun y => y.world.server = x.world.server ∧
      ∃ u', Course me w₀ res r y u' ∧ u'.phase = .refresh ∧ u'.uploading = true ∧
        u'.window = u.window) x := by
    rcases h.phase with hphase | hphase
    · refine (h.course.pause hphase h.going).trans ?_
      rintro y ⟨hserver, -, hy⟩
      exact canReach_here ⟨hserver, _, hy, rfl, h.going, rfl⟩
    · exact canReach_here ⟨rfl, u, h.course, hphase, h.going, rfl⟩
  refine hrefresh.trans ?_
  rintro y ⟨hserver, u₁, hy, hphase, hgoing, hsame⟩
  refine (hy.resend hphase hgoing (hsame ▸ h.window)).trans ?_
  rintro z ⟨hserver', u₂, k, bs, hz, hlength, hsent⟩
  have hrun : z.world.server.stopped = none := by
    rw [hserver', hserver]
    exact h.running
  refine (hz.answer hrun hsent).trans ?_
  rintro v ⟨hv, hanswer⟩
  cases hanswer with
  | close fresh pocket posted =>
      exact (hv.finish hsent.phase hsent.going fresh pocket posted).trans fun y hy =>
        canReach_here (Or.inl hy)
  | akc fresh pocket running waiting =>
      obtain ⟨g, hg⟩ := waiting
      obtain ⟨d, hd⟩ := hsent.encoded
      obtain ⟨bs', hbs'⟩ := akcPocket_encodes_of_segment hd
      have hdata : Pocket.fromBytes (akcPocket r k).datagram = .ok (akcPocket r k) := by
        rw [Pocket.datagram, hbs']
        exact Pocket.fromBytes_akcPocket hbs'
      rw [← pocket] at hdata
      refine (hv.acknowledge hsent.phase hsent.going hsent.window fresh (pocket ▸ hdata)).trans ?_
      rintro y ⟨hserver, u', hy, hphase, hgoing, hless⟩
      refine canReach_here (Or.inr ⟨⟨u', hy, Or.inr hphase, hgoing,
        hy.window_ne_nil (hserver ▸ running) (hserver ▸ hg), hserver ▸ running⟩, ?_⟩)
      rw [hy.left_eq, h.course.left_eq, ← hsame, ← hlength]
      exact hless

end Course

/-- **An upload with a segment that is not acknowledged can still end**, and be stored,
    also when everything that is in flight is lost. -/
theorem upload_can_end {fs : FileTree} {es : List WorldEvent} {w : World} {res : Pocket}
    {u : Upload} {now : Int}
    (hnet : AllSteps (World.step env growth me) (Network me) { server := Server.init fs } es)
    (hanswers : AllSteps (World.step env growth me) Answers { server := Server.init fs } es)
    (hrun : exec (World.step env growth me) { server := Server.init fs } es = some w)
    (hphase : w.shell.phase = .uploading res u) (hupload : res.basicLayer.pocketSubType = .upload)
    (hwaits : u.phase = .head ∨ u.phase = .refresh) (hgoing : u.uploading = true)
    (hwindow : u.window ≠ [])
    (hencodes : ∀ k ∈ u.window, ∃ bs, (u.segmentPocket k).toBytes = .ok bs)
    (hserver : w.server.stopped = none) (hnow : u.last ≤ now) :
    Leads env growth me u.requestID w (Ended res u.requestID) ⟨w, now⟩ := by
  obtain ⟨hinv, hknown⟩ := known_of_exec hnet hanswers hrun
  have hrunning := hinv.running
  rw [hphase] at hrunning
  obtain ⟨k, hk⟩ := List.exists_mem_of_ne_nil _ hwindow
  have hamount : 0 < u.segmentsAmount := Nat.zero_lt_of_lt (hrunning.window k hk)
  refine canReach_of_measure left (I := fun x => ∃ u', Going me w res u.requestID x u')
    (fun x ⟨u', hx⟩ => hx.round) ⟨u, ⟨hinv, hknown, hphase, hupload, rfl, hamount, hencodes, hnow,
      List.prefix_refl _, List.prefix_refl _⟩, hwaits, hgoing, hwindow, hserver⟩

/-- The running `upload_data`, with the sub type of its Response. -/
def runningUpload (w : World) : Option (PocketSubType × Upload) :=
  match w.shell.phase with
  | .uploading res u => some (res.basicLayer.pocketSubType, u)
  | _ => none

theorem runningUpload_eq_some {w : World} {sub : PocketSubType} {u : Upload}
    (h : runningUpload w = some (sub, u)) :
    ∃ res, w.shell.phase = .uploading res u ∧ res.basicLayer.pocketSubType = sub := by
  unfold runningUpload at h
  split at h
  · next res u' hphase =>
      rw [Option.some_inj, Prod.mk.injEq] at h
      exact ⟨res, h.2 ▸ hphase, h.1⟩
  · cases h

/-- The upload of `uploadSegment`, whose segment has just been sent. -/
def segmentUpload : Upload where
  requestID := 1
  singleSegmentSize := 1500
  segmentsAmount := 1
  body := [1, 7]
  windowToSend := []
  windowSending := [0]
  last := 0
  sent := [(segmentPocket 1 0 [1, 7]).datagram]

theorem upload_can_end_uploadSegment :
    ∃ w res, exec (World.step default (fun _ cwnd => cwnd) (['c'], 8001))
        { server := Server.init (installed default) } (uploadSegment 7 0) = some w ∧
      w.shell.phase = .uploading res segmentUpload ∧
      Leads default (fun _ cwnd => cwnd) (['c'], 8001) 1 w (Ended res 1) ⟨w, 0⟩ := by
  have hcheck : (exec (World.step default (fun _ cwnd => cwnd) (['c'], 8001))
      { server := Server.init (installed default) } (uploadSegment 7 0)).map
        (fun w => (runningUpload w, w.server.stopped)) =
      some (some (.upload, segmentUpload), none) := by
    decide +kernel
  have hnet : AllSteps (World.step default (fun _ cwnd => cwnd) (['c'], 8001))
      (Network (['c'], 8001)) { server := Server.init (installed default) }
      (uploadSegment 7 0) := by
    decide +kernel
  have hanswers : AllSteps (World.step default (fun _ cwnd => cwnd) (['c'], 8001))
      Answers { server := Server.init (installed default) } (uploadSegment 7 0) := by
    decide +kernel
  obtain ⟨w, hw, hfacts⟩ := Option.map_eq_some_iff.mp hcheck
  obtain ⟨hrunning, hserver⟩ := Prod.mk.inj hfacts
  obtain ⟨res, hphase, hsub⟩ := runningUpload_eq_some hrunning
  refine ⟨w, res, hw, hphase, upload_can_end hnet hanswers hw hphase hsub (Or.inl rfl) rfl
    (List.cons_ne_nil _ _) (fun k hk => ?_) hserver (Int.le_refl _)⟩
  rw [List.mem_singleton.mp (show k ∈ [0] from hk)]
  exact ⟨(segmentPocket 1 0 [1, 7]).datagram, by rfl⟩

-- ============================================================================
-- A Close that is lost
-- ============================================================================

section Silent

variable {s t : Server} {e : Event} {w₀ w w' : World} {res : Pocket} {r : Nat} {u : Upload}

/-- A Request is answered with Responses only. -/
theorem response_of_request {T T' : Tables} {p : Pocket} {a : Addr} {ok : Bool}
    {new : List Action} (h : Effect env T p a ok T' new) (hp : p.basicLayer.pocketType = .request)
    {q : Pocket} {b : Addr} (hq : .sent q b ∈ new) : q.basicLayer.pocketType = .response := by
  have hsegment : p.basicLayer.pocketType ≠ .segment := by
    rw [hp]
    exact PocketType.noConfusion
  cases h with
  | refused request drawn replies => exact (replies _ hq).2.1
  | opened request opened =>
      rw [(Action.sent.inj (List.mem_singleton.mp hq)).1, opened.layer]
  | stored type found layer part length finished => exact absurd type hsegment
  | stuck type found layer full part closed => exact absurd type hsegment
  | completed type found layer full => exact absurd type hsegment
  | unknown other absent => exact absurd hp other
  | _ => cases hq

/-- The server sends a Close about a request only in answer to a pocket for it, or when
    its download is over. -/
theorem about_of_close (hs : AppInv s) (hstep : App.step env s e = some t)
    (hkind : ∀ g, s.handlers.get? r ≠ some (.download g))
    (hother : ∀ data a amb p, e = .recv data a amb → Pocket.fromBytes data = .ok p →
      p.basicLayer.pocketType ≠ .request → p.requestID ≠ r) :
    ∃ new, t.app.log = s.app.log ++ new ∧ ∀ q b, .sent q b ∈ new →
      q.basicLayer.pocketType = .close → about s e ≠ r := by
  cases e with
  | timeout => exact ⟨[], by rw [step_timeout hstep, List.append_nil], fun q b hq => by cases hq⟩
  | recv data a amb =>
      obtain ⟨-, hrecv⟩ := step_recv hstep
      cases hrecv with
      | quiet tables log clientAddress stopped =>
          exact ⟨[], by rw [log, List.append_nil], fun q b hq => by cases hq⟩
      | @turn p ok pre new decoded effect log resent clientAddress returned raised =>
          rw [List.append_assoc] at log
          refine ⟨pre ++ new, log, fun q b hq hclose => ?_⟩
          rw [about, decoded]
          by_cases hp : p.basicLayer.pocketType = .request
          · -- nothing but Responses is sent
            have hresponse : q.basicLayer.pocketType = .response := by
              rcases List.mem_append.mp hq with hq | hq
              · obtain ⟨k, res, g, hres, -, heq⟩ := resent _ hq
                rw [(Action.sent.inj heq).1]
                exact (hs.log.responses k _ hres).type
              · exact response_of_request effect hp hq
            exact absurd (hclose.symm.trans hresponse) PocketType.noConfusion
          · exact hother data a amb p rfl decoded hp
  | task i clk =>
      obtain ⟨task, task', result, hd, new, -, htask, -, heff, rfl⟩ := (step_task hstep).effect
      refine ⟨new, rfl, fun q b hq hclose => ?_⟩
      rw [about, htask]
      cases heff with
      | sent phase going found window room address encoded =>
          rw [(Action.sent.inj (List.mem_singleton.mp hq)).1] at hclose
          cases hclose
      | closed phase found =>
          rintro rfl
          exact hkind _ found
      | _ => cases hq

/-- Since `w₀` the upload `r` waits for nothing but a Close. -/
structure Silent (me : Addr) (w₀ : World) (res : Pocket) (r : Nat) (w : World) (u : Upload) :
    Prop where
  inv : WorldInv me w
  known : Known me w
  phase : w.shell.phase = .uploading res u
  requestID : u.requestID = r
  going : u.uploading = true
  window : u.window = []
  sent : w.shell.sent = w₀.shell.sent
  kind : ∀ g, w.server.handlers.get? r ≠ some (.download g)
  length : w₀.air.length ≤ w.air.length
  air : ∀ l ∈ w.air.drop w₀.air.length, l.pocket.basicLayer.pocketType = .close → l.about ≠ r

theorem Silent.drawn (h : Silent me w₀ res r w u) : r ≤ w.server.app.lastRequestID := by
  have hrunning := h.inv.running
  rw [h.phase] at hrunning
  exact h.requestID ▸ hrunning.drawn

theorem Silent.server (h : Silent me w₀ res r w u) (honward : Onward me r w₀ w (.server e))
    (hstep : World.step env growth me w (.server e) = some w') : Silent me w₀ res r w' u := by
  have hinv := h.inv.step honward.1 honward.2.1 hstep
  have hknown := h.known.step h.inv hstep
  obtain ⟨t, ht, rfl⟩ := Option.map_eq_some_iff.mp hstep
  -- no pocket for the request is on its way any more
  have hother : ∀ data a amb p, e = .recv data a amb → Pocket.fromBytes data = .ok p →
      p.basicLayer.pocketType ≠ .request → p.requestID ≠ r := by
    rintro data a amb p rfl hp htype hr
    have hdrop := honward.2.2 p (by rw [hp]; rfl) htype hr
    rw [h.sent, List.drop_length] at hdrop
    cases hdrop
  obtain ⟨new, hlog, hclose⟩ := about_of_close h.inv.app ht h.kind hother
  refine ⟨hinv, hknown, h.phase, h.requestID, h.going, h.window, h.sent,
    not_download_of_step h.inv.app ht h.drawn h.kind, ?_, fun l hl htype => ?_⟩
  · rw [List.length_append]
    exact h.length.trans (Nat.le_add_right _ _)
  · rw [hlog, List.drop_left, List.drop_append_of_le_length h.length] at hl
    rcases List.mem_append.mp hl with hl | hl
    · exact h.air l hl htype
    · obtain ⟨hmem, habout⟩ := mem_letters.mp hl
      rw [habout]
      exact hclose _ _ hmem htype

/-- A move of the client on which no Close is handled. -/
theorem Silent.move (h : Silent me w₀ res r w u) {e : WorldEvent} {m : Move}
    (honward : Onward me r w₀ w e) (hstep : World.step env growth me w e = some w')
    (hmoved : World.step env growth me w e = w.moved growth m)
    (hhandles : ∀ p, u.HandlesPocket m p → p.basicLayer.pocketType ≠ .close) :
    ∃ u', Silent me w₀ res r w' u' := by
  have hinv := h.inv.step honward.1 honward.2.1 hstep
  have hknown := h.known.step h.inv hstep
  rw [hmoved] at hstep
  obtain ⟨c, hc, rfl⟩ := Option.map_eq_some_iff.mp hstep
  rw [Shell.step, h.phase] at hc
  obtain ⟨u', hu', rfl⟩ := Option.map_eq_some_iff.mp hc
  obtain ⟨hwindow, hsent⟩ := Upload.silent_of_step h.window hu'
  have hs := Upload.stepped_of_step hu'
  refine ⟨u', hinv, hknown, rfl, hs.job.requestID.trans h.requestID, ?_, hwindow, ?_, h.kind,
    h.length, h.air⟩
  · rcases hs.ended with hsame | ⟨p, hp, hclose⟩
    · exact hsame.trans h.going
    · exact absurd hclose (hhandles p hp)
  · have hold : w.shell.sent = w.shell.past ++ u.sent := by rw [Shell.sent, h.phase]
    show w.shell.past ++ u'.sent = w₀.shell.sent
    rw [hsent, ← hold, h.sent]

theorem Silent.step (h : Silent me w₀ res r w u) {e : WorldEvent} (honward : Onward me r w₀ w e)
    (hstep : World.step env growth me w e = some w') : ∃ u', Silent me w₀ res r w' u' := by
  have hopen := h.known.command
  rw [h.phase] at hopen
  cases e with
  | server e => exact ⟨u, h.server honward hstep⟩
  | command options c => exact honward.2.2.elim
  | proceed now =>
      refine h.move honward hstep rfl ?_
      rintro p ⟨data, hdata, -⟩
      exact hdata.elim
  | osError clk =>
      refine h.move honward hstep rfl ?_
      rintro p ⟨data, hdata, -⟩
      exact hdata.elim
  | timeout clk =>
      refine h.move honward hstep rfl ?_
      rintro p ⟨data, hdata, hp⟩
      exact hopen.1.data h.going data hdata p hp
  | deliver i clk =>
      cases hl : w.air[i]? with
      | none =>
          rw [World.step, hl] at hstep
          cases hstep
      | some l =>
          have hdest : l.dest = me := by
            rw [World.step, hl] at hstep
            by_contra hne
            dsimp only at hstep
            rw [if_neg hne] at hstep
            cases hstep
          have hmoved : World.step env growth me w (.deliver i clk) =
              w.moved growth (.receive (.datagram l.pocket.datagram) clk) := by
            rw [World.step, hl]
            exact if_pos hdest
          refine h.move honward hstep hmoved ?_
          rintro p ⟨data, hdata, hp⟩ hclose
          obtain rfl : l.pocket.datagram = data := hdata
          rw [(basicLayer_of_letter hp).1] at hclose
          -- it was sent after `w₀`, and about this upload
          have hmem : l ∈ w.air.drop w₀.air.length := by
            rw [List.mem_iff_getElem?]
            refine ⟨i - w₀.air.length, ?_⟩
            rw [List.getElem?_drop, Nat.add_sub_cancel' honward.2.2, hl]
          have hanswers := honward.2.1 l hl
          rw [h.phase] at hanswers
          exact h.air l hmem hclose ((hanswers.1 hclose).1.trans h.requestID)

end Silent

/-- **A lost Close is not sent again**: when every segment is acknowledged, and what is in
    flight is lost, `upload_data` sends nothing any more and does not return. -/
theorem upload_hangs {fs : FileTree} {es es' : List WorldEvent} {w w' : World} {res : Pocket}
    {u : Upload}
    (hnet : AllSteps (World.step env growth me) (Network me) { server := Server.init fs } es)
    (hanswers : AllSteps (World.step env growth me) Answers { server := Server.init fs } es)
    (hrun : exec (World.step env growth me) { server := Server.init fs } es = some w)
    (hphase : w.shell.phase = .uploading res u) (hupload : res.basicLayer.pocketSubType = .upload)
    (hgoing : u.uploading = true) (hamount : 0 < u.segmentsAmount) (hwindow : u.window = [])
    (honward : AllSteps (World.step env growth me) (Onward me u.requestID w) w es')
    (hmore : exec (World.step env growth me) w es' = some w') :
    w'.shell.sent = w.shell.sent ∧
      ∃ u', w'.shell.phase = .uploading res u' ∧ u'.phase ≠ .returned := by
  obtain ⟨hinv, hknown⟩ := known_of_exec hnet hanswers hrun
  have hcommand := hknown.command
  rw [hphase] at hcommand
  obtain ⟨l, hl, -, hid, haccepts⟩ := hcommand.2 hupload
  have hkind := (hknown.openers l hl _ hamount haccepts).kind
  rw [hid] at hkind
  have hstart : Silent me w res u.requestID w u :=
    ⟨hinv, hknown, hphase, rfl, hgoing, hwindow, rfl, hkind, Nat.le_refl _, fun l hl => by
      rw [List.drop_length] at hl
      cases hl⟩
  obtain ⟨u', hend⟩ : ∃ u', Silent me w res u.requestID w' u' :=
    exec_invariant_of (fun w' => ∃ u', Silent me w res u.requestID w' u')
      (Onward me u.requestID w) ⟨u, hstart⟩ (fun _ _ _ ⟨_, hw⟩ hC ht => hw.step hC ht)
      honward hmore
  have hopen := hend.known.command
  rw [hend.phase] at hopen
  refine ⟨hend.sent, u', hend.phase, fun hret => ?_⟩
  have hover := hopen.1.returned hret
  rw [hend.going] at hover
  cases hover

/-- The segment of `uploadSegment` arrives, and its ACK comes back, but not the Close. -/
def acknowledgedOnly : List WorldEvent :=
  uploadSegment 7 0 ++
    [.server (.recv (segmentPocket 1 0 [1, 7]).datagram (['c'], 8001) default),
     .proceed 0, .deliver 1 ⟨0, 0, 0⟩]

/-- Two more turns of the loop, with a timeout after each. -/
def emptyRounds : List WorldEvent :=
  [.timeout ⟨200000, 200000, 200000⟩, .proceed 200000, .timeout ⟨500000, 500000, 500000⟩,
   .proceed 500000]

theorem upload_hangs_acknowledgedOnly :
    ∃ w w' res u, exec (World.step default (fun _ cwnd => cwnd) (['c'], 8001))
        { server := Server.init (installed default) } acknowledgedOnly = some w ∧
      exec (World.step default (fun _ cwnd => cwnd) (['c'], 8001)) w emptyRounds = some w' ∧
      postsFor 1 w'.server.app.log = [[1, 7]] ∧ w'.shell.sent = w.shell.sent ∧
      w'.shell.phase = .uploading res u ∧ u.phase ≠ .returned := by
  let silent : Upload :=
    { segmentUpload with
      windowSending := [], data := some (akcPocket 1 0).datagram
      decoded := [some (akcPocket 1 0).datagram], phase := .refresh }
  have hcheck : (exec (World.step default (fun _ cwnd => cwnd) (['c'], 8001))
      { server := Server.init (installed default) } acknowledgedOnly).map (fun w =>
        (runningUpload w, (exec (World.step default (fun _ cwnd => cwnd) (['c'], 8001)) w
          emptyRounds).map fun w' => postsFor 1 w'.server.app.log,
        decide (AllSteps (World.step default (fun _ cwnd => cwnd) (['c'], 8001))
          (Onward (['c'], 8001) 1 w) w emptyRounds))) =
      some (some (.upload, silent), some [[1, 7]], true) := by
    decide +kernel
  have hnet : AllSteps (World.step default (fun _ cwnd => cwnd) (['c'], 8001))
      (Network (['c'], 8001)) { server := Server.init (installed default) } acknowledgedOnly := by
    decide +kernel
  have hanswers : AllSteps (World.step default (fun _ cwnd => cwnd) (['c'], 8001))
      Answers { server := Server.init (installed default) } acknowledgedOnly := by
    decide +kernel
  obtain ⟨w, hw, hfacts⟩ := Option.map_eq_some_iff.mp hcheck
  obtain ⟨hrunning, hfacts⟩ := Prod.mk.inj hfacts
  obtain ⟨hmore, honward⟩ := Prod.mk.inj hfacts
  obtain ⟨w', hw', hposts⟩ := Option.map_eq_some_iff.mp hmore
  obtain ⟨res, hphase, hsub⟩ := runningUpload_eq_some hrunning
  obtain ⟨hsent, u, hphase', hends⟩ := upload_hangs hnet hanswers hw hphase hsub rfl Nat.one_pos
    rfl (of_decide_eq_true honward) hw'
  exact ⟨w, w', res, u, hw, hw', hposts, hsent, hphase', hends⟩

end Net
end NetworkingFinal
