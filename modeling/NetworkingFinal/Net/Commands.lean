/-
  NetworkingFinal.Net.Commands

  The server and a client that runs one command after another from one address,
  over a network that loses, duplicates, reorders and delays datagrams across the
  commands.

  Every pocket the server has sent stays in the air, with the request id of the
  pocket it answered, and can be delivered at any time and any number of times.
  What is known of a pocket in the air (`AirInv`) is kept by every step, since the
  server only gathers segments (`Grows`).
-/
import NetworkingFinal.App.Replies
import NetworkingFinal.Client.Commands

namespace NetworkingFinal
namespace Net

open Py Ftp App Client Lib

variable {env : Env} {growth : Int → Nat → Nat} {me : Addr}

-- ============================================================================
-- The world
-- ============================================================================

/-- A pocket the server has sent, and the request id of the pocket or the task it was
    sent for. -/
structure Letter where
  pocket : Pocket
  dest : Addr
  about : Nat
  deriving DecidableEq

structure World where
  server : Server
  shell : Shell := {}
  air : List Letter := []

inductive WorldEvent where
  | server (e : Event)
  | command (options : Options) (c : Command)
  | deliver (i : Nat) (clk : Readings)
  | proceed (now : Int)
  | timeout (clk : Readings)
  | osError (clk : Readings)

/-- What was sent among these actions. -/
def letters (r : Nat) (new : List Action) : List Letter :=
  new.filterMap fun
    | .sent p dest => some ⟨p, dest, r⟩
    | .postUpload _ _ => none

theorem mem_letters {r : Nat} {new : List Action} {l : Letter} :
    l ∈ letters r new ↔ .sent l.pocket l.dest ∈ new ∧ l.about = r := by
  rw [letters, List.mem_filterMap]
  constructor
  · rintro ⟨x, hx, hl⟩
    cases x with
    | sent p dest =>
        cases hl
        exact ⟨hx, rfl⟩
    | postUpload r body => cases hl
  · rintro ⟨hx, rfl⟩
    exact ⟨_, hx, rfl⟩

namespace World

/-- The client, whose address is `me`, makes a move. -/
def moved (growth : Int → Nat → Nat) (w : World) (m : Move) : Option World :=
  (w.shell.step growth m).map fun shell => { w with shell }

def step (env : Env) (growth : Int → Nat → Nat) (me : Addr) (w : World) :
    WorldEvent → Option World
  | .server e => (App.step env w.server e).map fun s =>
      { w with
        server := s
        air := w.air ++ letters (about w.server e) (s.app.log.drop w.server.app.log.length) }
  | .command options c => some { w with shell := w.shell.begin options c }
  | .deliver i clk =>
      match w.air[i]? with
      | some l =>
          if l.dest = me then w.moved growth (.receive (.datagram l.pocket.datagram) clk) else none
      | none => none
  | .proceed now => w.moved growth (.proceed now)
  | .timeout clk => w.moved growth (.receive .timeout clk)
  | .osError clk => w.moved growth (.receive .osError clk)

end World

/-- What reaches the server, Requests aside, was sent by this client, or by others for
    requests that are not this client's. -/
def Network (me : Addr) (w : World) : WorldEvent → Prop
  | .server (.recv data _ _) => ∀ p ∈ (Pocket.fromBytes data).toOption,
      p.basicLayer.pocketType ≠ .request → data ∈ w.shell.sent ∨
        (p.requestID ≤ w.server.app.lastRequestID ∧
          ∀ h ∈ w.server.handlers.get? p.requestID, h.clientAddress ≠ me)
  | _ => True

instance (me : Addr) (w : World) : (e : WorldEvent) → Decidable (Network me w e)
  | .server (.recv data _ _) => inferInstanceAs (Decidable (∀ p ∈ (Pocket.fromBytes data).toOption,
      p.basicLayer.pocketType ≠ .request → data ∈ w.shell.sent ∨
        (p.requestID ≤ w.server.app.lastRequestID ∧
          ∀ h ∈ w.server.handlers.get? p.requestID, h.clientAddress ≠ me)))
  | .server .timeout => isTrue trivial
  | .server (.task _ _) => isTrue trivial
  | .command _ _ => isTrue trivial
  | .deliver _ _ => isTrue trivial
  | .proceed _ => isTrue trivial
  | .timeout _ => isTrue trivial
  | .osError _ => isTrue trivial

/-- A Close or an ACK that is delivered to `upload_data` was sent in answer to a
    pocket with its own request id, and a Close to the upload of that id. -/
def AnswersUpload (l : Letter) : CommandPhase → Prop
  | .uploading resPocket u =>
      (l.pocket.basicLayer.pocketType = .close →
        l.about = u.requestID ∧ resPocket.basicLayer.pocketSubType = .upload) ∧
      (l.pocket.basicLayer.pocketType = .ack → l.about = u.requestID)
  | _ => True

instance (l : Letter) : (phase : CommandPhase) → Decidable (AnswersUpload l phase)
  | .uploading resPocket u => inferInstanceAs (Decidable (
      (l.pocket.basicLayer.pocketType = .close →
        l.about = u.requestID ∧ resPocket.basicLayer.pocketSubType = .upload) ∧
      (l.pocket.basicLayer.pocketType = .ack → l.about = u.requestID)))
  | .resting => isTrue trivial
  | .awaitResponse _ => isTrue trivial
  | .downloading _ => isTrue trivial

/-- No stale Close or ACK is delivered. -/
def Answers (w : World) : WorldEvent → Prop
  | .deliver i _ => ∀ l ∈ w.air[i]?, AnswersUpload l w.shell.phase
  | _ => True

instance (w : World) : (e : WorldEvent) → Decidable (Answers w e)
  | .deliver i _ => inferInstanceAs (Decidable (∀ l ∈ w.air[i]?, AnswersUpload l w.shell.phase))
  | .server _ => isTrue trivial
  | .command _ _ => isTrue trivial
  | .proceed _ => isTrue trivial
  | .timeout _ => isTrue trivial
  | .osError _ => isTrue trivial

-- ============================================================================
-- What is known of the pockets in the air
-- ============================================================================

/-- Every segment of the upload has been stored. -/
def AllStored (s : Server) (r n : Nat) : Prop := ∀ k < n, Stored s r k

theorem AllStored.grow {s t : Server} {r n : Nat} (h : AllStored s r n) (hg : Grows s t) :
    AllStored t r n :=
  fun k hk => (h k hk).grow hg

theorem allStored_of_posted {s : Server} {r n : Nat} (h : Posted s r) : AllStored s r n :=
  fun _ _ => Or.inr h

/-- The upload is open, or all its segments have been stored. -/
def OpenOrStored (s : Server) (r n : Nat) : Prop :=
  (∃ u, s.handlers.get? r = some (.upload u) ∧ u.segmentsAmount = n) ∨ AllStored s r n

theorem OpenOrStored.grow {s t : Server} {r n : Nat} (h : OpenOrStored s r n) (hg : Grows s t) :
    OpenOrStored t r n := by
  rcases h with ⟨u, hu, rfl⟩ | hall
  · rcases hg.uploads r u hu with ⟨u', hu', hext⟩ | hposted
    · exact Or.inl ⟨u', hu', hext.amount⟩
    · exact Or.inr (allStored_of_posted hposted)
  · exact Or.inr (hall.grow hg)

/-- A Response of the server, and the amount it announces for an open upload. -/
structure Response (s : Server) (q : Pocket) (layer : ResponseLayer) : Prop where
  plain : q.requestLayer = none
  responseLayer : q.responseLayer = some layer
  message : layer.ok = true → layer.errorMessage = []
  drawn : q.requestID ≤ s.app.lastRequestID
  amount : layer.ok = true → ∀ u, s.handlers.get? q.requestID = some (.upload u) →
    u.segmentsAmount = layer.segmentsAmount

theorem Response.grow {s t : Server} {q : Pocket} {layer : ResponseLayer}
    (h : Response s q layer) (hg : Grows s t) : Response t q layer := by
  refine ⟨h.plain, h.responseLayer, h.message, h.drawn.trans hg.last, fun hok u hu => ?_⟩
  obtain ⟨u₀, hu₀, hext⟩ := hg.old _ u h.drawn hu
  exact hext.amount.trans (h.amount hok u₀ hu₀)

structure AirInv (s : Server) (air : List Letter) : Prop where
  response : ∀ l ∈ air, l.pocket.basicLayer.pocketType = .response →
    ∃ layer, Response s l.pocket layer
  accepted : ∀ l ∈ air, ∀ n, AcceptsUpload l.pocket n → OpenOrStored s l.pocket.requestID n
  akc : ∀ l ∈ air, l.pocket.basicLayer.pocketType = .ack →
    ∃ k, l.pocket = akcPocket l.about k ∧ Stored s l.about k
  close : ∀ l ∈ air, l.pocket.basicLayer.pocketType = .close →
    l.about ≤ s.app.lastRequestID ∧ ∀ l' ∈ air, l'.pocket.requestID = l.about →
      ∀ n, AcceptsUpload l'.pocket n → AllStored s l.about n

section Reply

variable {s t : Server} {r : Nat} {q : Pocket}

theorem accepted_of_replies {n : Nat} (h : Replies s t r q) (hn : AcceptsUpload q n) : n = 0 ∨
    q.requestID = s.app.lastRequestID + 1 ∧
      ∃ u, t.handlers.get? q.requestID = some (.upload u) ∧ u.segmentsAmount = n := by
  cases h with
  | response type plain responseLayer message drawn amount accepted => exact accepted n hn
  | segment type => exact absurd (type.symm.trans hn.1) PocketType.noConfusion
  | akc eq stored =>
      rw [eq] at hn
      exact absurd hn.1 PocketType.noConfusion
  | close eq drawn finished =>
      rw [eq] at hn
      exact absurd hn.1 PocketType.noConfusion

theorem response_of_replies (h : Replies s t r q) (htype : q.basicLayer.pocketType = .response) :
    ∃ layer, Response t q layer := by
  cases h with
  | response type plain responseLayer message drawn amount accepted =>
      exact ⟨_, plain, responseLayer, message, drawn, amount⟩
  | segment type => exact absurd (type.symm.trans htype) PocketType.noConfusion
  | akc eq stored =>
      rw [eq] at htype
      cases htype
  | close eq drawn finished =>
      rw [eq] at htype
      cases htype

theorem akc_of_replies (h : Replies s t r q) (htype : q.basicLayer.pocketType = .ack) :
    ∃ k, q = akcPocket r k ∧ Stored t r k := by
  cases h with
  | response type => exact absurd (type.symm.trans htype) PocketType.noConfusion
  | segment type => exact absurd (type.symm.trans htype) PocketType.noConfusion
  | akc eq stored => exact ⟨_, eq, stored⟩
  | close eq drawn finished =>
      rw [eq] at htype
      cases htype

theorem close_of_replies (h : Replies s t r q) (htype : q.basicLayer.pocketType = .close) :
    r ≤ t.app.lastRequestID ∧ (Posted t r ∨ ∀ u, t.handlers.get? r ≠ some (.upload u)) := by
  cases h with
  | response type => exact absurd (type.symm.trans htype) PocketType.noConfusion
  | segment type => exact absurd (type.symm.trans htype) PocketType.noConfusion
  | akc eq stored =>
      rw [eq] at htype
      cases htype
  | close eq drawn finished => exact ⟨drawn, finished⟩

end Reply

/-- What is known of the pockets in the air stays known when the server answers. -/
theorem AirInv.step {s t : Server} {air : List Letter} {r : Nat} {new : List Action}
    (h : AirInv s air) (hg : Grows s t)
    (hnew : ∀ q b, .sent q b ∈ new → Replies s t r q) : AirInv t (air ++ letters r new) := by
  have hreplies : ∀ l ∈ letters r new, Replies s t l.about l.pocket := by
    intro l hl
    obtain ⟨hsent, rfl⟩ := mem_letters.mp hl
    exact hnew _ _ hsent
  have haccepted : ∀ l ∈ air ++ letters r new, ∀ n, AcceptsUpload l.pocket n →
      OpenOrStored t l.pocket.requestID n := by
    intro l hl n hn
    rcases List.mem_append.mp hl with hl | hl
    · exact (h.accepted l hl n hn).grow hg
    · rcases accepted_of_replies (hreplies l hl) hn with rfl | ⟨-, u, hu, hamount⟩
      · exact Or.inr fun k hk => absurd hk (Nat.not_lt_zero k)
      · exact Or.inl ⟨u, hu, hamount⟩
  refine ⟨fun l hl htype => ?_, haccepted, fun l hl htype => ?_, fun l hl htype => ?_⟩
  · rcases List.mem_append.mp hl with hl | hl
    · obtain ⟨layer, hlayer⟩ := h.response l hl htype
      exact ⟨layer, hlayer.grow hg⟩
    · exact response_of_replies (hreplies l hl) htype
  · rcases List.mem_append.mp hl with hl | hl
    · obtain ⟨k, hk, hstored⟩ := h.akc l hl htype
      exact ⟨k, hk, hstored.grow hg⟩
    · exact akc_of_replies (hreplies l hl) htype
  · rcases List.mem_append.mp hl with hl | hl
    · obtain ⟨hdrawn, hall⟩ := h.close l hl htype
      refine ⟨hdrawn.trans hg.last, fun l' hl' hr n hn => ?_⟩
      rcases List.mem_append.mp hl' with hl' | hl'
      · exact (hall l' hl' hr n hn).grow hg
      · -- an upload opened in this step has a new request id
        rcases accepted_of_replies (hreplies l' hl') hn with rfl | ⟨hfresh, -⟩
        · exact fun k hk => absurd hk (Nat.not_lt_zero k)
        · omega
    · obtain ⟨hdrawn, hfinished⟩ := close_of_replies (hreplies l hl) htype
      refine ⟨hdrawn, fun l' hl' hr n hn => ?_⟩
      rcases hfinished with hposted | hnone
      · exact allStored_of_posted hposted
      · rcases hr ▸ haccepted l' hl' n hn with ⟨u, hu, -⟩ | hall
        · exact absurd hu (hnone u)
        · exact hall

-- ============================================================================
-- What the client sends
-- ============================================================================

/-- A datagram of the client: its request id has been drawn, and a Segment of an open
    upload is one of that upload's. -/
def Outgoing (s : Server) (bs : Bytes) : Prop :=
  ∀ p, Pocket.fromBytes bs = .ok p → p.basicLayer.pocketType ≠ .request →
    p.requestID ≤ s.app.lastRequestID ∧
      ∀ segment u, p.segmentLayer = some segment → p.basicLayer.pocketType = .segment →
        s.handlers.get? p.requestID = some (.upload u) → segment.segmentID < u.segmentsAmount

theorem Outgoing.grow {s t : Server} {bs : Bytes} (h : Outgoing s bs) (hg : Grows s t) :
    Outgoing t bs := by
  intro p hp htype
  obtain ⟨hdrawn, hsegment⟩ := h p hp htype
  refine ⟨hdrawn.trans hg.last, fun segment u hlayer hseg hu => ?_⟩
  obtain ⟨u₀, hu₀, hext⟩ := hg.old _ u hdrawn hu
  rw [hext.amount]
  exact hsegment segment u₀ hlayer hseg hu₀

/-- What a datagram tells `upload_data` about the upload `r` is true. -/
def Tells (s : Server) (r n : Nat) (bs : Bytes) : Prop :=
  ∀ p, Pocket.fromBytes bs = .ok p →
    (p.basicLayer.pocketType = .close → AllStored s r n) ∧
      ∀ k, p.akcLayer = some ⟨k⟩ → Stored s r k

/-- `upload_data` running on the Response `res`. -/
structure Uploading (s : Server) (air : List Letter) (res : Pocket) (u : Upload) : Prop where
  drawn : u.requestID ≤ s.app.lastRequestID
  amount : ∀ g, s.handlers.get? u.requestID = some (.upload g) →
    g.segmentsAmount = u.segmentsAmount
  letter : res.basicLayer.pocketSubType = .upload →
    ∃ l ∈ air, l.pocket.requestID = u.requestID ∧ AcceptsUpload l.pocket u.segmentsAmount
  window : ∀ k ∈ u.window, k < u.segmentsAmount
  dropped : ∀ k < u.segmentsAmount, k ∉ u.window → Stored s u.requestID k
  ended : u.uploading = false → AllStored s u.requestID u.segmentsAmount
  returned : u.phase = .returned → u.uploading = false
  data : ∀ bs, u.data = some bs → Tells s u.requestID u.segmentsAmount bs

theorem Uploading.grow {s t : Server} {air air' : List Letter} {res : Pocket} {u : Upload}
    (h : Uploading s air res u) (hg : Grows s t) (hair : air ⊆ air') :
    Uploading t air' res u := by
  refine ⟨h.drawn.trans hg.last, fun g hgu => ?_, fun hsub => ?_, h.window,
    fun k hk hnot => (h.dropped k hk hnot).grow hg, fun hend => (h.ended hend).grow hg,
    h.returned, fun bs hbs p hp => ?_⟩
  · obtain ⟨g₀, hg₀, hext⟩ := hg.old _ g h.drawn hgu
    exact hext.amount.trans (h.amount g₀ hg₀)
  · obtain ⟨l, hl, hrest⟩ := h.letter hsub
    exact ⟨l, hair hl, hrest⟩
  · obtain ⟨hclose, hakc⟩ := h.data bs hbs p hp
    exact ⟨fun ht => (hclose ht).grow hg, fun k hk => (hakc k hk).grow hg⟩

/-- A move on which the datagrams handled tell the truth. -/
theorem Uploading.step {s : Server} {air : List Letter} {res : Pocket} {u u' : Upload} {m : Move}
    (h : Uploading s air res u) (hstep : Upload.Stepped u m u')
    (htells : ∀ data clk, m = .receive (.datagram data) clk →
      Tells s u.requestID u.segmentsAmount data) : Uploading s air res u' := by
  obtain ⟨hr, -, hn, -⟩ := hstep.job
  have hhandles : ∀ p, u.HandlesPocket m p →
      (p.basicLayer.pocketType = .close → AllStored s u.requestID u.segmentsAmount) ∧
        ∀ k, p.akcLayer = some ⟨k⟩ → Stored s u.requestID k := by
    rintro p ⟨data, hdata, hp⟩
    cases m with
    | proceed now => exact hdata.elim
    | receive input clk =>
        cases input with
        | datagram data' =>
            have heq : data' = data := hdata
            exact htells data' clk rfl p (heq ▸ hp)
        | timeout => exact h.data data hdata p hp
        | osError => exact hdata.elim
  refine ⟨hr ▸ h.drawn, ?_, ?_, fun k hk => ?_, fun k hk hnot => ?_, fun hend => ?_, hstep.returned,
    fun bs hbs => ?_⟩
  · rw [hr, hn]
    exact h.amount
  · rw [hr, hn]
    exact h.letter
  · rw [hn]
    exact h.window k (hstep.window k hk)
  · rw [hr]
    rw [hn] at hk
    by_cases hmem : k ∈ u.window
    · obtain ⟨p, hp, hakc⟩ := hstep.dropped k hmem hnot
      exact (hhandles p hp).2 k hakc
    · exact h.dropped k hk hmem
  · rw [hr, hn]
    rcases hstep.ended with hsame | ⟨p, hp, hclose⟩
    · exact h.ended (hsame ▸ hend)
    · exact (hhandles p hp).1 hclose
  · rw [hr, hn]
    rcases hstep.data with hsame | ⟨data, clk, rfl, hdata⟩
    · exact h.data bs (hsame ▸ hbs)
    · rw [hdata, Option.some_inj] at hbs
      exact hbs ▸ htells data clk rfl

/-- What is known of the running command. -/
def Running (s : Server) (air : List Letter) : CommandPhase → Prop
  | .uploading res u => Uploading s air res u
  | .downloading d => d.requestID ≤ s.app.lastRequestID ∧ ∃ n, Download.Sound d.requestID n d
  | _ => True

theorem Running.grow {s t : Server} {air air' : List Letter} {phase : CommandPhase}
    (h : Running s air phase) (hg : Grows s t) (hair : air ⊆ air') : Running t air' phase := by
  cases phase with
  | uploading res u => exact Uploading.grow h hg hair
  | downloading d => exact ⟨h.1.trans hg.last, h.2⟩
  | _ => exact h

/-- The invariant of the world. -/
structure WorldInv (me : Addr) (w : World) : Prop where
  app : AppInv w.server
  air : AirInv w.server w.air
  sent : ∀ bs ∈ w.shell.sent, Outgoing w.server bs
  running : Running w.server w.air w.shell.phase
  own : ∀ r u, w.server.handlers.get? r = some (.upload u) → u.clientAddress = me →
    ∀ k ∈ u.segments.keys, k < u.segmentsAmount

theorem worldInv_start (fs : FileTree) : WorldInv me { server := Server.init fs } where
  app := appInv_init fs
  air := by
    constructor
    all_goals
      intro l hl
      cases hl
  sent := by
    intro bs hbs
    cases hbs
  running := trivial
  own := by
    intro r u hu
    cases hu

-- ============================================================================
-- Steps of the server
-- ============================================================================

section Server

variable {w : World} {s : Server} {e : Event}

theorem WorldInv.drawn (h : WorldInv me w) (hnet : Network me w (.server e)) :
    ∀ data a amb p, e = .recv data a amb → Pocket.fromBytes data = .ok p →
      p.basicLayer.pocketType ≠ .request → p.requestID ≤ w.server.app.lastRequestID := by
  rintro data a amb p rfl hp htype
  rcases hnet p (by rw [hp]; rfl) htype with hsent | hother
  · exact (h.sent data hsent p hp htype).1
  · exact hother.1

/-- The uploads of this client only hold segments of their own. -/
theorem WorldInv.own_step (h : WorldInv me w) (hnet : Network me w (.server e))
    (hstep : App.step env w.server e = some s) :
    ∀ r u, s.handlers.get? r = some (.upload u) → u.clientAddress = me →
      ∀ k ∈ u.segments.keys, k < u.segmentsAmount := by
  intro r u hu hme
  cases e with
  | timeout => exact h.own r u (step_timeout hstep ▸ hu) hme
  | recv data a amb =>
      obtain ⟨-, hrecv⟩ := step_recv hstep
      cases hrecv with
      | quiet tables log clientAddress stopped =>
          have hhandlers : s.handlers = w.server.handlers := congrArg Tables.handlers tables
          exact h.own r u (hhandlers ▸ hu) hme
      | @turn p ok pre new decoded effect log resent clientAddress returned raised =>
          rcases effect.upload_cases hu with hold | ⟨-, hempty⟩ |
            ⟨g, segment, type, layer, found, rfl, rfl⟩
          · exact h.own r u hold hme
          · rw [hempty]
            intro k hk
            cases hk
          · have hother : p.basicLayer.pocketType ≠ .request := by
              rw [type]
              exact PocketType.noConfusion
            rw [store_base] at hme
            have hsent : data ∈ w.shell.sent := by
              rcases hnet p (by rw [decoded]; rfl) hother with hsent | ⟨-, hothers⟩
              · exact hsent
              · exact absurd hme (hothers _ found)
            intro k hk
            rw [store_segmentsAmount]
            rcases (store_keys g segment k).mp hk with rfl | hk
            · exact ((h.sent data hsent p decoded hother).2 segment g layer type found)
            · exact h.own _ g found hme k hk
  | task i clk =>
      obtain ⟨task, task', result, hd, new, hmem, -, hlive, heff, rfl⟩ := (step_task hstep).effect
      exact h.own r u ((heff.get?_upload h.app.server.tables hmem hlive).mp hu) hme

theorem WorldInv.server (h : WorldInv me w) (hnet : Network me w (.server e))
    (hstep : App.step env w.server e = some s) :
    WorldInv me { w with
      server := s
      air := w.air ++ letters (about w.server e)
        (s.app.log.drop w.server.app.log.length) } := by
  have hg := step_grows h.app hstep
  obtain ⟨new, hlog, hreplies⟩ := step_replies h.app hstep (h.drawn hnet)
  rw [hlog, List.drop_left]
  exact ⟨h.app.step hstep, h.air.step hg hreplies, fun bs hbs => (h.sent bs hbs).grow hg,
    h.running.grow hg (List.subset_append_left _ _), h.own_step hnet hstep⟩

end Server

-- ============================================================================
-- Moves of the client
-- ============================================================================

section Client

variable {w : World}

/-- What is decoded from a letter has its basic layer. -/
theorem basicLayer_of_letter {l : Letter} {p : Pocket}
    (hp : Pocket.fromBytes l.pocket.datagram = .ok p) :
    p.basicLayer = l.pocket.basicLayer ∧ l.pocket.toBytes = .ok l.pocket.datagram := by
  cases hbs : l.pocket.toBytes with
  | ok bs =>
      have hdata : l.pocket.datagram = bs := by
        rw [Pocket.datagram, hbs]
        rfl
      rw [hdata] at hp ⊢
      exact ⟨Pocket.basicLayer_of_fromBytes hbs hp, rfl⟩
  | error e =>
      have hdata : l.pocket.datagram = [] := by
        rw [Pocket.datagram, hbs]
        rfl
      rw [hdata] at hp
      cases hp

/-- A Response that a command goes on with. -/
theorem WorldInv.response (h : WorldInv me w) {l : Letter} (hl : l ∈ w.air) {res : Pocket}
    {layer : ResponseLayer} (hres : Pocket.fromBytes l.pocket.datagram = .ok res)
    (hlayer : res.responseLayer = some layer) (hok : layer.ok = true) :
    res.basicLayer = l.pocket.basicLayer ∧ l.pocket.basicLayer.pocketType = .response ∧
      Response w.server l.pocket layer := by
  obtain ⟨hbasic, hbytes⟩ := basicLayer_of_letter hres
  have htype : l.pocket.basicLayer.pocketType = .response := by
    rw [← hbasic]
    exact (Pocket.type_of_layer hres).1 (by rw [hlayer]; exact Option.some_ne_none _)
  obtain ⟨layer₀, hresponse⟩ := h.air.response l hl htype
  have hsame := Pocket.responseLayer_of_ok hbytes htype hresponse.plain hresponse.responseLayer
    hresponse.message hres hlayer hok
  exact ⟨hbasic, htype, hsame ▸ hresponse⟩

/-- What a delivered letter tells a running `upload_data`. -/
theorem WorldInv.tells (h : WorldInv me w) {l : Letter} (hl : l ∈ w.air) {res : Pocket}
    {u : Upload} (hu : Uploading w.server w.air res u)
    (hanswers : AnswersUpload l (.uploading res u)) :
    Tells w.server u.requestID u.segmentsAmount l.pocket.datagram := by
  intro p hp
  obtain ⟨hbasic, hbytes⟩ := basicLayer_of_letter hp
  obtain ⟨hclose, hakc⟩ := hanswers
  constructor
  · intro htype
    rw [hbasic] at htype
    obtain ⟨habout, hsub⟩ := hclose htype
    obtain ⟨l', hl', hr, haccepts⟩ := hu.letter hsub
    exact habout ▸ (h.air.close l hl htype).2 l' hl' (hr.trans habout.symm) _ haccepts
  · intro k hk
    have htype : l.pocket.basicLayer.pocketType = .ack := by
      rw [← hbasic]
      exact (Pocket.type_of_layer hp).2 (by rw [hk]; exact Option.some_ne_none _)
    obtain ⟨k', heq, hstored⟩ := h.air.akc l hl htype
    rw [heq] at hbytes hp
    rw [Pocket.fromBytes_akcPocket hbytes, Except.ok.injEq] at hp
    rw [← hp] at hk
    cases hk
    exact hakc htype ▸ hstored

theorem uploading_start {l : Letter} (hl : l ∈ w.air) {res : Pocket} {layer : ResponseLayer}
    {body : Bytes} {now : Int} (hbasic : res.basicLayer = l.pocket.basicLayer)
    (htype : l.pocket.basicLayer.pocketType = .response)
    (hresponse : Response w.server l.pocket layer) (hok : layer.ok = true) :
    Uploading w.server w.air res
      { requestID := res.requestID, singleSegmentSize := layer.singleSegmentSize,
        segmentsAmount := layer.segmentsAmount, body,
        windowToSend := List.range layer.segmentsAmount, last := now } := by
  have hid : res.requestID = l.pocket.requestID := by rw [Pocket.requestID, hbasic]
  refine ⟨hid ▸ hresponse.drawn, fun g hg => ?_, fun hsub => ⟨l, hl, hid.symm, htype,
    hbasic ▸ hsub, layer, hresponse.responseLayer, hok, rfl⟩, fun k hk => ?_, fun k hk hnot => ?_,
    fun hend => (by cases hend), fun hret => (by cases hret), fun bs hbs => (by cases hbs)⟩
  · rw [show res.requestID = _ from hid] at hg
    exact hresponse.amount hok g hg
  · simpa [Upload.window] using hk
  · exact absurd (by simpa [Upload.window] using hk) hnot

theorem Uploading.outgoing {s : Server} {air : List Letter} {res : Pocket} {u : Upload}
    (h : Uploading s air res u) {k : Nat} {bs : Bytes} (hk : k ∈ u.window)
    (hbs : (u.segmentPocket k).toBytes = .ok bs) : Outgoing s bs := by
  intro p hp _
  rw [Pocket.fromBytes_segmentPocket hbs, Except.ok.injEq] at hp
  rw [← hp]
  refine ⟨h.drawn, fun segment g hlayer _ hg => ?_⟩
  cases hlayer
  rw [h.amount g hg]
  exact h.window k hk

theorem outgoing_of_other {s : Server} {p : Pocket} {bs : Bytes} (hbs : p.toBytes = .ok bs)
    (hdrawn : p.requestID ≤ s.app.lastRequestID) (htype : p.basicLayer.pocketType ≠ .segment) :
    Outgoing s bs := by
  intro q hq _
  have hbasic := Pocket.basicLayer_of_fromBytes hbs hq
  rw [Pocket.requestID, hbasic]
  exact ⟨hdrawn, fun segment u _ hseg _ => absurd hseg htype⟩

/-- A step sends one more datagram at most. -/
theorem outgoing_past {s : Server} {past sent sent' : List Bytes}
    (h : ∀ bs ∈ past ++ sent, Outgoing s bs)
    (hmore : sent' = sent ∨ ∃ bs, sent' = sent ++ [bs] ∧ Outgoing s bs) :
    ∀ bs ∈ past ++ sent', Outgoing s bs := by
  rcases hmore with rfl | ⟨bs', rfl, hbs'⟩
  · exact h
  · rw [← List.append_assoc]
    intro bs hbs
    rcases List.mem_append.mp hbs with hbs | hbs
    · exact h bs hbs
    · rw [List.mem_singleton.mp hbs]
      exact hbs'

/-- A move of the client on which only letters are delivered, and those to
    `upload_data` are answers to it. -/
theorem WorldInv.client (h : WorldInv me w) {m : Move} {c : Shell}
    (hstep : w.shell.step growth m = some c)
    (hletter : ∀ data clk, m = .receive (.datagram data) clk →
      ∃ l ∈ w.air, data = l.pocket.datagram ∧ AnswersUpload l w.shell.phase) :
    WorldInv me { w with shell := c } := by
  have hrunning := h.running
  have hsent := h.sent
  unfold Shell.step at hstep
  unfold Shell.sent at hsent
  split at hstep
  · cases hstep
  · next command hphase =>
      rw [hphase] at hsent
      split at hstep
      · next input clk =>
          cases hstep
          have hpast : ∀ phase, Running w.server w.air phase →
              (Shell.sent { w.shell with phase }) = w.shell.past →
              WorldInv me { w with shell := { w.shell with phase } } :=
            fun phase hrun heq => ⟨h.app, h.air, heq ▸ hsent, hrun, h.own⟩
          have hbegan := began_of_receive command input clk
          generalize command.receive input clk = phase at hbegan ⊢
          cases hbegan with
          | ended => exact hpast _ trivial rfl
          | uploading received decoded responseLayer ok =>
              cases received
              obtain ⟨l, hl, hdata, -⟩ := hletter _ _ rfl
              rw [hdata] at decoded
              obtain ⟨hbasic, htype, hresponse⟩ := h.response hl decoded responseLayer ok
              exact hpast _ (uploading_start hl hbasic htype hresponse ok)
                (List.append_nil _)
          | downloading received decoded responseLayer ok start =>
              cases received
              obtain ⟨l, hl, hdata, -⟩ := hletter _ _ rfl
              rw [hdata] at decoded
              obtain ⟨hbasic, -, hresponse⟩ := h.response hl decoded responseLayer ok
              obtain ⟨hsound, -, hnone, -⟩ := Download.start_eq start
              have hid := hsound.requestID
              refine hpast _ ⟨?_, _, hid ▸ hsound⟩ ?_
              · rw [hid, Pocket.requestID, hbasic]
                exact hresponse.drawn
              · show w.shell.past ++ _ = _
                rw [hnone, List.append_nil]
      · cases hstep
  · next res u hphase =>
      obtain ⟨u', hu', rfl⟩ := Option.map_eq_some_iff.mp hstep
      rw [hphase] at hsent hrunning
      have hu : Uploading w.server w.air res u := hrunning
      have hsent : ∀ bs ∈ w.shell.past ++ u.sent, Outgoing w.server bs := hsent
      have hs := Upload.stepped_of_step hu'
      have hu'' : Uploading w.server w.air res u' := hu.step hs fun data clk hm => by
        obtain ⟨l, hl, rfl, hanswers⟩ := hletter data clk hm
        exact h.tells hl hu (hphase ▸ hanswers)
      refine ⟨h.app, h.air, outgoing_past hsent ?_, hu'', h.own⟩
      rcases hs.sent with hsame | ⟨k, hk, bs', hbs', hsame⟩
      · exact Or.inl hsame
      · exact Or.inr ⟨bs', hsame, hu.outgoing hk hbs'⟩
  · next d hphase =>
      obtain ⟨d', hd', rfl⟩ := Option.map_eq_some_iff.mp hstep
      rw [hphase] at hsent hrunning
      obtain ⟨hdrawn, n, hsound⟩ := hrunning
      have hsent : ∀ bs ∈ w.shell.past ++ d.sent, Outgoing w.server bs := hsent
      have heffect := Download.effect_of_step hsound.collect hd'
      have hsound' := hsound.step heffect
      have hid := hsound'.requestID
      refine ⟨h.app, h.air, outgoing_past hsent ?_, ⟨hid ▸ hdrawn, n, hid ▸ hsound'⟩, h.own⟩
      rcases heffect.sent with hsame | ⟨p, bs', hbs', hsame, hr, htype⟩
      · exact Or.inl hsame
      · exact Or.inr ⟨bs', hsame, outgoing_of_other hbs' (hr ▸ hdrawn) htype⟩

end Client

-- ============================================================================
-- Whole runs
-- ============================================================================

theorem WorldInv.step {w w' : World} (h : WorldInv me w) {e : WorldEvent}
    (hnet : Network me w e) (hanswers : Answers w e)
    (hstep : World.step env growth me w e = some w') : WorldInv me w' := by
  cases e with
  | server e =>
      obtain ⟨s, hs, rfl⟩ := Option.map_eq_some_iff.mp hstep
      exact h.server hnet hs
  | command options c =>
      cases hstep
      have hpast : ∀ bs ∈ (w.shell.begin options c).sent, Outgoing w.server bs := by
        unfold Shell.begin
        split
        · next bs' hbs' =>
            intro bs hbs
            rcases List.mem_append.mp (show bs ∈ w.shell.sent ++ [bs'] from hbs) with hbs | hbs
            · exact h.sent bs hbs
            · rw [List.mem_singleton.mp hbs]
              intro p hp htype
              rw [Pocket.basicLayer_of_fromBytes hbs' hp] at htype
              exact absurd (Command.reqPocket_type options c) htype
        · exact h.sent
      refine ⟨h.app, h.air, hpast, ?_, h.own⟩
      show Running w.server w.air (w.shell.begin options c).phase
      unfold Shell.begin
      split <;> trivial
  | deliver i clk =>
      simp only [World.step] at hstep
      split at hstep
      · next l hl =>
          split at hstep
          · obtain ⟨c, hc, rfl⟩ := Option.map_eq_some_iff.mp hstep
            refine h.client hc fun data clk' hm => ?_
            cases hm
            exact ⟨l, List.mem_of_getElem? hl, rfl, hanswers l hl⟩
          · cases hstep
      · cases hstep
  | proceed now =>
      obtain ⟨c, hc, rfl⟩ := Option.map_eq_some_iff.mp hstep
      exact h.client hc fun data clk hm => by cases hm
  | timeout clk =>
      obtain ⟨c, hc, rfl⟩ := Option.map_eq_some_iff.mp hstep
      exact h.client hc fun data clk hm => by cases hm
  | osError clk =>
      obtain ⟨c, hc, rfl⟩ := Option.map_eq_some_iff.mp hstep
      exact h.client hc fun data clk hm => by cases hm

/-- A reported upload is complete.  Own uploads hold only ids below their amount, so
    that `post_upload`, called when as many segments are there, has them all. -/
structure ReportsComplete (me : Addr) (w : World) : Prop where
  returned : ∀ res u, w.shell.phase = .uploading res u → u.phase = .returned →
    AllStored w.server u.requestID u.segmentsAmount
  dropped : ∀ res u, w.shell.phase = .uploading res u → ∀ k < u.segmentsAmount, k ∉ u.window →
    Stored w.server u.requestID k
  own : ∀ r u, w.server.handlers.get? r = some (.upload u) → u.clientAddress = me →
    ∀ k ∈ u.segments.keys, k < u.segmentsAmount

/-- **Reported uploads are complete** in every run in which no stale Close or ACK is
    delivered to `upload_data`. -/
theorem reported_upload_complete {fs : FileTree} {es : List WorldEvent} {w : World}
    (hnet : AllSteps (World.step env growth me) (Network me) { server := Server.init fs } es)
    (hanswers : AllSteps (World.step env growth me) Answers { server := Server.init fs } es)
    (hrun : exec (World.step env growth me) { server := Server.init fs } es = some w) :
    ReportsComplete me w := by
  have hinv : WorldInv me w := exec_invariant_of (WorldInv me)
    (fun w e => Network me w e ∧ Answers w e) (worldInv_start fs)
    (fun _ _ _ hw hC ht => hw.step hC.1 hC.2 ht)
    (fun es₁ e es₂ t hes ht => ⟨hnet es₁ e es₂ t hes ht, hanswers es₁ e es₂ t hes ht⟩) hrun
  have huploading : ∀ res u, w.shell.phase = .uploading res u →
      Uploading w.server w.air res u := by
    intro res u hphase
    have hrunning := hinv.running
    rw [hphase] at hrunning
    exact hrunning
  refine ⟨fun res u hphase hret => ?_, fun res u hphase => (huploading res u hphase).dropped,
    hinv.own⟩
  exact (huploading res u hphase).ended ((huploading res u hphase).returned hret)

/-- `upload` of the file `b` with one byte of content, up to the upload's first segment:
    the request, its Response (the letter `response`) and the sending of the segment. -/
def uploadSegment (content : UInt8) (response : Nat) : List WorldEvent :=
  [.command {} (.upload true [content] ['b']),
   .server (.recv ((Command.upload true [content] ['b']).reqPocket {}).datagram (['c'], 8001)
     default),
   .deliver response ⟨0, 0, 0⟩, .proceed 0]

/-- The segment arrives, and `upload_data` gets the Close (the letter `close`). -/
def uploadClose (r : Nat) (content : UInt8) (close : Nat) : List WorldEvent :=
  [.server (.recv (segmentPocket r 0 [1, content]).datagram (['c'], 8001) default),
   .proceed 0, .deliver close ⟨0, 0, 0⟩, .proceed 0]

/-- One upload over a network that loses nothing. -/
def uploadOnce : List WorldEvent := uploadSegment 7 0 ++ uploadClose 1 7 2

/-- The upload that came to `upload_data`, and whether it has returned. -/
def reported (w : World) : Option (Nat × Nat × Bool) :=
  match w.shell.phase with
  | .uploading _ u => some (u.requestID, u.segmentsAmount, decide (u.phase = .returned))
  | _ => none

theorem reported_upload_complete_uploadOnce :
    ∃ w res u, exec (World.step default (fun _ cwnd => cwnd) (['c'], 8001))
        { server := Server.init (installed default) } uploadOnce = some w ∧
      w.shell.phase = .uploading res u ∧ u.phase = .returned ∧ u.segmentsAmount = 1 ∧
      AllStored w.server u.requestID 1 := by
  have hcheck : (exec (World.step default (fun _ cwnd => cwnd) (['c'], 8001))
      { server := Server.init (installed default) } uploadOnce).map reported =
      some (some (1, 1, true)) := by
    decide +kernel
  have hnet : AllSteps (World.step default (fun _ cwnd => cwnd) (['c'], 8001))
      (Network (['c'], 8001)) { server := Server.init (installed default) } uploadOnce := by
    decide +kernel
  have hanswers : AllSteps (World.step default (fun _ cwnd => cwnd) (['c'], 8001))
      Answers { server := Server.init (installed default) } uploadOnce := by
    decide +kernel
  obtain ⟨w, hw, hreported⟩ := Option.map_eq_some_iff.mp hcheck
  have hcomplete := reported_upload_complete hnet hanswers hw
  unfold reported at hreported
  split at hreported
  · next res u hphase =>
      simp only [Option.some.injEq, Prod.mk.injEq, decide_eq_true_eq] at hreported
      obtain ⟨-, hamount, hret⟩ := hreported
      exact ⟨w, res, u, hw, hphase, hret, hamount, hamount ▸ hcomplete.returned res u hphase hret⟩
  · cases hreported

/-- A second upload whose segment is lost, while the Close of the first one arrives once
    more. -/
def uploadStaleClose : List WorldEvent :=
  uploadOnce ++ uploadSegment 8 3 ++ [.proceed 0, .deliver 2 ⟨0, 0, 0⟩, .proceed 0]

/-- The ids that the server has of the upload `2`, and how often its `post_upload` ran. -/
def storedOfSecond (s : Server) : Option (List Nat) × Nat :=
  ((s.handlers.get? 2).bind fun
      | .upload h => some h.segments.keys
      | .download _ => none,
    (postsFor 2 s.app.log).length)

theorem not_reported_upload_complete_staleClose :
    ¬ ∀ (env : Env) (growth : Int → Nat → Nat) (me : Addr) (fs : FileTree)
        (es : List WorldEvent) (w : World),
      AllSteps (World.step env growth me) (Network me) { server := Server.init fs } es →
      exec (World.step env growth me) { server := Server.init fs } es = some w →
        ReportsComplete me w := by
  intro hall
  have hcheck : (exec (World.step default (fun _ cwnd => cwnd) (['c'], 8001))
      { server := Server.init (installed default) } uploadStaleClose).map
        (fun w => (reported w, storedOfSecond w.server)) =
      some (some (2, 1, true), some [], 0) := by
    decide +kernel
  have hnet : AllSteps (World.step default (fun _ cwnd => cwnd) (['c'], 8001))
      (Network (['c'], 8001)) { server := Server.init (installed default) } uploadStaleClose := by
    decide +kernel
  obtain ⟨w, hw, hfacts⟩ := Option.map_eq_some_iff.mp hcheck
  obtain ⟨hreported, hstored⟩ := Prod.mk.inj hfacts
  obtain ⟨hkeys, hposts⟩ := Prod.mk.inj hstored
  have hcomplete := hall _ _ _ _ _ _ hnet hw
  unfold reported at hreported
  split at hreported
  · next res u hphase =>
      simp only [Option.some.injEq, Prod.mk.injEq, decide_eq_true_eq] at hreported
      obtain ⟨hid, hamount, hret⟩ := hreported
      have hzero : Stored w.server 2 0 :=
        hid ▸ hcomplete.returned res u hphase hret 0 (by omega)
      rcases hzero with ⟨g, hg, hmem⟩ | hposted
      · rw [hg, Option.bind_some, Option.some_inj] at hkeys
        rw [hkeys] at hmem
        cases hmem
      · exact hposted (List.length_eq_zero_iff.mp hposts)
  · cases hreported

end Net
end NetworkingFinal
