/-
  NetworkingFinal.Net.Openers

  How the server answers the segments of a client's upload.

  Every accepted upload has its handler under the request id of its Response, for the
  address the Response went to (`Opener`), so that a segment the client sends is always
  answered to the client: with an ACK, or, when the upload is stored, with the Close
  (`answered_of_segment`).
-/
import NetworkingFinal.App.Completion
import NetworkingFinal.App.Once
import NetworkingFinal.App.Turns
import NetworkingFinal.Client.Rounds
import NetworkingFinal.Net.Commands

namespace NetworkingFinal
namespace Net

open Py Py.Prog Ftp App Client Lib

variable {env : Env} {growth : Int → Nat → Nat} {me : Addr}

-- ============================================================================
-- A segment that arrives
-- ============================================================================

/-- What the process does with a segment `k` for the upload `r` from `a`: an upload that
    is not open is closed, and a segment of an open one acknowledged. -/
inductive Answered (s t : Server) (r k : Nat) (a : Addr) : Prop
  | closed {pre : List Action} (gone : s.handlers.get? r = none) (running : t.stopped = none)
      (log : t.app.log = s.app.log ++ (pre ++ [.sent closePocket a]))
  | more {pre : List Action} {g g' : UploadRequestHandler}
      (found : s.handlers.get? r = some (.upload g)) (running : t.stopped = none)
      (stays : t.handlers.get? r = some (.upload g'))
      (log : t.app.log = s.app.log ++ (pre ++ [.sent (akcPocket r k) g.clientAddress]))
  | completed {pre : List Action} {g : UploadRequestHandler} {data : Bytes}
      (found : s.handlers.get? r = some (.upload g))
      (log : t.app.log = s.app.log ++ (pre ++ [.sent (akcPocket r k) g.clientAddress,
        .sent closePocket g.clientAddress, .postUpload r data]))

section Arrives

variable {s t : Server} {r k : Nat} {d bs : Bytes} {a : Addr} {amb : Ambient}

theorem closePocket_encodes : closePocket.toBytes = .ok closePocket.datagram := by rfl

theorem akcPocket_encodes_of_segment (hbs : (segmentPocket r k d).toBytes = .ok bs) :
    ∃ bs', (akcPocket r k).toBytes = .ok bs' := by
  have hdecode := Pocket.fromBytes_segmentPocket hbs
  obtain ⟨l, hl, hfits⟩ := Pocket.segmentLayer_of_fromBytes hdecode rfl
  cases hl
  exact Pocket.akcPocket_encodes (Pocket.requestID_fits hdecode) hfits

/-- The dispatch of a segment, after any number of Responses sent again. -/
theorem wp_dispatch_segment (htable : TableInv s.tables)
    (hencodes : ∃ bs', (akcPocket r k).toBytes = .ok bs')
    (hkind : ∀ g, s.handlers.get? r ≠ some (.download g)) (hrun : s.stopped = none)
    (pre : List Action) (source : Option Addr) :
    wp (dispatch env amb (segmentPocket r k d) a) (fun _ t => Answered s t r k a)
      (fun e t => Answered s { t with stopped := some e } r k a)
      ({ s with clientAddress := source }.logged pre) := by
  unfold dispatch
  refine wp_ite.mpr ⟨fun htype => (by cases htype), fun _ => ?_⟩
  rw [wp_bind, wp_get]
  split
  · next g hfound =>
      have hfound : s.handlers.get? r = some (.upload g) := hfound
      have hid : (g.store ⟨k, d⟩).requestID = r := by
        rw [store_base]
        exact (htable.id _ _ hfound).1
      have haddress : (g.store ⟨k, d⟩).clientAddress = g.clientAddress := by rw [store_base]
      have hsegment : segmentIn (segmentPocket r k d) = some ⟨k, d⟩ := rfl
      rw [wp_bind]
      refine wp_handleUploadPocket_of_some hsegment (hid.symm ▸ hencodes) (fun _ => ?_)
        fun _ u hhandlers hlog => ?_
      · refine wp_when.mpr ⟨fun htrue => (by cases htrue), fun _ => ?_⟩
        have hlog : s.app.log ++ pre ++ [.sent (akcPocket r k) g.clientAddress] =
            s.app.log ++ (pre ++ [.sent (akcPocket r k) g.clientAddress]) :=
          List.append_assoc _ _ _
        rw [← hid, ← haddress] at hlog
        exact .more hfound hrun (Dict.get?_set_self _ _ _) (by rw [← hid, ← haddress]; exact hlog)
      · have hcompleted : ∀ v : Server, v.app.log = u.app.log → Answered s v r k a := by
          intro v hv
          have hall : v.app.log = s.app.log ++ (pre ++ [.sent (akcPocket r k) g.clientAddress,
              .sent closePocket g.clientAddress,
              .postUpload r (assembled (g.store ⟨k, d⟩).segments)]) := by
            rw [hv, hlog, Server.storing, hid, haddress]
            simp [Server.logged]
          exact .completed hfound hall
        refine ⟨wp_when.mpr ⟨fun _ => ?_, fun _ => hcompleted u rfl⟩, fun e => hcompleted _ rfl⟩
        exact wp_popHandler.mpr ⟨fun _ _ => hcompleted _ rfl, fun _ => hcompleted _ rfl⟩
  · next g hfound => exact absurd hfound (hkind g)
  · next hnone =>
      rw [wp_onApp, sendClose, wp_sendto]
      refine ⟨fun _ _ => ?_, fun e he => ?_⟩
      · have hlog : s.app.log ++ pre ++ [.sent closePocket a] =
            s.app.log ++ (pre ++ [.sent closePocket a]) := List.append_assoc _ _ _
        exact .closed hnone hrun hlog
      · rw [closePocket_encodes] at he
        cases he

/-- A segment that arrives while the main loop goes on is answered. -/
theorem answered_of_segment (htable : TableInv s.tables) (hresponses : ResponsesEncode s)
    (hbs : (segmentPocket r k d).toBytes = .ok bs)
    (hkind : ∀ g, s.handlers.get? r ≠ some (.download g)) (hrun : s.stopped = none) :
    ∃ t, App.step env s (.recv bs a amb) = some t ∧ Answered s t r k a :=
  recv_of_dispatch htable hresponses (Pocket.fromBytes_segmentPocket hbs) hrun fun pre =>
    wp_dispatch_segment htable (akcPocket_encodes_of_segment hbs) hkind hrun pre (some a)

end Arrives

-- ============================================================================
-- Uploads of the client
-- ============================================================================

/-- The Response of an accepted upload, and the handler it names. -/
structure Opener (s : Server) (l : Letter) : Prop where
  drawn : l.pocket.requestID ≤ s.app.lastRequestID
  kind : ∀ g, s.handlers.get? l.pocket.requestID ≠ some (.download g)
  address : ∀ g, s.handlers.get? l.pocket.requestID = some (.upload g) → g.clientAddress = l.dest

/-- What is known of the running command besides `Running`. -/
def OwnCommand (me : Addr) (air : List Letter) : CommandPhase → Prop
  | .uploading res u => u.Open ∧ (res.basicLayer.pocketSubType = .upload →
      ∃ l ∈ air, l.dest = me ∧ l.pocket.requestID = u.requestID ∧
        AcceptsUpload l.pocket u.segmentsAmount)
  | _ => True

/-- What is known of the world besides `WorldInv`. -/
structure Known (me : Addr) (w : World) : Prop where
  responses : ResponsesEncode w.server
  once : OnceInv w.server
  openers : ∀ l ∈ w.air, ∀ n, 0 < n → AcceptsUpload l.pocket n → Opener w.server l
  command : OwnCommand me w.air w.shell.phase

section Known

variable {s t : Server} {e : Event}

/-- No step makes a request id that was drawn one of a download. -/
theorem not_download_of_step (hs : AppInv s) (h : App.step env s e = some t) {r : Nat}
    (hdrawn : r ≤ s.app.lastRequestID) (hkind : ∀ g, s.handlers.get? r ≠ some (.download g)) :
    ∀ g, t.handlers.get? r ≠ some (.download g) := by
  intro g' hg'
  cases e with
  | timeout => exact hkind g' (step_timeout h ▸ hg')
  | recv data a amb =>
      obtain ⟨-, hrecv⟩ := step_recv h
      cases hrecv with
      | quiet tables log clientAddress stopped =>
          have hhandlers : t.handlers = s.handlers := congrArg Tables.handlers tables
          exact hkind g' (hhandlers ▸ hg')
      | turn decoded effect log resent clientAddress returned raised =>
          rcases effect.download_cases hs.server.tables hg' with ⟨g, hg, -⟩ | ⟨-, hnew, -⟩
          · exact hkind g hg
          · exact absurd (show r = s.app.lastRequestID + 1 from hnew) (by omega)
  | task i clk =>
      obtain ⟨task, task', result, hd, new, -, -, -, heff, rfl⟩ := (step_task h).effect
      obtain ⟨g, hg, -⟩ := heff.download_cases hs.server.tables (.task i clk) hg'
      exact hkind g hg

theorem Opener.step {l : Letter} (h : Opener s l) (hs : AppInv s)
    (hstep : App.step env s e = some t) : Opener t l where
  drawn := h.drawn.trans (step_grows hs hstep).last
  kind := not_download_of_step hs hstep h.drawn h.kind
  address g hg := by
    obtain ⟨g₀, hg₀, hext⟩ := (step_grows hs hstep).old _ g h.drawn hg
    rw [hext.clientAddress]
    exact h.address g₀ hg₀

/-- A turn that accepts an upload answers to the address of its handler. -/
theorem accepts_of_effect {T T' : Tables} {p : Pocket} {a : Addr} {ok : Bool} {new : List Action}
    (h : Effect env T p a ok T' new) {q : Pocket} {b : Addr} {n : Nat} (hn : 0 < n)
    (hq : .sent q b ∈ new) (haccepts : AcceptsUpload q n) :
    ∃ u : UploadRequestHandler, T'.handlers.get? q.requestID = some (.upload u) ∧
      u.clientAddress = b ∧ q.requestID = T'.lastRequestID := by
  have hcompletion : ∀ {u : UploadRequestHandler} {k : Nat} {part : List Action},
      part <+: completion u k → .sent q b ∉ part := by
    intro u k part hpart hmem
    have htype := haccepts.1
    rcases mem_completion (hpart.subset hmem) with rfl | rfl <;> cases htype
  cases h with
  | refused request drawn replies =>
      obtain ⟨-, -, -, -, layer, hlayer, hok⟩ := replies _ hq
      obtain ⟨-, -, layer', hlayer', h, rfl⟩ := haccepts
      rw [hlayer, Option.some_inj] at hlayer'
      rw [← hlayer', (hok (hlayer'.symm ▸ h)).2.2] at hn
      exact absurd hn (Nat.lt_irrefl 0)
  | @opened g res request opened =>
      obtain ⟨rfl, rfl⟩ := Action.sent.inj (List.mem_singleton.mp hq)
      obtain ⟨hid, haddress⟩ := opened.base_eq
      obtain ⟨layer, storagePath, data, dataSize, -, -, -, -, hshape⟩ := opened.shape
      have hrid : q.requestID = T.lastRequestID + 1 := by rw [Pocket.requestID, opened.layer]
      have hsub : p.basicLayer.pocketSubType = .upload := by
        rw [← haccepts.2.1, opened.layer]
      rw [openedHandler, if_pos hsub] at hshape
      subst hshape
      refine ⟨_, ?_, haddress, hrid⟩
      rw [hrid, ← hid]
      exact Dict.get?_set_self _ _ _
  | stored type found layer part length finished => exact absurd hq (hcompletion part)
  | stuck type found layer full part closed => exact absurd hq (hcompletion part)
  | completed type found layer full => exact absurd hq (hcompletion (List.prefix_refl _))
  | unknown other absent =>
      obtain ⟨rfl, -⟩ := Action.sent.inj (List.mem_singleton.mp hq)
      have htype := haccepts.1
      cases htype
  | _ => cases hq

/-- An accepted upload is answered to the address of its handler. -/
theorem openers_of_step (hs : AppInv s) (hstep : App.step env s e = some t) :
    ∃ new, t.app.log = s.app.log ++ new ∧ ∀ l : Letter, .sent l.pocket l.dest ∈ new →
      ∀ n, 0 < n → AcceptsUpload l.pocket n → Opener t l := by
  cases e with
  | timeout =>
      refine ⟨[], ?_, fun l hl => (by cases hl)⟩
      rw [step_timeout hstep, List.append_nil]
  | recv data a amb =>
      obtain ⟨-, hrecv⟩ := step_recv hstep
      cases hrecv with
      | quiet tables log clientAddress stopped =>
          refine ⟨[], ?_, fun l hl => (by cases hl)⟩
          rw [log, List.append_nil]
      | @turn p ok pre new decoded effect log resent clientAddress returned raised =>
          rw [List.append_assoc] at log
          refine ⟨pre ++ new, log, fun l hl n hn haccepts => ?_⟩
          rcases List.mem_append.mp hl with hl | hl
          · -- a Response sent again is that of a download
            obtain ⟨k, res, g, hres, -, heq⟩ := resent _ hl
            obtain ⟨hpocket, -⟩ := Action.sent.inj heq
            obtain ⟨sub, hsub, hbasic⟩ := (hs.log.responses k _ hres).basic
            have hupload := haccepts.2.1
            rw [hpocket, hbasic] at hupload
            exact absurd hupload hsub
          · obtain ⟨u, hu, haddress, hdrawn⟩ := accepts_of_effect effect hn hl haccepts
            have hu : t.handlers.get? l.pocket.requestID = some (.upload u) := hu
            refine ⟨hdrawn.le, fun g hg => ?_, fun g hg => ?_⟩
            · rw [hu] at hg
              cases hg
            · rw [hu, Option.some_inj, Handler.upload.injEq] at hg
              exact hg ▸ haddress
  | task i clk =>
      obtain ⟨task, task', result, hd, new, -, -, -, heff, rfl⟩ := (step_task hstep).effect
      refine ⟨new, rfl, fun l hl n hn haccepts => ?_⟩
      have htype := haccepts.1
      cases heff with
      | sent phase going found window room address encoded =>
          rw [(Action.sent.inj (List.mem_singleton.mp hl)).1] at htype
          cases htype
      | closed phase found =>
          rw [(Action.sent.inj (List.mem_singleton.mp hl)).1] at htype
          cases htype
      | _ => cases hl

end Known

theorem OwnCommand.mono {air air' : List Letter} {phase : CommandPhase}
    (h : OwnCommand me air phase) (hair : air ⊆ air') : OwnCommand me air' phase := by
  cases phase with
  | uploading res u =>
      refine ⟨h.1, fun hsub => ?_⟩
      obtain ⟨l, hl, hrest⟩ := h.2 hsub
      exact ⟨l, hair hl, hrest⟩
  | _ => trivial

section Moves

variable {w w' : World}

/-- A move of the client on which only letters to it are delivered. -/
theorem Known.client (h : Known me w) (hinv : WorldInv me w) {m : Move} {c : Shell}
    (hstep : w.shell.step growth m = some c)
    (hletter : ∀ data clk, m = .receive (.datagram data) clk →
      ∃ l ∈ w.air, l.dest = me ∧ data = l.pocket.datagram) :
    Known me { w with shell := c } := by
  refine ⟨h.responses, h.once, h.openers, ?_⟩
  have hcommand := h.command
  unfold Shell.step at hstep
  split at hstep
  · cases hstep
  · next command hphase =>
      split at hstep
      · next input clk =>
          cases hstep
          have hbegan := began_of_receive command input clk
          dsimp only
          generalize command.receive input clk = phase at hbegan ⊢
          cases hbegan with
          | uploading received decoded responseLayer ok =>
              cases received
              obtain ⟨l, hl, hdest, rfl⟩ := hletter _ _ rfl
              obtain ⟨hbasic, htype, hresponse⟩ := hinv.response hl decoded responseLayer ok
              refine ⟨Upload.open_start, fun hsub => ⟨l, hl, hdest, ?_, htype, hbasic ▸ hsub, _,
                hresponse.responseLayer, ok, rfl⟩⟩
              simp only [Pocket.requestID, hbasic]
          | _ => trivial
      · cases hstep
  · next res u hphase =>
      obtain ⟨u', hu', rfl⟩ := Option.map_eq_some_iff.mp hstep
      rw [hphase] at hcommand
      obtain ⟨hopen, hown⟩ := hcommand
      obtain ⟨hr, -, hn, -⟩ := (Upload.stepped_of_step hu').job
      exact ⟨hopen.step hu', by rw [hr, hn]; exact hown⟩
  · obtain ⟨d', -, rfl⟩ := Option.map_eq_some_iff.mp hstep
    trivial

theorem Known.server {s : Server} {e : Event} (h : Known me w) (hinv : WorldInv me w)
    (hstep : App.step env w.server e = some s) :
    Known me { w with
      server := s
      air := w.air ++ letters (about w.server e)
        (s.app.log.drop w.server.app.log.length) } where
  responses := h.responses.step hstep
  once := h.once.step hstep
  openers l hl n hn haccepts := by
    rcases List.mem_append.mp hl with hl | hl
    · exact (h.openers l hl n hn haccepts).step hinv.app hstep
    · obtain ⟨new, hlog, hopeners⟩ := openers_of_step hinv.app hstep
      rw [hlog, List.drop_left] at hl
      exact hopeners l (mem_letters.mp hl).1 n hn haccepts
  command := h.command.mono (List.subset_append_left _ _)

theorem Known.step (h : Known me w) (hinv : WorldInv me w) {e : WorldEvent}
    (hstep : World.step env growth me w e = some w') : Known me w' := by
  cases e with
  | server e =>
      obtain ⟨s, hs, rfl⟩ := Option.map_eq_some_iff.mp hstep
      exact h.server hinv hs
  | command options c =>
      cases hstep
      refine ⟨h.responses, h.once, h.openers, ?_⟩
      show OwnCommand me w.air (w.shell.begin options c).phase
      unfold Shell.begin
      split <;> trivial
  | deliver i clk =>
      simp only [World.step] at hstep
      split at hstep
      · next l hl =>
          split at hstep
          · next hdest =>
              obtain ⟨c, hc, rfl⟩ := Option.map_eq_some_iff.mp hstep
              refine h.client hinv hc fun data clk' hm => ?_
              cases hm
              exact ⟨l, List.mem_of_getElem? hl, hdest, rfl⟩
          · cases hstep
      · cases hstep
  | proceed now =>
      obtain ⟨c, hc, rfl⟩ := Option.map_eq_some_iff.mp hstep
      exact h.client hinv hc fun data clk hm => by cases hm
  | timeout clk =>
      obtain ⟨c, hc, rfl⟩ := Option.map_eq_some_iff.mp hstep
      exact h.client hinv hc fun data clk hm => by cases hm
  | osError clk =>
      obtain ⟨c, hc, rfl⟩ := Option.map_eq_some_iff.mp hstep
      exact h.client hinv hc fun data clk hm => by cases hm

end Moves

theorem known_start (fs : FileTree) : Known me { server := Server.init fs } where
  responses := fun _ _ hres => by cases hres
  once := onceInv_init fs
  openers := fun _ hl => by cases hl
  command := trivial

/-- What is known of every world reached. -/
theorem known_of_exec {fs : FileTree} {es : List WorldEvent} {w : World}
    (hnet : AllSteps (World.step env growth me) (Network me) { server := Server.init fs } es)
    (hanswers : AllSteps (World.step env growth me) Answers { server := Server.init fs } es)
    (hrun : exec (World.step env growth me) { server := Server.init fs } es = some w) :
    WorldInv me w ∧ Known me w :=
  exec_invariant_of (fun w => WorldInv me w ∧ Known me w)
    (fun w e => Network me w e ∧ Answers w e) ⟨worldInv_start fs, known_start fs⟩
    (fun _ _ _ hw hC ht => ⟨hw.1.step hC.1 hC.2 ht, hw.2.step hw.1 ht⟩)
    (fun es₁ e es₂ t hes ht => ⟨hnet es₁ e es₂ t hes ht, hanswers es₁ e es₂ t hes ht⟩) hrun

end Net
end NetworkingFinal
