/-
  NetworkingFinal.Net.Stall

  A download that another client stops.

  A worker sends the segments of its download to the address of the datagram that the
  main loop received last.  A client that collects segments sends nothing but the
  acknowledgements of what it gets.  So when the last datagram came from elsewhere, and
  what is in flight is lost, neither side ever hears of the other again
  (`download_stalls`).
-/
import NetworkingFinal.Net.Download

namespace NetworkingFinal
namespace Net

open Py Ftp App Client Lib

variable {env : Env} {a : Addr}

/-- The action sends this datagram to `a`. -/
def SendsTo (a : Addr) (data : Bytes) : Action → Prop
  | .sent q b => b = a ∧ q.toBytes = .ok data
  | .postUpload _ _ => False

instance (a : Addr) (data : Bytes) : (x : Action) → Decidable (SendsTo a data x)
  | .sent q b => inferInstanceAs (Decidable (b = a ∧ q.toBytes = .ok data))
  | .postUpload _ _ => isFalse fun h => h

/-- What comes from the client's address `a` was sent by the client, what it receives was
    sent to this address, and of what was in flight in `w₀` nothing arrives. -/
def Parted (a : Addr) (w₀ w : Pair Download) : PairEvent → Prop
  | .server (.recv data b _) => b = a → data ∈ w.client.sent.drop w₀.client.sent.length
  | .client (.receive (.datagram data) _) =>
      ∃ x ∈ w.server.app.log.drop w₀.server.app.log.length, SendsTo a data x
  | _ => True

instance (a : Addr) (w₀ w : Pair Download) : (e : PairEvent) → Decidable (Parted a w₀ w e)
  | .server (.recv data b _) =>
      inferInstanceAs (Decidable (b = a → data ∈ w.client.sent.drop w₀.client.sent.length))
  | .client (.receive (.datagram data) _) => inferInstanceAs (Decidable
      (∃ x ∈ w.server.app.log.drop w₀.server.app.log.length, SendsTo a data x))
  | .server .timeout => isTrue trivial
  | .server (.task _ _) => isTrue trivial
  | .client (.proceed _) => isTrue trivial
  | .client (.receive .timeout _) => isTrue trivial
  | .client (.receive .osError _) => isTrue trivial

/-- What a step of the process sends to an address that it heard nothing from is no
    Segment. -/
theorem not_segment_of_step {s t : Server} {e : Event} (hs : AppInv s)
    (hstep : App.step env s e = some t) (hother : s.clientAddress ≠ some a)
    (hfrom : ∀ data amb, e ≠ .recv data a amb) :
    t.clientAddress ≠ some a ∧ ∃ new, t.app.log = s.app.log ++ new ∧
      ∀ q, .sent q a ∈ new → q.basicLayer.pocketType ≠ .segment := by
  cases e with
  | timeout =>
      rw [step_timeout hstep]
      exact ⟨hother, [], (List.append_nil _).symm, fun q hq => by cases hq⟩
  | recv data b amb =>
      have hb : some b ≠ some a := by
        rintro heq
        cases heq
        exact hfrom data amb rfl
      obtain ⟨-, hrecv⟩ := step_recv hstep
      cases hrecv with
      | quiet tables log clientAddress stopped =>
          refine ⟨clientAddress ▸ hb, [], ?_, fun q hq => by cases hq⟩
          rw [log, List.append_nil]
      | @turn p ok pre new decoded effect log resent clientAddress returned raised =>
          rw [List.append_assoc] at log
          refine ⟨clientAddress ▸ hb, pre ++ new, log, fun q hq => ?_⟩
          rcases List.mem_append.mp hq with hq | hq
          · obtain ⟨k, res, g, hres, -, heq⟩ := resent _ hq
            rw [(Action.sent.inj heq).1, (hs.log.responses k _ hres).type]
            exact PocketType.noConfusion
          · exact effect.not_segment hq
  | task i clk =>
      obtain ⟨task, task', result, hd, new, -, -, -, heff, rfl⟩ := (step_task hstep).effect
      refine ⟨hother, new, rfl, fun q hq => ?_⟩
      cases heff with
      | sent phase going found window room address encoded =>
          -- the segment goes where the last datagram came from
          rw [(Action.sent.inj (List.mem_singleton.mp hq)).2] at hother
          exact absurd address hother
      | closed phase found =>
          rw [(Action.sent.inj (List.mem_singleton.mp hq)).1]
          exact PocketType.noConfusion
      | _ => cases hq

/-- Since `w₀` the client collects segments, and gets none. -/
structure Stalled (a : Addr) (w₀ w : Pair Download) : Prop where
  app : AppInv w.server
  address : w.server.clientAddress ≠ some a
  phase : w.client.phase = .collect ∨ ∃ e, w.client.phase = .failed e
  needed : w.client.neededSegments = w₀.client.neededSegments
  sent : w.client.sent = w₀.client.sent
  length : w₀.server.app.log.length ≤ w.server.app.log.length
  log : ∀ q, .sent q a ∈ w.server.app.log.drop w₀.server.app.log.length →
    q.basicLayer.pocketType ≠ .segment

section Stalled

variable {w₀ w w' : Pair Download}

theorem Stalled.server (h : Stalled a w₀ w) {e : Event} (hparted : Parted a w₀ w (.server e))
    (hstep : Pair.step env Download.step w (.server e) = some w') : Stalled a w₀ w' := by
  obtain ⟨t, ht, rfl⟩ := Pair.step_server hstep
  have hfrom : ∀ data amb, e ≠ .recv data a amb := by
    rintro data amb rfl
    have hdrop := hparted rfl
    rw [h.sent, List.drop_length] at hdrop
    cases hdrop
  obtain ⟨haddress, new, hlog, hnew⟩ := not_segment_of_step h.app ht h.address hfrom
  refine ⟨h.app.step ht, haddress, h.phase, h.needed, h.sent, ?_, fun q hq => ?_⟩
  · rw [hlog, List.length_append]
    exact h.length.trans (Nat.le_add_right _ _)
  · rw [hlog, List.drop_append_of_le_length h.length] at hq
    rcases List.mem_append.mp hq with hq | hq
    · exact h.log q hq
    · exact hnew q hq

/-- A pocket that is no Segment is passed over. -/
theorem handlePocket_of_other {d : Download} {p : Pocket} (hmissing : d.neededSegments ≠ [])
    (hp : p.basicLayer.pocketType ≠ .segment) :
    d.handlePocket p = { d with phase := .collect } := by
  have hcollecting : d.collecting = .collect := if_neg hmissing
  unfold Download.handlePocket
  split
  · rw [hcollecting]
  · rw [if_pos hp, hcollecting]

theorem Stalled.client (h : Stalled a w₀ w) (hmissing : w₀.client.neededSegments ≠ []) {m : Move}
    (hparted : Parted a w₀ w (.client m))
    (hstep : Pair.step env Download.step w (.client m) = some w') : Stalled a w₀ w' := by
  obtain ⟨d, hd, rfl⟩ := Pair.step_client hstep
  have hnext : ∀ phase, (phase = .collect ∨ ∃ e, phase = .failed e) →
      Stalled a w₀ { w with client := { w.client with phase } } := fun phase hphase =>
    ⟨h.app, h.address, hphase, h.needed, h.sent, h.length, h.log⟩
  rcases h.phase with hcollect | ⟨e, hfailed⟩
  · cases m with
    | proceed now => simp [Download.step, hcollect] at hd
    | receive input clk =>
        simp only [Download.step, hcollect, Option.some_inj] at hd
        subst hd
        cases input with
        | timeout => exact hnext _ (Or.inl rfl)
        | osError => exact hnext _ (Or.inl rfl)
        | datagram data =>
            simp only [Download.receive]
            split
            · next p hp =>
                obtain ⟨x, hx, hsent⟩ := hparted
                cases x with
                | postUpload r body => exact hsent.elim
                | sent q b =>
                    obtain ⟨rfl, hbytes⟩ := hsent
                    have hother : p.basicLayer.pocketType ≠ .segment := by
                      rw [Pocket.basicLayer_of_fromBytes hbytes hp]
                      exact h.log q hx
                    rw [handlePocket_of_other (h.needed ▸ hmissing) hother]
                    exact hnext _ (Or.inl rfl)
            · exact hnext _ (Or.inr ⟨_, rfl⟩)
  · cases m <;> simp [Download.step, hfailed] at hd

end Stalled

/-- **One datagram from elsewhere stops a download**: while the client collects segments
    and the main loop heard from another address last, when what is in flight is lost no
    segment reaches the client any more, it sends nothing, and `download_data` does not
    return. -/
theorem download_stalls {fs : FileTree} {es : List Event} {es' : List PairEvent}
    {w w' : Pair Download} (hreach : exec (App.step env) (Server.init fs) es = some w.server)
    (hcollect : w.client.phase = .collect) (hmissing : w.client.neededSegments ≠ [])
    (hother : w.server.clientAddress ≠ some a)
    (hparted : AllSteps (Pair.step env Download.step) (Parted a w) w es')
    (hrun : exec (Pair.step env Download.step) w es' = some w') :
    w'.client.phase ≠ .returned ∧ w'.client.neededSegments = w.client.neededSegments ∧
      w'.client.sent = w.client.sent := by
  have hstart : Stalled a w w := by
    refine ⟨appInv_of_exec hreach, hother, Or.inl hcollect, rfl, rfl, Nat.le_refl _, fun q hq => ?_⟩
    rw [List.drop_length] at hq
    cases hq
  have hend : Stalled a w w' := by
    refine exec_invariant_of (Stalled a w) (Parted a w) hstart (fun w₁ e w₂ hw hC ht => ?_)
      hparted hrun
    cases e with
    | server e => exact hw.server hC ht
    | client m => exact hw.client hmissing hC ht
  refine ⟨fun hret => ?_, hend.needed, hend.sent⟩
  rcases hend.phase with hphase | ⟨e, hphase⟩
  · rw [hphase] at hret
    cases hret
  · rw [hphase] at hret
    cases hret

/-- A download of two segments, whose first one is sent before a pocket of another client
    arrives. -/
def interruptedRun : List Event :=
  [.recv downloadRequest.datagram (['c'], 8001) default,
   .recv (readyPocket 1).datagram (['c'], 8001) default,
   .task 0 ⟨0, 0, 0⟩, .task 0 ⟨0, 0, 0⟩,
   .recv (readyPocket 9).datagram (['d'], 8002) default]

/-- The client of this download, when it has got the first segment. -/
def collectingClient : Download where
  requestID := 1
  segmentsAmount := 2
  neededSegments := [1]
  segments := [1 :: List.replicate 1499 0, []]
  phase := .collect
  sent := [(readyPocket 1).datagram, (akcPocket 1 0).datagram]

/-- The second segment is sent, and the client's wait for it is over. -/
def strandedEvents : List PairEvent :=
  [.server (.task 0 ⟨0, 0, 0⟩), .client (.receive .timeout ⟨0, 0, 0⟩)]

theorem download_stalls_interruptedRun :
    ∃ s w, exec (App.step default)
        (Server.init (installedWith default ['a'] (List.replicate 1500 0))) interruptedRun =
          some s ∧
      exec (Pair.step default Download.step) ⟨s, collectingClient⟩ strandedEvents = some w ∧
      w.server.app.log.getLast? = some (.sent (segmentPocket 1 1 [0]) (['d'], 8002)) ∧
      w.client.phase ≠ .returned ∧ w.client.neededSegments = [1] := by
  have hcheck : (exec (App.step default)
      (Server.init (installedWith default ['a'] (List.replicate 1500 0))) interruptedRun).map
        (fun s => (s.clientAddress,
          (exec (Pair.step default Download.step) ⟨s, collectingClient⟩ strandedEvents).map
            (fun w => w.server.app.log.getLast?),
          decide (AllSteps (Pair.step default Download.step)
            (Parted (['c'], 8001) ⟨s, collectingClient⟩) ⟨s, collectingClient⟩ strandedEvents))) =
      some (some (['d'], 8002),
        some (some (.sent (segmentPocket 1 1 [0]) (['d'], 8002))), true) := by
    decide +kernel
  obtain ⟨s, hs, hfacts⟩ := Option.map_eq_some_iff.mp hcheck
  simp only [Prod.mk.injEq, decide_eq_true_eq] at hfacts
  obtain ⟨haddress, hlast, hparted⟩ := hfacts
  obtain ⟨w, hw, hsent⟩ := Option.map_eq_some_iff.mp hlast
  have hother : s.clientAddress ≠ some (['c'], 8001) := by
    rw [haddress]
    decide
  obtain ⟨hret, hneeded, -⟩ := download_stalls (w := ⟨s, collectingClient⟩) hs rfl
    (List.cons_ne_nil _ _) hother hparted hw
  exact ⟨s, w, hs, hw, hsent, hret, hneeded⟩

end Net
end NetworkingFinal
