/-
  NetworkingFinal.Client.Upload

  What one step of `upload_data` does: `Upload.Stepped` says which segment ids it
  may drop from the windows, which datagrams it may send, and what ends it;
  `stepped_of_step` proves it of every step.
-/
import NetworkingFinal.Client.Rudp

namespace NetworkingFinal
namespace Client

open Py Ftp

namespace Upload

/-- The ids that are not acknowledged yet. -/
def window (u : Upload) : List Nat := u.windowToSend ++ u.windowSending

/-- The data a move makes `upload_data` look at: the datagram it receives, or, on a
    timeout, the last one. -/
def Handles (u : Upload) (m : Move) (data : Bytes) : Prop :=
  match m with
  | .receive (.datagram data') _ => data' = data
  | .receive .timeout _ => u.data = some data
  | _ => False

/-- The move makes `upload_data` handle this pocket. -/
def HandlesPocket (u : Upload) (m : Move) (p : Pocket) : Prop :=
  ∃ data, u.Handles m data ∧ Pocket.fromBytes data = .ok p

/-- Nothing that stays fixed during an upload differs. -/
structure SameJob (u u' : Upload) : Prop where
  requestID : u'.requestID = u.requestID
  singleSegmentSize : u'.singleSegmentSize = u.singleSegmentSize
  segmentsAmount : u'.segmentsAmount = u.segmentsAmount
  body : u'.body = u.body

/-- After the step `m` from `u`. -/
structure Stepped (u : Upload) (m : Move) (u' : Upload) : Prop where
  job : SameJob u u'
  window : ∀ k ∈ u'.window, k ∈ u.window
  sent : u'.sent = u.sent ∨ ∃ k ∈ u.window, ∃ bs,
    (u.segmentPocket k).toBytes = .ok bs ∧ u'.sent = u.sent ++ [bs]
  dropped : ∀ k ∈ u.window, k ∉ u'.window → ∃ p, u.HandlesPocket m p ∧ p.akcLayer = some ⟨k⟩
  ended : u'.uploading = u.uploading ∨
    ∃ p, u.HandlesPocket m p ∧ p.basicLayer.pocketType = .close
  returned : u'.phase = .returned → u'.uploading = false
  data : u'.data = u.data ∨ ∃ data clk, m = .receive (.datagram data) clk ∧ u'.data = some data

variable {u u' : Upload} {m : Move} {clk : Readings} {growth : Int → Nat → Nat}

/-- A step that leaves the windows and the socket alone. -/
theorem stepped_of_same (hjob : SameJob u u') (hwindow : u'.window = u.window)
    (hsent : u'.sent = u.sent) (hended : u'.uploading = u.uploading)
    (hreturned : u'.phase = .returned → u'.uploading = false)
    (hdata : u'.data = u.data ∨ ∃ data clk, m = .receive (.datagram data) clk ∧
      u'.data = some data) : Stepped u m u' where
  job := hjob
  window _ hk := hwindow ▸ hk
  sent := Or.inl hsent
  dropped _ hk hnot := absurd (hwindow ▸ hk) hnot
  ended := Or.inl hended
  returned := hreturned
  data := hdata

@[simp] theorem mem_window_leaveRefresh (k : Nat) :
    k ∈ (leaveRefresh growth clk u).window ↔ k ∈ u.window := by
  simp [leaveRefresh, window, or_comm]

/-- What handling a pocket does. -/
theorem stepped_of_handlePocket {p : Pocket} {v : Upload} (hphase : u.phase = .refresh)
    (hp : u.HandlesPocket m p) (hv : ∃ data decoded, v = { u with data, decoded } ∧
      (data = u.data ∨ ∃ bs clk, m = .receive (.datagram bs) clk ∧ data = some bs)) :
    Stepped u m (handlePocket growth clk v p) := by
  obtain ⟨data, decoded, rfl, hdata⟩ := hv
  unfold handlePocket
  split
  · next hclose =>
      refine ⟨⟨rfl, rfl, rfl, rfl⟩, fun k hk => ?_, Or.inl rfl, fun k hk hnot => ?_,
        Or.inr ⟨p, hp, hclose⟩, fun _ => rfl, ?_⟩
      · rw [mem_window_leaveRefresh] at hk
        exact hk
      · rw [mem_window_leaveRefresh] at hnot
        exact absurd hk hnot
      · exact hdata
  · split
    · next layer hlayer =>
        refine ⟨⟨rfl, rfl, rfl, rfl⟩, fun k hk => ?_, Or.inl rfl, fun k hk hnot => ?_,
          Or.inl rfl, fun hret => ?_, hdata⟩
        · simp only [window, List.mem_append] at hk ⊢
          exact hk.imp List.mem_of_mem_erase List.mem_of_mem_erase
        · -- only the acknowledged id is dropped
          have hk' : k = layer.segmentID := by
            by_contra hne
            simp only [window, List.mem_append, List.mem_erase_of_ne hne] at hk hnot
            exact hnot hk
          refine ⟨p, hp, ?_⟩
          rw [hlayer, hk']
        · rw [hphase] at hret
          cases hret
    · refine stepped_of_same ⟨rfl, rfl, rfl, rfl⟩ rfl rfl rfl (fun hret => ?_) hdata
      rw [hphase] at hret
      cases hret

theorem stepped_of_handleData {data : Option Bytes} (hphase : u.phase = .refresh)
    (hhandles : ∀ bs, data = some bs → u.Handles m bs)
    (hdata : data = u.data ∨ ∃ bs clk, m = .receive (.datagram bs) clk ∧ data = some bs) :
    Stepped u m (handleData growth clk { u with data }) := by
  unfold handleData
  cases data with
  | none =>
      exact stepped_of_same ⟨rfl, rfl, rfl, rfl⟩ rfl rfl rfl (fun hret => by cases hret) hdata
  | some bs =>
      dsimp only
      split
      · next p hp =>
          exact stepped_of_handlePocket hphase ⟨bs, hhandles bs rfl, hp⟩ ⟨_, _, rfl, hdata⟩
      · exact stepped_of_same ⟨rfl, rfl, rfl, rfl⟩ rfl rfl rfl (fun hret => by cases hret) hdata

theorem stepped_of_head {now : Int} (hphase : u.phase = .head) :
    Stepped u (.proceed now) (head now u) := by
  have hpaused : Stepped u (.proceed now) { u with phase := .refresh } :=
    stepped_of_same ⟨rfl, rfl, rfl, rfl⟩ rfl rfl rfl (fun hret => by cases hret) (Or.inl rfl)
  unfold head
  split
  · next hover =>
      exact stepped_of_same ⟨rfl, rfl, rfl, rfl⟩ rfl rfl rfl (fun _ => hover) (Or.inl rfl)
  · next hgoing =>
      split
      · next segmentID windowToSend hwindow =>
          split
          · have hmem : ∀ k, k ∈ windowToSend ++ (u.windowSending ++ [segmentID]) ↔
                k ∈ u.window := by
              intro k
              simp only [window, hwindow, List.mem_append, List.mem_cons, List.not_mem_nil,
                or_false]
              tauto
            have hfirst : segmentID ∈ u.window := by simp [window, hwindow]
            unfold sendto
            split
            · next bs hbs =>
                exact ⟨⟨rfl, rfl, rfl, rfl⟩, fun k hk => (hmem k).mp hk,
                  Or.inr ⟨segmentID, hfirst, bs, hbs, rfl⟩,
                  fun k hk hnot => absurd ((hmem k).mpr hk) hnot, Or.inl rfl,
                  (fun hret => by rw [hphase] at hret; cases hret), Or.inl rfl⟩
            · exact ⟨⟨rfl, rfl, rfl, rfl⟩, fun k hk => (hmem k).mp hk, Or.inl rfl,
                fun k hk hnot => absurd ((hmem k).mpr hk) hnot, Or.inl rfl,
                (fun hret => by cases hret), Or.inl rfl⟩
          · exact hpaused
      · exact hpaused

theorem stepped_of_step (h : step growth u m = some u') : Stepped u m u' := by
  cases m with
  | proceed now =>
      simp only [step, Option.ite_none_right_eq_some, Option.some_inj] at h
      rw [← h.2]
      exact stepped_of_head h.1
  | receive input clk =>
      simp only [step, Option.ite_none_right_eq_some, Option.some_inj] at h
      obtain ⟨hphase, rfl⟩ := h
      have hfailed : ∀ e, Stepped u (.receive input clk) { u with phase := .failed e } := fun e =>
        stepped_of_same ⟨rfl, rfl, rfl, rfl⟩ rfl rfl rfl (fun hret => by cases hret) (Or.inl rfl)
      cases input with
      | datagram data =>
          refine stepped_of_handleData hphase (fun bs hbs => ?_) (Or.inr ⟨data, clk, rfl, rfl⟩)
          exact Option.some.inj hbs
      | osError => exact hfailed _
      | timeout =>
          unfold receive
          dsimp only
          split
          · refine ⟨⟨rfl, rfl, rfl, rfl⟩, fun k hk => ?_, Or.inl rfl, fun k hk hnot => ?_,
              Or.inl rfl, (fun hret => by cases hret), Or.inl rfl⟩
            · rw [mem_window_leaveRefresh] at hk
              exact hk
            · rw [mem_window_leaveRefresh] at hnot
              exact absurd hk hnot
          · exact stepped_of_handleData hphase (fun _ hbs => hbs) (Or.inl rfl)

end Upload

end Client
end NetworkingFinal
