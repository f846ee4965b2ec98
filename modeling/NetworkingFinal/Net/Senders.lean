/-
  NetworkingFinal.Net.Senders

  The windows of the two senders, `upload_data` and `downloading_task`, and the
  slices they send.
-/
import NetworkingFinal.App.Window
import NetworkingFinal.Client.Window
import NetworkingFinal.Net.Pair

namespace NetworkingFinal
namespace Net

open Py Ftp App Client Lib

/-- The slice of the body that the segment `k` carries. -/
def sliceAt (body : Bytes) (singleSegmentSize k : Nat) : Bytes :=
  slice body (k * singleSegmentSize) (min ((k + 1) * singleSegmentSize) body.length)

/-- The slices of the ids below `segmentsAmount` are the body, and none is empty. -/
structure Cut (body : Bytes) (singleSegmentSize segmentsAmount : Nat) : Prop where
  whole : (List.range segmentsAmount).flatMap (sliceAt body singleSegmentSize) = body
  nonempty : ∀ k < segmentsAmount, sliceAt body singleSegmentSize k ≠ []

/-- The windows of a sender that has handled the ACKs of `acked`. -/
structure SenderWindow (segmentsAmount : Nat) (acked : List Nat) (cwnd : Nat)
    (windowSending windowToSend : List Nat) : Prop where
  increasing : (windowSending ++ windowToSend).Pairwise (· < ·)
  ids : windowSending ++ windowToSend = (List.range segmentsAmount).filter (· ∉ acked)
  room : windowSending.length ≤ cwnd

theorem senderWindow_of_inv {segmentsAmount limit cwnd : Nat} {acked sending toSend : List Nat}
    (h : WindowInv (List.range segmentsAmount) acked limit sending toSend)
    (hroom : sending.length ≤ cwnd) : SenderWindow segmentsAmount acked cwnd sending toSend where
  increasing := h.pairwise List.pairwise_lt_range
  ids := h.ids
  room := hroom

theorem segmentOf_eq_sliceAt (body : Bytes) (size : Nat) :
    segmentOf body body.length size = sliceAt body size :=
  funext fun k => segmentOf_eq_slice body size k

/-- The sizes of `create_handler` cut the body into slices that are not empty. -/
theorem cut_segmentsAmountOf {body : Bytes} {size : Nat} (hpos : 0 < size)
    (hsize : body.length < 2 ^ 53) : Cut body size (segmentsAmountOf body.length size) where
  whole := by
    have hcover : body.length ≤ segmentsAmountOf body.length size * size := by
      refine le_segmentsAmountOf_mul hpos ?_
      have hone : 2 ^ 54 * 1 ≤ 2 ^ 54 * size := Nat.mul_le_mul_left _ hpos
      omega
    rw [← segmentOf_eq_sliceAt]
    exact flatMap_segmentOf hcover
  nonempty k hk := by
    have hlt := mul_lt_of_lt_segmentsAmountOf hpos hsize hk
    have hnext : k * size < (k + 1) * size := Nat.mul_lt_mul_of_pos_right (Nat.lt_succ_self k) hpos
    have hlen : (sliceAt body size k).length ≠ 0 := by
      rw [sliceAt, length_slice]
      omega
    exact fun hnil => hlen (congrArg List.length hnil)

/-- An upload of `body` in segments of `size`, with what it has sent. -/
structure UploadWindow (requestID size : Nat) (body : Bytes) (acked : List Nat) (u : Upload) :
    Prop where
  window : SenderWindow (segmentsAmountOf body.length size) acked u.cwnd u.windowSending
    u.windowToSend
  sent : ∀ bs ∈ u.sent, ∃ k < segmentsAmountOf body.length size,
    (segmentPocket requestID k (sliceAt body size k)).toBytes = .ok bs
  cut : Cut body size (segmentsAmountOf body.length size)

/-- The downloads of a process after the events `es`: the windows at the head of
    every task's loop, the Segments sent, and the slices of every download. -/
structure DownloadWindows (env : Env) (fs : FileTree) (es : List Event) (s : Server) : Prop where
  window : ∀ t ∈ s.tasks, t.phase = .head → ∃ g,
    s.handlers.get? t.key = some (.download g) ∧
    t.singleSegmentSize = g.segmentSize env ∧
    t.segmentsAmount = segmentsAmountOf g.data.length t.singleSegmentSize ∧
    SenderWindow t.segmentsAmount (ackedIn env fs es t.key) t.cwnd g.windowSending g.windowToSend
  sent : ∀ p a, .sent p a ∈ s.app.log → p.basicLayer.pocketType = .segment →
    ∃ es₁ es₂ u g, es = es₁ ++ es₂ ∧ exec (App.step env) (Server.init fs) es₁ = some u ∧
      u.handlers.get? p.requestID = some (.download g) ∧
      ∃ k < segmentsAmountOf g.data.length (g.segmentSize env),
        p = segmentPocket p.requestID k (sliceAt g.data (g.segmentSize env) k)
  cut : ∀ k g, s.handlers.get? k = some (.download g) → g.data ≠ [] ∧
    (g.data.length < 2 ^ 53 →
      Cut g.data (g.segmentSize env) (segmentsAmountOf g.data.length (g.segmentSize env)))

/-- **The windows of both senders.**  Over every run of `upload_data` with the sizes
    of an accepted request, and of the process with its download tasks. -/
theorem sender_window (env : Env) :
    (∀ (growth : Int → Nat → Nat) (res : Pocket) (body : Bytes) (maxSingleSegmentSize : Nat)
        (now : Int) (ms : List Move) (u₀ u : Upload),
      let size := segmentSize env maxSingleSegmentSize
      body.length < 2 ^ 53 →
      Upload.start (okResponse res body.length (segmentsAmountOf body.length size) size) body
        now = .ok u₀ →
      exec (Upload.step growth) u₀ ms = some u →
      UploadWindow res.requestID size body (observed (Upload.step growth) Upload.acks u₀ ms) u) ∧
    ∀ (fs : FileTree) (es : List Event) (s : Server),
      exec (App.step env) (Server.init fs) es = some s → DownloadWindows env fs es s := by
  constructor
  · intro growth res body maxSingleSegmentSize now ms u₀ u size hsize hstart hexec
    have hwin := Upload.windowed_of_exec hstart hexec
    have hjob := Upload.sameJob_of_exec hexec
    cases hstart
    have hamount : u.segmentsAmount = segmentsAmountOf body.length size := hjob.segmentsAmount
    refine ⟨senderWindow_of_inv (hamount ▸ hwin.window) hwin.window.room, fun bs hbs => ?_,
      cut_segmentsAmountOf (segmentSize_pos env _) hsize⟩
    obtain ⟨k, hk, hbytes⟩ := hwin.sent bs hbs
    refine ⟨k, hamount ▸ hk, ?_⟩
    rw [Upload.segmentPocket, hjob.requestID, hjob.singleSegmentSize, hjob.body,
      segmentOf_eq_sliceAt] at hbytes
    exact hbytes
  · intro fs es s hexec
    have hwin := windows_of_exec hexec
    have hs := serverInv_of_exec hexec
    refine ⟨fun t ht hphase => ?_, fun p a hp htype => ?_, fun k g hg => ?_⟩
    · have hlive : t.live = true := by simp [Task.live, hphase]
      obtain ⟨f, hf, hbusy⟩ := hs.tables.working t ht (live_not_ended hlive)
      obtain ⟨g, rfl, -⟩ := Handler.busy_iff.mp hbusy
      have hg := hwin.downloads t.key g hf
      have hfits := hg.works t ht rfl
      obtain ⟨-, hsize, hamount⟩ := hfits.sizes (Or.inl hphase)
      refine ⟨g, hf, hsize, ?_, senderWindow_of_inv (hamount ▸ hg.window) (hfits.room hlive)⟩
      rw [hamount, hsize, DownloadRequestHandler.segmentsAmount]
    · obtain ⟨es₁, es₂, u, g, hes, hu, hg, k, hk, hpocket⟩ := sends_of_exec hexec hp htype
      have hid : g.requestID = p.requestID := ((serverInv_of_exec hu).tables.id _ _ hg).1
      refine ⟨es₁, es₂, u, g, hes, hu, hg, k, hk, ?_⟩
      rw [hid, segmentOf_eq_sliceAt] at hpocket
      exact hpocket
    · exact ⟨(hwin.downloads k g hg).nonempty,
        fun hsize => cut_segmentsAmountOf (segmentSize_pos env _) hsize⟩

/-- An accepted upload of three bytes sends its only segment, and the task of
    `downloadRun` starts. -/
theorem sender_window_runs :
    (∃ u₀ u, Upload.start (okResponse { basicLayer := ⟨1, .response, .upload⟩ } 3 1 1500)
        [1, 2, 3] 0 = .ok u₀ ∧
      exec (Upload.step fun _ n => n) u₀ [.proceed 0] = some u ∧ u.sent.length = 1 ∧
      UploadWindow 1 1500 [1, 2, 3] [] u) ∧
    ∃ s, exec (App.step default) (Server.init (installedWith default ['a'] [1, 2, 3]))
        (downloadRun (['c'], 8001)) = some s ∧ s.tasks.length = 1 ∧
      DownloadWindows default (installedWith default ['a'] [1, 2, 3]) (downloadRun (['c'], 8001))
        s := by
  constructor
  · have hrun : (exec (Upload.step fun _ n => n)
        ⟨1, 1500, 1, [1, 2, 3], [0], [], 0, SOCKET_TIMEOUT, 1500, 1500, true, none, [], .head, []⟩
        [.proceed 0]).map (fun u => u.sent.length) = some 1 := by decide +kernel
    obtain ⟨u, hu, hlen⟩ := Option.map_eq_some_iff.mp hrun
    exact ⟨_, u, rfl, hu, hlen, (sender_window default).1 _
      { basicLayer := ⟨1, .response, .upload⟩ } [1, 2, 3] 1500 0 _ _ u (by decide) rfl hu⟩
  · have hrun : (exec (App.step default) (Server.init (installedWith default ['a'] [1, 2, 3]))
        (downloadRun (['c'], 8001))).map (fun s => s.tasks.length) = some 1 := by decide +kernel
    obtain ⟨s, hs, hlen⟩ := Option.map_eq_some_iff.mp hrun
    exact ⟨s, hs, hlen, (sender_window default).2 _ _ s hs⟩

end Net
end NetworkingFinal
