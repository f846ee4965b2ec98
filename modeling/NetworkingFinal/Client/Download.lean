/-
  NetworkingFinal.Client.Download

  What one step of `download_data` does (`Download.Effect`), and whose segments
  it builds its result from.

  A Segment is stored and acknowledged by its segment id alone.
  `built_from_own_iff`: the result is built from the client's own download exactly
  when, as long as segments are missing, no other Segment arrives.
-/
import NetworkingFinal.Client.Rudp
import NetworkingFinal.Ftp.Wire
import NetworkingFinal.Lib.Runs

namespace NetworkingFinal
namespace Client

open Py Ftp Lib

/-- The move hands over a datagram that decodes to this pocket. -/
def Move.Delivers (m : Move) (p : Pocket) : Prop :=
  ∃ data clk, m = .receive (.datagram data) clk ∧ Pocket.fromBytes data = .ok p

theorem Move.Delivers.unique {m : Move} {p q : Pocket} (hp : m.Delivers p) (hq : m.Delivers q) :
    p = q := by
  obtain ⟨data, clk, rfl, hdata⟩ := hp
  obtain ⟨data', clk', heq, hdata'⟩ := hq
  cases heq
  exact Except.ok.inj (hdata.symm.trans hdata')

/-- No segment is missing in these phases. -/
def DownloadPhase.finishing : DownloadPhase → Prop
  | .sendComplited => True
  | .awaitClose => True
  | .returned => True
  | _ => False

namespace Download

/-- The phases in which a Segment is handled. -/
def Open (d : Download) : Prop := d.phase = .awaitFirst ∨ d.phase = .collect

/-- What a step of `download_data` leads to. -/
inductive Effect (d : Download) (m : Move) : Download → Prop
  /-- no segment is handled -/
  | moved {phase : DownloadPhase}
      (finishing : DownloadPhase.finishing phase →
        d.neededSegments = [] ∨ DownloadPhase.finishing d.phase)
      (collect : phase = .collect → d.phase = .collect ∧ d.neededSegments ≠ [])
      (passed : ∀ p, m.Delivers p → p.basicLayer.pocketType = .segment →
        DownloadPhase.finishing d.phase ∨ d.neededSegments = []) :
      Effect d m { d with phase }
  | asked {bs : Bytes} (bytes : (readyPocket d.requestID).toBytes = .ok bs) (now : Int)
      (move : m = .proceed now) :
      Effect d m { d with sent := d.sent ++ [bs], phase := .awaitFirst }
  | told {bs : Bytes} (phase : d.phase = .sendComplited)
      (bytes : (complitedPocket d.requestID).toBytes = .ok bs) (now : Int)
      (move : m = .proceed now) :
      Effect d m { d with sent := d.sent ++ [bs], phase := .awaitClose }
  | took {p : Pocket} {segment : SegmentLayer} {bs : Bytes}
      (delivers : m.Delivers p) (isOpen : d.Open) (missing : d.neededSegments ≠ [])
      (type : p.basicLayer.pocketType = .segment) (layer : p.segmentLayer = some segment)
      (bytes : (akcPocket d.requestID segment.segmentID).toBytes = .ok bs) :
      Effect d m
        { d.keep segment with sent := d.sent ++ [bs], phase := (d.keep segment).collecting }
  /-- a segment that cannot be acknowledged -/
  | broke {p : Pocket} {segment : SegmentLayer} {e : Exn}
      (delivers : m.Delivers p) (isOpen : d.Open)
      (type : p.basicLayer.pocketType = .segment) (layer : p.segmentLayer = some segment)
      (encodes : (akcPocket d.requestID segment.segmentID).toBytes = .error e) :
      Effect d m { d.keep segment with phase := .failed e }

variable {d d' : Download} {m : Move}

@[simp] theorem keep_sent (segment : SegmentLayer) : (d.keep segment).sent = d.sent := by
  unfold keep
  split <;> rfl

@[simp] theorem keep_requestID (segment : SegmentLayer) :
    (d.keep segment).requestID = d.requestID := by
  unfold keep
  split <;> rfl

theorem mem_neededSegments_keep {segment : SegmentLayer} (hnd : d.neededSegments.Nodup) {k : Nat} :
    k ∈ (d.keep segment).neededSegments ↔ k ≠ segment.segmentID ∧ k ∈ d.neededSegments := by
  unfold keep
  split
  · exact hnd.mem_erase_iff
  · next hnot =>
      constructor
      · intro hk
        exact ⟨fun heq => hnot (heq ▸ hk), hk⟩
      · exact fun h => h.2

/-- The phase of the second loop is sound after every pocket. -/
theorem collecting_spec :
    (DownloadPhase.finishing d.collecting → d.neededSegments = []) ∧
      (d.collecting = .collect → d.neededSegments ≠ []) := by
  unfold collecting
  split
  · next h => exact ⟨fun _ => h, fun hc => by cases hc⟩
  · next h => exact ⟨fun hf => hf.elim, fun _ => h⟩

theorem effect_of_handlePocket {p : Pocket} (hp : m.Delivers p) (hopen : d.Open)
    (hmissing : d.neededSegments ≠ []) (hphase : d.phase = .collect ∨
      p.basicLayer.pocketType = .segment) : Effect d m (d.handlePocket p) := by
  have hpassed : p.basicLayer.pocketType ≠ .segment → ∀ phase, phase = d.collecting →
      Effect d m { d with phase } := by
    rintro htype phase rfl
    refine .moved (fun hf => Or.inl (collecting_spec.1 hf)) (fun _ => ?_) fun q hq hseg => ?_
    · exact ⟨hphase.resolve_right htype, hmissing⟩
    · rw [hq.unique hp] at hseg
      exact absurd hseg htype
  unfold handlePocket
  split
  · next hnone =>
      refine hpassed (fun htype => ?_) _ rfl
      obtain ⟨data, clk, -, hdata⟩ := hp
      obtain ⟨l, hl, -⟩ := Pocket.segmentLayer_of_fromBytes hdata htype
      rw [hnone] at hl
      cases hl
  · next segment hsegment =>
      split
      · next htype => exact hpassed htype _ rfl
      · next htype =>
          rw [not_not] at htype
          show Effect d m ((d.keep segment).sendto
            (akcPocket (d.keep segment).requestID segment.segmentID) (d.keep segment).collecting)
          rw [keep_requestID]
          unfold sendto
          split
          · next bs hbs =>
              have hsent : (d.keep segment).sent ++ [bs] = d.sent ++ [bs] := by rw [keep_sent]
              rw [hsent]
              exact .took hp hopen hmissing htype hsegment hbs
          · next e he => exact .broke hp hopen htype hsegment he

/-- A phase that finishes and collects nothing is entered without a Segment. -/
theorem effect_of_phase {phase : DownloadPhase} (hf : ¬ DownloadPhase.finishing phase)
    (hc : phase ≠ .collect) (hpassed : ∀ p, m.Delivers p → p.basicLayer.pocketType ≠ .segment) :
    Effect d m { d with phase } :=
  .moved (fun h => absurd h hf) (fun h => absurd h hc) fun p hp ht => absurd ht (hpassed p hp)

theorem effect_of_proceed {now : Int} (h : step d (.proceed now) = some d') :
    Effect d (.proceed now) d' := by
  have hfailed : ∀ e, Effect d (.proceed now) { d with phase := .failed e } := by
    intro e
    refine effect_of_phase (fun hf => hf) (fun hc => by cases hc) ?_
    rintro p ⟨data, clk, heq, -⟩
    cases heq
  simp only [step] at h
  split at h
  · rw [Option.some_inj, sendto] at h
    split at h
    · next bs hbs => exact h ▸ .asked hbs now rfl
    · next e he => exact h ▸ hfailed e
  · next hcomplited =>
      rw [Option.some_inj, sendto] at h
      split at h
      · next bs hbs => exact h ▸ .told hcomplited hbs now rfl
      · next e he => exact h ▸ hfailed e
  · cases h

/-- A loop that receives handles the pocket that is delivered, or tries again. -/
theorem effect_of_receive {handle : Download → Pocket → Download} {again : DownloadPhase}
    {input : Input} {clk : Readings}
    (hhandle : ∀ p, (Move.receive input clk).Delivers p →
      Effect d (.receive input clk) (handle d p))
    (hagain : (∀ p, ¬ (Move.receive input clk).Delivers p) →
      Effect d (.receive input clk) { d with phase := again }) :
    Effect d (.receive input clk) (d.receive handle again input) := by
  cases input with
  | timeout =>
      refine hagain ?_
      rintro p ⟨data, clk, heq, -⟩
      cases heq
  | osError =>
      refine hagain ?_
      rintro p ⟨data, clk, heq, -⟩
      cases heq
  | datagram data =>
      simp only [receive]
      split
      · next p hp => exact hhandle p ⟨data, clk, rfl, hp⟩
      · next e he =>
          refine effect_of_phase (fun hf => hf) (fun hc => by cases hc) fun p hp => ?_
          obtain ⟨data', clk', heq, hdata⟩ := hp
          cases heq
          rw [he] at hdata
          cases hdata

theorem effect_of_handleFirst {p : Pocket} (hp : m.Delivers p) (hopen : d.Open) :
    Effect d m (d.handleFirst p) := by
  unfold handleFirst
  split
  · next htype =>
      split
      · next hempty =>
          exact .moved (fun _ => Or.inl hempty) (fun hc => by cases hc) fun _ _ _ => Or.inr hempty
      · next hmissing => exact effect_of_handlePocket hp hopen hmissing (Or.inr htype)
  · next htype =>
      refine effect_of_phase (fun hf => hf) (fun hc => by cases hc) fun q hq => ?_
      rw [hq.unique hp]
      exact htype

theorem effect_of_step (hphase : d.phase = .collect → d.neededSegments ≠ [])
    (h : step d m = some d') : Effect d m d' := by
  cases m with
  | proceed now => exact effect_of_proceed h
  | receive input clk =>
      simp only [step] at h
      split at h
      · next hfirst =>
          -- the first loop
          rw [← Option.some_inj.mp h]
          refine effect_of_receive (fun p hp => effect_of_handleFirst hp (Or.inl hfirst))
            fun hno => ?_
          exact effect_of_phase (fun hf => hf) (fun hc => by cases hc) fun p hp => absurd hp (hno p)
      · next hcollect =>
          -- the second loop
          have hmissing := hphase hcollect
          rw [← Option.some_inj.mp h]
          refine effect_of_receive (fun p hp => ?_) fun hno => ?_
          · exact effect_of_handlePocket hp (Or.inr hcollect) hmissing (Or.inl hcollect)
          · exact .moved (fun hf => hf.elim) (fun _ => ⟨hcollect, hmissing⟩)
              fun p hp => absurd hp (hno p)
      · next hclosing =>
          -- the third loop
          have hfinishing : DownloadPhase.finishing d.phase := by
            rw [hclosing]
            trivial
          have hstay : ∀ phase, phase ≠ .collect → Effect d (.receive input clk) { d with phase } :=
            fun phase hc => .moved (fun _ => Or.inr hfinishing) (fun h => absurd h hc)
              fun _ _ _ => Or.inl hfinishing
          rw [← Option.some_inj.mp h]
          refine effect_of_receive (fun p _ => ?_) fun _ => hstay _ (fun hc => by cases hc)
          unfold handleClose
          split
          · exact hstay _ (fun hc => by cases hc)
          · exact hstay _ (fun hc => by cases hc)
      · cases h

-- ============================================================================
-- Every reachable state
-- ============================================================================

/-- The client of the request `r` with `n` segments, in a state it can reach. -/
structure Sound (r n : Nat) (d : Download) : Prop where
  requestID : d.requestID = r
  amount : d.segments.length = n
  nodup : d.neededSegments.Nodup
  finishing : DownloadPhase.finishing d.phase → d.neededSegments = []
  collect : d.phase = .collect → d.neededSegments ≠ []

theorem keep_segments_length (segment : SegmentLayer) :
    (d.keep segment).segments.length = d.segments.length := by
  unfold keep
  split
  · exact List.length_set
  · rfl

theorem keep_nodup {segment : SegmentLayer} (h : d.neededSegments.Nodup) :
    (d.keep segment).neededSegments.Nodup := by
  unfold keep
  split
  · exact h.erase _
  · exact h

theorem Sound.keep {r n : Nat} (h : Sound r n d) {segment : SegmentLayer} {phase : DownloadPhase}
    {sent : List Bytes}
    (hfinishing : DownloadPhase.finishing phase → (d.keep segment).neededSegments = [])
    (hcollect : phase = .collect → (d.keep segment).neededSegments ≠ []) :
    Sound r n { d.keep segment with sent, phase } :=
  ⟨(keep_requestID segment).trans h.requestID, (keep_segments_length segment).trans h.amount,
    keep_nodup h.nodup, hfinishing, hcollect⟩

theorem Sound.step {r n : Nat} (h : Sound r n d) (hstep : Effect d m d') : Sound r n d' := by
  cases hstep with
  | moved finishing collect passed =>
      exact ⟨h.requestID, h.amount, h.nodup, fun hf => (finishing hf).elim id h.finishing,
        fun hc => (collect hc).2⟩
  | asked bytes now move =>
      exact ⟨h.requestID, h.amount, h.nodup, fun hf => hf.elim, (fun hc => by cases hc)⟩
  | told phase bytes now move =>
      have hfinishing : DownloadPhase.finishing d.phase := by
        rw [phase]
        trivial
      exact ⟨h.requestID, h.amount, h.nodup, fun _ => h.finishing hfinishing,
        (fun hc => by cases hc)⟩
  | took delivers isOpen missing type layer bytes =>
      exact h.keep collecting_spec.1 collecting_spec.2
  | broke delivers isOpen type layer encodes =>
      exact h.keep (fun hf => hf.elim) (fun hc => by cases hc)

/-- What a step sends carries the request id, and is no Segment. -/
theorem Effect.sent (h : Effect d m d') : d'.sent = d.sent ∨
    ∃ (p : Pocket) (bs : Bytes), p.toBytes = .ok bs ∧ d'.sent = d.sent ++ [bs] ∧
      p.requestID = d.requestID ∧ p.basicLayer.pocketType ≠ .segment := by
  cases h with
  | moved finishing collect passed => exact Or.inl rfl
  | asked bytes now move => exact Or.inr ⟨_, _, bytes, rfl, rfl, PocketType.noConfusion⟩
  | told phase bytes now move => exact Or.inr ⟨_, _, bytes, rfl, rfl, PocketType.noConfusion⟩
  | took delivers isOpen missing type layer bytes =>
      exact Or.inr ⟨_, _, bytes, rfl, rfl, PocketType.noConfusion⟩
  | broke delivers isOpen type layer encodes => exact Or.inl (keep_sent _)

/-- `start` of a Response: every segment is missing. -/
theorem start_eq {resPocket : Pocket} (h : start resPocket = .ok d) :
    Sound resPocket.requestID d.segmentsAmount d ∧
      d.neededSegments = List.range d.segmentsAmount ∧ d.sent = [] ∧
      ∃ layer, resPocket.responseLayer = some layer ∧ d.segmentsAmount = layer.segmentsAmount := by
  unfold start at h
  split at h
  · cases h
  · next layer hlayer =>
      cases h
      exact ⟨⟨rfl, List.length_replicate, List.nodup_range, fun hf => hf.elim,
        (fun hc => by cases hc)⟩, rfl, rfl, layer, hlayer, rfl⟩

-- ============================================================================
-- The segments that have been delivered
-- ============================================================================

/-- The move delivers a Segment pocket of the request `r` with this segment. -/
def Brings (m : Move) (r : Nat) (segment : SegmentLayer) : Prop :=
  ∃ p, m.Delivers p ∧ p.basicLayer.pocketType = .segment ∧ p.requestID = r ∧
    p.segmentLayer = some segment

/-- A segment with this id has been delivered, whatever its request. -/
def Seen (ms : List Move) (k : Nat) : Prop := ∃ m ∈ ms, ∃ r data, Brings m r ⟨k, data⟩

theorem seen_concat {ms : List Move} {k : Nat} :
    Seen (ms ++ [m]) k ↔ Seen ms k ∨ ∃ r data, Brings m r ⟨k, data⟩ := by
  simp only [Seen, List.mem_append, List.mem_singleton, or_and_right, exists_or, exists_eq_left]

theorem Brings.unique {r r' : Nat} {segment segment' : SegmentLayer} (h : Brings m r segment)
    (h' : Brings m r' segment') : r = r' ∧ segment = segment' := by
  obtain ⟨p, hp, -, hr, hl⟩ := h
  obtain ⟨q, hq, -, hr', hl'⟩ := h'
  rw [hp.unique hq] at hr hl
  exact ⟨hr.symm.trans hr', Option.some.inj (hl.symm.trans hl')⟩

theorem not_brings_proceed {now : Int} {r : Nat} {segment : SegmentLayer} :
    ¬ Brings (.proceed now) r segment := by
  rintro ⟨p, ⟨data, clk, heq, -⟩, -⟩
  cases heq

/-- The client after the moves `ms`: missing is what has not been delivered. -/
structure Collects (r n : Nat) (ms : List Move) (d : Download) : Prop extends Sound r n d where
  missing : ∀ k, k ∈ d.neededSegments ↔ k < n ∧ ¬ Seen ms k

theorem collects_start {resPocket : Pocket} (h : start resPocket = .ok d) :
    Collects resPocket.requestID d.segmentsAmount [] d := by
  obtain ⟨hsound, hneeded, -⟩ := start_eq h
  refine ⟨hsound, fun k => ?_⟩
  have hseen : ¬ Seen [] k := by
    rintro ⟨m, hm, -⟩
    cases hm
  rw [hneeded, List.mem_range]
  exact (and_iff_left hseen).symm

/-- Every delivered segment is handled as long as one is missing. -/
theorem Collects.step {r n : Nat} {ms : List Move} (h : Collects r n ms d)
    (hstep : Effect d m d') : Collects r n (ms ++ [m]) d' := by
  have hsame : (∀ r data k, k ∈ d.neededSegments → ¬ Brings m r ⟨k, data⟩) →
      ∀ k, k ∈ d.neededSegments ↔ k < n ∧ ¬ Seen (ms ++ [m]) k := by
    intro hno k
    rw [seen_concat, h.missing, not_or, ← and_assoc, ← h.missing]
    constructor
    · rintro hk
      exact ⟨hk, fun ⟨r, data, hb⟩ => hno r data k hk hb⟩
    · exact fun hk => hk.1
  have hkept : ∀ {p : Pocket} {segment : SegmentLayer}, m.Delivers p →
      p.basicLayer.pocketType = .segment → p.segmentLayer = some segment →
      ∀ k, k ∈ (d.keep segment).neededSegments ↔ k < n ∧ ¬ Seen (ms ++ [m]) k := by
    intro p segment hp htype hlayer k
    have hbrings : Brings m p.requestID segment := ⟨p, hp, htype, rfl, hlayer⟩
    have honly : (∃ r data, Brings m r ⟨k, data⟩) ↔ k = segment.segmentID := by
      constructor
      · rintro ⟨r, data, hb⟩
        rw [← (hb.unique hbrings).2]
      · rintro rfl
        exact ⟨_, _, hbrings⟩
    rw [mem_neededSegments_keep h.nodup, h.missing, seen_concat, honly, not_or]
    exact ⟨fun hk => ⟨hk.2.1, hk.2.2, hk.1⟩, fun hk => ⟨hk.2.2, hk.1, hk.2.1⟩⟩
  have hsound := h.toSound.step hstep
  cases hstep with
  | moved finishing collect passed =>
      have hmissing := hsame fun r data k hk ⟨p, hp, htype, _, _⟩ => by
        have hnil := (passed p hp htype).elim h.finishing id
        rw [hnil] at hk
        cases hk
      exact ⟨hsound, hmissing⟩
  | asked bytes now move =>
      have hmissing := hsame fun r data k _ => move ▸ not_brings_proceed
      exact ⟨hsound, hmissing⟩
  | told phase bytes now move =>
      have hmissing := hsame fun r data k _ => move ▸ not_brings_proceed
      exact ⟨hsound, hmissing⟩
  | @took p segment bs delivers isOpen missing type layer bytes =>
      exact ⟨hsound, hkept delivers type layer⟩
  | @broke p segment e delivers isOpen type layer encodes =>
      exact ⟨hsound, hkept delivers type layer⟩

theorem collects_of_exec {resPocket : Pocket} {ms : List Move} {d₀ : Download}
    (hstart : start resPocket = .ok d₀) (hrun : exec step d₀ ms = some d) :
    Collects resPocket.requestID d₀.segmentsAmount ms d :=
  exec_history _ (collects_start hstart)
    (fun _ _ _ _ _ ht hu => ht.step (effect_of_step ht.collect hu)) hrun

-- ============================================================================
-- Segments of other requests
-- ============================================================================

/-- A Segment of another request arrives only after all `n` ids have been
    delivered. -/
def OwnWhileMissing (r n : Nat) (ms : List Move) : Prop :=
  ∀ before m after r' segment, ms = before ++ m :: after → Brings m r' segment → r' ≠ r →
    ∀ k < n, Seen before k

/-- The step acknowledges under `r` only a segment of the request `r`. -/
def AcksOwn (r : Nat) (d : Download) (m : Move) : Prop :=
  ∀ d' k bs, step d m = some d' → (akcPocket r k).toBytes = .ok bs → d'.sent = d.sent ++ [bs] →
    ∃ data, Brings m r ⟨k, data⟩

/-- Every piece of the result was delivered in a Segment of the request `r`, and
    only such segments are acknowledged. -/
structure BuiltFromOwn (r : Nat) (d₀ : Download) (ms : List Move) (d : Download) : Prop where
  pieces : d.phase = .returned → ∀ k piece, d.segments[k]? = some piece →
    ∃ m ∈ ms, Brings m r ⟨k, piece⟩
  acks : AllSteps step (AcksOwn r) d₀ ms

theorem OwnWhileMissing.take {r n : Nat} {before after : List Move}
    (h : OwnWhileMissing r n (before ++ m :: after)) : OwnWhileMissing r n (before ++ [m]) := by
  intro ms₁ m' ms₂ r' segment heq hb hne
  exact h ms₁ m' (ms₂ ++ after) r' segment (by simpa using congrArg (· ++ after) heq) hb hne

theorem OwnWhileMissing.of_concat {r n : Nat} {ms : List Move}
    (h : OwnWhileMissing r n (ms ++ [m])) : OwnWhileMissing r n ms := by
  intro ms₁ m' ms₂ r' segment heq hb hne
  exact h ms₁ m' (ms₂ ++ [m]) r' segment (by rw [heq, List.append_assoc, List.cons_append]) hb hne

/-- While a segment is missing, what is delivered is the client's own. -/
theorem Collects.own {r n r' : Nat} {ms : List Move} {segment : SegmentLayer}
    (h : Collects r n ms d) (hown : OwnWhileMissing r n (ms ++ [m]))
    (hmissing : d.neededSegments ≠ []) (hb : Brings m r' segment) : r' = r := by
  by_contra hne
  obtain ⟨k, hk⟩ := List.exists_mem_of_ne_nil _ hmissing
  obtain ⟨hlt, hseen⟩ := (h.missing k).mp hk
  exact hseen (hown ms m [] r' segment rfl hb hne k hlt)

/-- Where a kept piece comes from. -/
theorem keep_piece {segment : SegmentLayer} {k : Nat} {piece : Bytes}
    (hk : k ∉ (d.keep segment).neededSegments) (hpiece : (d.keep segment).segments[k]? = some piece) :
    (k ∉ d.neededSegments ∧ d.segments[k]? = some piece) ∨
      (d.neededSegments ≠ [] ∧ segment = ⟨k, piece⟩) := by
  unfold keep at hk hpiece
  split at hk
  · next hmem =>
      rw [if_pos hmem] at hpiece
      by_cases heq : segment.segmentID = k
      · rw [← heq, List.getElem?_set_self'] at hpiece
        obtain ⟨old, -, hdata⟩ := Option.map_eq_some_iff.mp hpiece
        refine Or.inr ⟨List.ne_nil_of_mem hmem, ?_⟩
        rw [← heq, ← show segment.data = piece from hdata]
      · rw [List.getElem?_set_ne heq] at hpiece
        refine Or.inl ⟨fun hneeded => hk ?_, hpiece⟩
        exact (List.mem_erase_of_ne fun h => heq h.symm).mpr hneeded
  · next hmem =>
      rw [if_neg hmem] at hpiece
      exact Or.inl ⟨hk, hpiece⟩

/-- The pieces kept so far were delivered for the request. -/
def PiecesOwn (r : Nat) (ms : List Move) (d : Download) : Prop :=
  ∀ k piece, k ∉ d.neededSegments → d.segments[k]? = some piece → ∃ m ∈ ms, Brings m r ⟨k, piece⟩

theorem PiecesOwn.step {r n : Nat} {ms : List Move} (hpieces : PiecesOwn r ms d)
    (h : Collects r n ms d) (hown : OwnWhileMissing r n (ms ++ [m])) (hstep : Effect d m d') :
    PiecesOwn r (ms ++ [m]) d' := by
  have hold : PiecesOwn r (ms ++ [m]) d := by
    intro k piece hk hpiece
    obtain ⟨m', hm', hb⟩ := hpieces k piece hk hpiece
    exact ⟨m', List.mem_append_left _ hm', hb⟩
  have hkeep : ∀ {p : Pocket} {segment : SegmentLayer}, m.Delivers p →
      p.basicLayer.pocketType = .segment → p.segmentLayer = some segment →
      PiecesOwn r (ms ++ [m]) (d.keep segment) := by
    intro p segment hp htype hlayer k piece hk hpiece
    have hb : Brings m p.requestID segment := ⟨p, hp, htype, rfl, hlayer⟩
    rcases keep_piece hk hpiece with ⟨hk, hpiece⟩ | ⟨hmissing, rfl⟩
    · exact hold k piece hk hpiece
    · rw [h.own hown hmissing hb] at hb
      exact ⟨m, List.mem_append_right _ (List.mem_singleton.mpr rfl), hb⟩
  cases hstep with
  | moved finishing collect passed => exact hold
  | asked bytes now move => exact hold
  | told phase bytes now move => exact hold
  | took delivers isOpen missing type layer bytes => exact hkeep delivers type layer
  | broke delivers isOpen type layer encodes => exact hkeep delivers type layer

theorem piecesOwn_of_exec {resPocket : Pocket} {ms : List Move} {d₀ : Download}
    (hstart : start resPocket = .ok d₀) (hrun : exec step d₀ ms = some d)
    (hown : OwnWhileMissing resPocket.requestID d₀.segmentsAmount ms) :
    PiecesOwn resPocket.requestID ms d := by
  obtain ⟨hinit, hneeded, -⟩ := start_eq hstart
  refine exec_history (fun ms d => OwnWhileMissing resPocket.requestID d₀.segmentsAmount ms →
    PiecesOwn resPocket.requestID ms d) ?_ ?_ hrun hown
  · intro _ k piece hk hpiece
    obtain ⟨hlt, -⟩ := List.getElem?_eq_some_iff.mp hpiece
    rw [hneeded, List.mem_range] at hk
    exact absurd (hinit.amount ▸ hlt) hk
  · intro ms t m u hms ht htu hown
    have hcollects := collects_of_exec hstart hms
    exact (ht hown.of_concat).step hcollects hown (effect_of_step hcollects.collect htu)

/-- Acknowledging a segment tells its id. -/
theorem Effect.brings_of_akc {r k : Nat} {bs : Bytes} (h : Effect d m d') (hr : d.requestID = r)
    (hbs : (akcPocket r k).toBytes = .ok bs) (hsent : d'.sent = d.sent ++ [bs]) :
    d.neededSegments ≠ [] ∧ ∃ r' data, Brings m r' ⟨k, data⟩ := by
  have hdecode := Pocket.fromBytes_akcPocket hbs
  have hsame : d.sent ≠ d.sent ++ [bs] := fun heq => by simpa using congrArg List.length heq
  have hlast : ∀ bs', d.sent ++ [bs'] = d.sent ++ [bs] → bs' = bs := fun bs' heq =>
    List.singleton_inj.mp (List.append_cancel_left heq)
  cases h with
  | moved finishing collect passed => exact absurd hsent hsame
  | asked bytes now move =>
      have hready := Pocket.fromBytes_readyPocket bytes
      rw [hlast _ hsent, hdecode] at hready
      cases hready
  | told phase bytes now move =>
      have hcomplited := Pocket.fromBytes_complitedPocket bytes
      rw [hlast _ hsent, hdecode] at hcomplited
      cases hcomplited
  | @took p segment bs' delivers isOpen missing type layer bytes =>
      have hakc := Pocket.fromBytes_akcPocket bytes
      rw [hlast _ hsent, hdecode] at hakc
      cases hakc
      exact ⟨missing, _, segment.data, p, delivers, type, rfl, layer⟩
  | broke delivers isOpen type layer encodes =>
      exact absurd ((keep_sent _).symm.trans hsent) hsame

/-- `download_data` builds its result from its own segments, and acknowledges
    only these, in exactly the runs in which no other Segment arrives while a
    segment is missing. -/
theorem built_from_own_iff {data : Bytes} {resPocket : Pocket} {d₀ : Download} {ms : List Move}
    (hres : Pocket.fromBytes data = .ok resPocket) (hstart : start resPocket = .ok d₀)
    (hrun : exec step d₀ ms = some d) :
    BuiltFromOwn resPocket.requestID d₀ ms d ↔
      OwnWhileMissing resPocket.requestID d₀.segmentsAmount ms := by
  constructor
  · intro hbuilt before m after r' segment heq hb hne k hk
    by_contra hseen
    rw [heq] at hrun
    obtain ⟨t, ht, hrest⟩ := exec_append_iff.mp hrun
    obtain ⟨t', htt', -⟩ := exec_cons_iff.mp hrest
    have hcollects := collects_of_exec hstart ht
    have hmissing : t.neededSegments ≠ [] :=
      List.ne_nil_of_mem ((hcollects.missing k).mpr ⟨hk, hseen⟩)
    have hfirst := hbuilt.acks before m after t heq ht
    cases effect_of_step hcollects.collect htt' with
    | moved finishing collect passed =>
        obtain ⟨p, hp, htype, -⟩ := hb
        exact hmissing ((passed p hp htype).elim hcollects.finishing id)
    | asked bytes now move => exact not_brings_proceed (move ▸ hb)
    | told phase bytes now move => exact not_brings_proceed (move ▸ hb)
    | @took q taken bs delivers isOpen missing type layer bytes =>
        -- the foreign segment is acknowledged
        rw [hcollects.requestID] at bytes
        obtain ⟨piece, hown⟩ := hfirst _ _ _ htt' bytes rfl
        exact hne (hown.unique hb).1.symm
    | @broke q taken e delivers isOpen type layer encodes =>
        -- every decoded id can be acknowledged
        obtain ⟨bytes, clk, -, hdecode⟩ := delivers
        obtain ⟨l, hl, hfits⟩ := Pocket.segmentLayer_of_fromBytes hdecode type
        rw [layer, Option.some_inj] at hl
        obtain ⟨bs, hbs⟩ := Pocket.akcPocket_encodes (Pocket.requestID_fits hres) (hl ▸ hfits)
        rw [← hcollects.requestID, encodes] at hbs
        cases hbs
  · intro hown
    refine ⟨fun hret k piece hpiece => ?_, ?_⟩
    · have hcollects := collects_of_exec hstart hrun
      have hnil : d.neededSegments = [] := hcollects.finishing (hret ▸ trivial)
      exact piecesOwn_of_exec hstart hrun hown k piece (hnil ▸ List.not_mem_nil) hpiece
    · intro before m after t heq ht t' k bs htt' hbs hsent
      have hcollects := collects_of_exec hstart ht
      obtain ⟨hmissing, r', data, hb⟩ :=
        (effect_of_step hcollects.collect htt').brings_of_akc hcollects.requestID hbs hsent
      have hr := hcollects.own (heq ▸ hown).take hmissing hb
      exact ⟨data, hr ▸ hb⟩

/-- The Response of a download of one segment under the request id 5. -/
def downloadResponse : Pocket :=
  { basicLayer := ⟨5, .response, .download⟩, responseLayer := some ⟨true, [], 2, 1, 1500⟩ }

def downloadStart : Download :=
  { requestID := 5, segmentsAmount := 1, neededSegments := [0], segments := [[]] }

/-- The client asks, receives one pocket, reports and receives the Close. -/
def downloadMoves (pocket : Pocket) (clk : Readings) : List Move :=
  [.proceed 0, .receive (.datagram pocket.datagram) clk, .proceed 0,
   .receive (.datagram closePocket.datagram) clk]

/-- The only Segment of these moves is the given one. -/
theorem downloadMoves_delivers {pocket p : Pocket} {clk : Readings}
    (hpocket : Pocket.fromBytes pocket.datagram = .ok pocket) (hm : m ∈ downloadMoves pocket clk)
    (hp : m.Delivers p) (htype : p.basicLayer.pocketType = .segment) : p = pocket := by
  obtain ⟨data, clk', rfl, hdata⟩ := hp
  simp only [downloadMoves, List.mem_cons, reduceCtorEq, Move.receive.injEq, Input.datagram.injEq,
    false_or, List.not_mem_nil, or_false] at hm
  rcases hm with ⟨rfl, -⟩ | ⟨rfl, -⟩
  · rw [hpocket, Except.ok.injEq] at hdata
    exact hdata.symm
  · have hclose : Pocket.fromBytes closePocket.datagram = .ok closePocket := by rfl
    rw [hclose, Except.ok.injEq] at hdata
    rw [← hdata] at htype
    cases htype

theorem built_from_own_iff_ownMoves :
    ∃ d, exec step downloadStart (downloadMoves (segmentPocket 5 0 [1, 7]) ⟨0, 0, 0⟩) = some d ∧
      d.result = [1, 7] ∧
      BuiltFromOwn 5 downloadStart (downloadMoves (segmentPocket 5 0 [1, 7]) ⟨0, 0, 0⟩) d := by
  have hcheck : (exec step downloadStart (downloadMoves (segmentPocket 5 0 [1, 7])
      ⟨0, 0, 0⟩)).map result = some [1, 7] := by decide +kernel
  obtain ⟨d, hd, hresult⟩ := Option.map_eq_some_iff.mp hcheck
  refine ⟨d, hd, hresult, (@built_from_own_iff d downloadResponse.datagram downloadResponse _ _
    (by rfl) (by rfl) hd).mpr ?_⟩
  rintro before m after r' segment heq ⟨p, hp, htype, rfl, -⟩ hne
  have hmem : m ∈ downloadMoves (segmentPocket 5 0 [1, 7]) ⟨0, 0, 0⟩ := by
    rw [heq]
    simp
  have hown := downloadMoves_delivers (by rfl) hmem hp htype
  exact absurd (hown ▸ rfl) hne

/-- A segment left over from the request 4 becomes the result of the download 5. -/
theorem not_built_from_own_staleSegment :
    ¬ ∀ (data : Bytes) (resPocket : Pocket) (d₀ d : Download) (ms : List Move),
      Pocket.fromBytes data = .ok resPocket → start resPocket = .ok d₀ →
        exec step d₀ ms = some d → BuiltFromOwn resPocket.requestID d₀ ms d := by
  intro h
  have hcheck : (exec step downloadStart (downloadMoves (segmentPocket 4 0 [6, 6])
      ⟨0, 0, 0⟩)).map (fun d => (d.phase, d.segments)) = some (.returned, [[6, 6]]) := by
    decide +kernel
  obtain ⟨d, hd, hfacts⟩ := Option.map_eq_some_iff.mp hcheck
  rw [Prod.mk.injEq] at hfacts
  have hbuilt := h downloadResponse.datagram downloadResponse downloadStart d _ (by rfl) (by rfl) hd
  obtain ⟨m, hm, p, hp, htype, hr, -⟩ :=
    hbuilt.pieces hfacts.1 0 [6, 6] (by rw [hfacts.2]; rfl)
  have hstale := downloadMoves_delivers (by rfl) hm hp htype
  rw [hstale] at hr
  cases hr

end Download

end Client
end NetworkingFinal
