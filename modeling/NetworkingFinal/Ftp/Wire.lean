/-
  NetworkingFinal.Ftp.Wire

  What a receiver decodes of a pocket that was sent.  The basic layer always
  survives; Segment, ACK, DownloadComplited and Close pockets survive whole; a
  ReadyForDownloading pocket arrives without the ACK layer it was given; the ok
  flag of a Response survives whatever message follows it.

  No bounds are assumed: a field out of its range makes the sender raise, so a
  pocket that was sent (`toBytes` returned) is in range.
-/
import NetworkingFinal.Ftp.Pocket

namespace NetworkingFinal
namespace Ftp

open Py Py.Struct

-- ============================================================================
-- What the codec raises
-- ============================================================================

/-- The exceptions of a pocket that does not decode or encode. -/
def CodecError (e : Exn) : Prop :=
  e = .structError ∨ e = .valueError ∨ e = .unicodeDecodeError

section Fails

variable {P : Exn → Prop} (hP : ∀ e, CodecError e → P e)
include hP

theorem struct_of : P .structError := hP _ (Or.inl rfl)

theorem unicode_of : P .unicodeDecodeError := hP _ (Or.inr (Or.inr rfl))

theorem PocketType.fails_ofCode (n : Nat) : Fails P (PocketType.ofCode n) := by
  unfold PocketType.ofCode
  split
  all_goals first | exact fails_ok _ | exact fails_throw (hP _ (Or.inr (Or.inl rfl)))

theorem PocketSubType.fails_ofCode (n : Nat) : Fails P (PocketSubType.ofCode n) := by
  unfold PocketSubType.ofCode
  split
  all_goals first | exact fails_ok _ | exact fails_throw (hP _ (Or.inr (Or.inl rfl)))

theorem BasicLayer.fails_fromBytes (data : Bytes) (offset : Nat) :
    Fails P (BasicLayer.fromBytes data offset) := by
  refine fails_bind (fails_unpackFrom (struct_of hP) _ _ _ _) fun vals => ?_
  split
  · exact fails_bind (PocketType.fails_ofCode hP _) fun _ =>
      fails_bind (PocketSubType.fails_ofCode hP _) fun _ => fails_pure _
  · exact fails_throw (struct_of hP)

theorem RequestLayer.fails_fromBytes (data : Bytes) (offset : Nat) :
    Fails P (RequestLayer.fromBytes data offset) := by
  refine fails_bind (fails_unpackFrom (struct_of hP) _ _ _ _) fun vals => ?_
  split
  · split
    · exact fails_pure _
    · refine fails_bind (fails_decode (unicode_of hP) _) fun _ =>
        fails_bind (fails_unpackFrom (struct_of hP) _ _ _ _) fun vals => ?_
      split
      · exact fails_bind (fails_decode (unicode_of hP) _) fun _ => fails_pure _
      · exact fails_throw (struct_of hP)
  · exact fails_throw (struct_of hP)

theorem ResponseLayer.fails_fromBytes (data : Bytes) (offset : Nat) :
    Fails P (ResponseLayer.fromBytes data offset) := by
  refine fails_bind (fails_unpackFrom (struct_of hP) _ _ _ _) fun vals => ?_
  split
  · refine fails_bind (fails_decode (unicode_of hP) _) fun _ =>
      fails_bind (fails_unpackFrom (struct_of hP) _ _ _ _) fun vals => ?_
    split
    · exact fails_pure _
    · exact fails_throw (struct_of hP)
  · exact fails_throw (struct_of hP)

theorem SegmentLayer.fails_fromBytes (data : Bytes) (offset : Nat) :
    Fails P (SegmentLayer.fromBytes data offset) := by
  refine fails_bind (fails_unpackFrom (struct_of hP) _ _ _ _) fun vals => ?_
  split
  · exact fails_pure _
  · exact fails_throw (struct_of hP)

theorem AKCLayer.fails_fromBytes (data : Bytes) (offset : Nat) :
    Fails P (AKCLayer.fromBytes data offset) := by
  refine fails_bind (fails_unpackFrom (struct_of hP) _ _ _ _) fun vals => ?_
  split
  · exact fails_pure _
  · exact fails_throw (struct_of hP)

theorem fails_unpackPath (data : Bytes) (offset : Nat) : Fails P (unpackPath data offset) := by
  refine fails_bind (fails_unpackFrom (struct_of hP) _ _ _ _) fun vals => ?_
  split
  · exact fails_decode (unicode_of hP) _
  · exact fails_throw (struct_of hP)

theorem ListRequestLayer.fails_fromBytes (data : Bytes) (offset : Nat) :
    Fails P (ListRequestLayer.fromBytes data offset) := by
  refine fails_bind (fails_unpackFrom (struct_of hP) _ _ _ _) fun vals => ?_
  split
  · refine fails_bind (fails_unpackFrom (struct_of hP) _ _ _ _) fun vals => ?_
    split
    · exact fails_bind (fails_decode (unicode_of hP) _) fun _ => fails_pure _
    · exact fails_throw (struct_of hP)
  · exact fails_throw (struct_of hP)

theorem DeleteResponseLayer.fails_fromBytes (data : Bytes) (offset : Nat) :
    Fails P (DeleteResponseLayer.fromBytes data offset) := by
  refine fails_bind (fails_unpackFrom (struct_of hP) _ _ _ _) fun vals => ?_
  split
  · exact fails_pure _
  · exact fails_throw (struct_of hP)

theorem Pocket.fails_fromBytes (data : Bytes) : Fails P (Pocket.fromBytes data) := by
  refine fails_bind (BasicLayer.fails_fromBytes hP _ _) fun basicLayer => ?_
  split
  · refine fails_bind (RequestLayer.fails_fromBytes hP _ _) fun requestLayer => ?_
    split
    · exact fails_bind (fails_bind (fails_unpackPath hP _ _) fun _ => fails_pure _)
        fun _ => fails_pure _
    · exact fails_bind (fails_bind (fails_unpackPath hP _ _) fun _ => fails_pure _)
        fun _ => fails_pure _
    · exact fails_bind (ListRequestLayer.fails_fromBytes hP _ _) fun _ => fails_pure _
    · exact fails_bind (fails_bind (fails_unpackPath hP _ _) fun _ => fails_pure _)
        fun _ => fails_pure _
    · exact fails_pure _
  · refine fails_bind (ResponseLayer.fails_fromBytes hP _ _) fun responseLayer => ?_
    split
    · exact fails_bind (DeleteResponseLayer.fails_fromBytes hP _ _) fun _ => fails_pure _
    · exact fails_pure _
  · exact fails_bind (SegmentLayer.fails_fromBytes hP _ _) fun _ => fails_pure _
  · exact fails_bind (AKCLayer.fails_fromBytes hP _ _) fun _ => fails_pure _
  · exact fails_pure _

theorem fails_packPath (path : Str) : Fails P (packPath path) :=
  fails_bind (fails_pack (struct_of hP) _ _ _) fun _ => fails_pure _

theorem RequestLayer.fails_toBytes (l : RequestLayer) : Fails P l.toBytes :=
  fails_bind (fails_pack (struct_of hP) _ _ _) fun _ =>
    fails_bind (fails_pack (struct_of hP) _ _ _) fun _ => fails_pure _

theorem ResponseLayer.fails_toBytes (l : ResponseLayer) : Fails P l.toBytes :=
  fails_bind (fails_pack (struct_of hP) _ _ _) fun _ =>
    fails_bind (fails_pack (struct_of hP) _ _ _) fun _ => fails_pure _

theorem ListRequestLayer.fails_toBytes (l : ListRequestLayer) : Fails P l.toBytes :=
  fails_bind (fails_packPath hP _) fun _ =>
    fails_bind (fails_pack (struct_of hP) _ _ _) fun _ => fails_pure _

theorem Pocket.fails_toBytes (p : Pocket) : Fails P p.toBytes := by
  refine fails_bind (fails_pack (struct_of hP) _ _ _) fun head =>
    fails_bind ?_ fun tail => fails_pure _
  unfold layerBytes
  split
  · refine fails_bind (RequestLayer.fails_toBytes hP _) fun head => ?_
    split
    · exact fails_bind (fails_packPath hP _) fun _ => fails_pure _
    · exact fails_bind (fails_packPath hP _) fun _ => fails_pure _
    · exact fails_bind (ListRequestLayer.fails_toBytes hP _) fun _ => fails_pure _
    · exact fails_bind (fails_packPath hP _) fun _ => fails_pure _
    · exact fails_pure _
  · refine fails_bind (ResponseLayer.fails_toBytes hP _) fun head => ?_
    split
    · exact fails_bind (fails_pack (struct_of hP) _ _ _) fun _ => fails_pure _
    · exact fails_pure _
  · exact fails_bind (fails_pack (struct_of hP) _ _ _) fun _ => fails_pure _
  · exact fails_pack (struct_of hP) _ _ _
  · exact fails_ok _

end Fails

-- ============================================================================
-- Layers
-- ============================================================================

theorem BasicLayer.length_of_toBytes {l : BasicLayer} {bs : Bytes} (h : l.toBytes = .ok bs) :
    bs.length = l.len :=
  pack_length h

theorem BasicLayer.fromBytes_toBytes {l : BasicLayer} {bs : Bytes} (h : l.toBytes = .ok bs)
    (post : Bytes) : BasicLayer.fromBytes (bs ++ post) 0 = .ok l := by
  have hu := unpackFrom_pack h [] post (rfl : 0 = ([] : Bytes).length)
  rw [List.nil_append] at hu
  simp [BasicLayer.fromBytes, hu, norms, Code.norm]

theorem SegmentLayer.fromBytes_toBytes_append {l : SegmentLayer} {bs : Bytes}
    (h : l.toBytes = .ok bs) (pre post : Bytes) {offset : Nat} (hoff : offset = pre.length) :
    SegmentLayer.fromBytes (pre ++ (bs ++ post)) offset = .ok l := by
  rw [SegmentLayer.toBytes, except_bind_ok_iff] at h
  obtain ⟨head, hhead, hbs⟩ := h
  cases hbs
  have hu := unpackFrom_pack hhead pre (l.data ++ post) hoff
  have hlen : head.length = calcsize .native [.Q, .I] := pack_length hhead
  rw [List.append_assoc] at hu
  have hslice : slice (pre ++ (head ++ (l.data ++ post))) (offset + calcsize .native [.Q, .I])
      (offset + calcsize .native [.Q, .I] + l.data.length) = l.data := by
    rw [slice, ← List.append_assoc, List.drop_left' (by simp [hoff, hlen])]
    simp
  simp only [SegmentLayer.fromBytes, List.append_assoc, hu, except_ok_bind, norms, Code.norm,
    hslice, except_pure]

theorem SegmentLayer.fromBytes_toBytes {l : SegmentLayer} {bs : Bytes}
    (h : l.toBytes = .ok bs) (pre : Bytes) {offset : Nat} (hoff : offset = pre.length) :
    SegmentLayer.fromBytes (pre ++ bs) offset = .ok l := by
  have happ := SegmentLayer.fromBytes_toBytes_append h pre [] hoff
  rwa [List.append_nil] at happ

theorem AKCLayer.fromBytes_toBytes_append {l : AKCLayer} {bs : Bytes} (h : l.toBytes = .ok bs)
    (pre post : Bytes) {offset : Nat} (hoff : offset = pre.length) :
    AKCLayer.fromBytes (pre ++ (bs ++ post)) offset = .ok l := by
  have hu := unpackFrom_pack h pre post hoff
  rw [List.append_assoc] at hu
  simp [AKCLayer.fromBytes, hu, norms, Code.norm]

theorem AKCLayer.fromBytes_toBytes {l : AKCLayer} {bs : Bytes} (h : l.toBytes = .ok bs)
    (pre : Bytes) {offset : Nat} (hoff : offset = pre.length) :
    AKCLayer.fromBytes (pre ++ bs) offset = .ok l := by
  have happ := AKCLayer.fromBytes_toBytes_append h pre [] hoff
  rwa [List.append_nil] at happ

theorem DeleteResponseLayer.fromBytes_toBytes_append {l : DeleteResponseLayer} {bs : Bytes}
    (h : l.toBytes = .ok bs) (pre post : Bytes) {offset : Nat} (hoff : offset = pre.length) :
    DeleteResponseLayer.fromBytes (pre ++ (bs ++ post)) offset = .ok l := by
  have hu := unpackFrom_pack h pre post hoff
  rw [List.append_assoc] at hu
  obtain ⟨isFile⟩ := l
  rw [DeleteResponseLayer.fromBytes, hu]
  cases isFile <;> rfl

/-- The bytes a decoder cuts out for a text of that many characters. -/
theorem decode_slice_iff (s : Str) (pre post : Bytes) {offset : Nat}
    (hoff : offset = pre.length) :
    decode (slice (pre ++ (encode s ++ post)) offset (offset + s.length)) = .ok s ↔ Ascii s := by
  have hslice : slice (pre ++ (encode s ++ post)) offset (offset + s.length)
      = (encode s ++ post).take s.length := by
    rw [slice_append_of_le (by omega), slice, hoff, Nat.sub_self, List.drop_zero]
    congr 1
    omega
  rw [hslice, decode_take_iff]

/-- The parts of an encoded response layer. -/
theorem ResponseLayer.toBytes_ok_iff {l : ResponseLayer} {bs : Bytes} :
    l.toBytes = .ok bs ↔ ∃ head tail,
      pack .native [.bool, .B] [l.ok.toNat, l.errorMessage.length] = .ok head ∧
      pack .native [.Q, .Q, .Q] [l.dataSize, l.segmentsAmount, l.singleSegmentSize] = .ok tail ∧
      bs = head ++ (encode l.errorMessage ++ tail) := by
  simp only [toBytes, List.append_assoc]
  exact except_bind_bind_ok_iff

/-- The reads of a response layer behind its flag and the length of its message. -/
def ResponseLayer.restOfBytes (data : Bytes) (offset : Nat) (ok : Bool) (message : Bytes) :
    Except Exn ResponseLayer := do
  let errorMessage ← decode message
  match ← unpackFrom .native [.Q, .Q, .Q] data offset with
  | [dataSize, segmentsAmount, singleSegmentSize] =>
      return ⟨ok, errorMessage, dataSize, segmentsAmount, singleSegmentSize⟩
  | _ => throw .structError

/-- Where the fields of an encoded response layer are read. -/
theorem ResponseLayer.head_of_fromBytes {l : ResponseLayer} {head rest : Bytes}
    (hhead : pack .native [.bool, .B] [l.ok.toNat, l.errorMessage.length] = .ok head)
    (pre : Bytes) {offset : Nat} (hoff : offset = pre.length) :
    ResponseLayer.fromBytes (pre ++ (head ++ (encode l.errorMessage ++ rest))) offset =
      ResponseLayer.restOfBytes (pre ++ (head ++ (encode l.errorMessage ++ rest)))
        (offset + calcsize .native [.bool, .B] + l.errorMessage.length) l.ok
        ((encode l.errorMessage ++ rest).take l.errorMessage.length) := by
  have hu := unpackFrom_pack hhead pre (encode l.errorMessage ++ rest) hoff
  have hoff' : offset + calcsize .native [.bool, .B] = (pre ++ head).length := by
    rw [List.length_append, hoff, pack_length hhead]
  have hslice : slice (pre ++ (head ++ (encode l.errorMessage ++ rest)))
      (offset + calcsize .native [.bool, .B])
      (offset + calcsize .native [.bool, .B] + l.errorMessage.length) =
      (encode l.errorMessage ++ rest).take l.errorMessage.length := by
    rw [← List.append_assoc pre, slice_append_of_le (by omega), slice, hoff', Nat.sub_self,
      List.drop_zero]
    congr 1
    omega
  have hok : ((if l.ok.toNat = 0 then 0 else 1) != 0) = l.ok := by
    cases l.ok <;> rfl
  simp only [List.append_assoc] at hu
  simp only [ResponseLayer.fromBytes, hu, except_ok_bind, norms, Code.norm, hslice, hok]
  rfl

/-- What is read of a response layer: the flag, and the text of as many bytes as the
    message has characters. -/
theorem ResponseLayer.of_fromBytes_toBytes {l l' : ResponseLayer} {bs : Bytes}
    (h : l.toBytes = .ok bs) (pre post : Bytes) {offset : Nat} (hoff : offset = pre.length)
    (h' : ResponseLayer.fromBytes (pre ++ (bs ++ post)) offset = .ok l') :
    l'.ok = l.ok ∧ (l'.errorMessage = l.errorMessage ↔ Ascii l.errorMessage) := by
  obtain ⟨head, tail, hhead, -, rfl⟩ := ResponseLayer.toBytes_ok_iff.mp h
  simp only [List.append_assoc] at h'
  rw [ResponseLayer.head_of_fromBytes hhead pre hoff, restOfBytes, except_bind_ok_iff] at h'
  obtain ⟨errorMessage, hmessage, h'⟩ := h'
  obtain ⟨vals, -, h'⟩ := except_bind_ok_iff.mp h'
  split at h'
  · cases h'
    refine ⟨rfl, ?_⟩
    rw [← decode_take_iff l.errorMessage (tail ++ post), hmessage, Except.ok.injEq]
  · cases h'

/-- A Response with an ASCII message survives whole. -/
theorem ResponseLayer.fromBytes_toBytes_of_ascii {l : ResponseLayer} {bs : Bytes}
    (h : l.toBytes = .ok bs) (hmsg : Ascii l.errorMessage) (pre post : Bytes) {offset : Nat}
    (hoff : offset = pre.length) :
    ResponseLayer.fromBytes (pre ++ (bs ++ post)) offset = .ok l := by
  obtain ⟨head, tail, hhead, htail, rfl⟩ := ResponseLayer.toBytes_ok_iff.mp h
  have hoff' : offset + calcsize .native [.bool, .B] + l.errorMessage.length =
      (pre ++ (head ++ encode l.errorMessage)).length := by
    rw [List.length_append, List.length_append, (length_encode_eq_iff _).mpr hmsg,
      pack_length hhead, hoff]
    omega
  have hu := unpackFrom_pack htail (pre ++ (head ++ encode l.errorMessage)) post hoff'
  simp only [List.append_assoc] at hu ⊢
  rw [ResponseLayer.head_of_fromBytes hhead pre hoff, restOfBytes,
    (decode_take_iff _ _).mpr hmsg, except_ok_bind, hu]
  rfl

-- ============================================================================
-- Pockets
-- ============================================================================

namespace Pocket

/-- The parts of a sent pocket. -/
theorem toBytes_ok_iff {p : Pocket} {bs : Bytes} :
    p.toBytes = .ok bs ↔ ∃ head tail, p.basicLayer.toBytes = .ok head ∧
      p.layerBytes = .ok tail ∧ bs = head ++ tail := by
  rw [toBytes]
  exact except_bind_bind_ok_iff

/-- A pocket decodes to its basic layer and what its type adds. -/
theorem shape_of_fromBytes {data : Bytes} {p : Pocket} {basicLayer : BasicLayer}
    (hbasic : BasicLayer.fromBytes data 0 = .ok basicLayer) (h : fromBytes data = .ok p) :
    p.basicLayer = basicLayer ∧
      (p.responseLayer ≠ none → basicLayer.pocketType = .response) ∧
      (p.akcLayer ≠ none → basicLayer.pocketType = .ack) := by
  rw [fromBytes, hbasic] at h
  simp only [except_ok_bind] at h
  split at h
  · -- Request: the sub type picks one more layer
    rw [except_bind_ok_iff] at h
    obtain ⟨l, -, h⟩ := h
    split at h
    all_goals
      first
        | (rw [except_bind_ok_iff] at h; obtain ⟨l', -, h⟩ := h; cases h; simp)
        | (cases h; simp)
  · next htype =>
      -- Response: a Delete response has one more layer
      rw [except_bind_ok_iff] at h
      obtain ⟨l, -, h⟩ := h
      split at h
      · rw [except_bind_ok_iff] at h
        obtain ⟨l', -, h⟩ := h
        cases h
        exact ⟨rfl, fun _ => htype, fun hl => absurd rfl hl⟩
      · cases h
        exact ⟨rfl, fun _ => htype, fun hl => absurd rfl hl⟩
  · rw [except_bind_ok_iff] at h
    obtain ⟨l, -, h⟩ := h
    cases h
    exact ⟨rfl, fun hl => absurd rfl hl, fun hl => absurd rfl hl⟩
  · next htype =>
      rw [except_bind_ok_iff] at h
      obtain ⟨l, -, h⟩ := h
      cases h
      exact ⟨rfl, fun hl => absurd rfl hl, fun _ => htype⟩
  · cases h
    exact ⟨rfl, fun hl => absurd rfl hl, fun hl => absurd rfl hl⟩

theorem basicLayer_eq {data : Bytes} {p : Pocket} {basicLayer : BasicLayer}
    (hbasic : BasicLayer.fromBytes data 0 = .ok basicLayer) (h : fromBytes data = .ok p) :
    p.basicLayer = basicLayer :=
  (shape_of_fromBytes hbasic h).1

/-- Only Responses decode with a response layer, and only ACKs with an ACK layer. -/
theorem type_of_layer {data : Bytes} {p : Pocket} (h : fromBytes data = .ok p) :
    (p.responseLayer ≠ none → p.basicLayer.pocketType = .response) ∧
      (p.akcLayer ≠ none → p.basicLayer.pocketType = .ack) := by
  obtain ⟨basicLayer, hbasic, -⟩ := (except_bind_ok_iff).mp h
  obtain ⟨heq, hresponse, hakc⟩ := shape_of_fromBytes hbasic h
  rw [heq]
  exact ⟨hresponse, hakc⟩

/-- Whatever follows it, the basic layer of a sent pocket is read back. -/
theorem basicLayer_of_fromBytes {p q : Pocket} {bs : Bytes} (h : p.toBytes = .ok bs)
    (hq : fromBytes bs = .ok q) : q.basicLayer = p.basicLayer := by
  obtain ⟨head, tail, hhead, -, rfl⟩ := toBytes_ok_iff.mp h
  exact basicLayer_eq (BasicLayer.fromBytes_toBytes hhead tail) hq

/-- A decoded request id can be sent. -/
theorem requestID_fits {data : Bytes} {p : Pocket} (h : fromBytes data = .ok p) :
    Code.Q.Fits p.requestID := by
  obtain ⟨basicLayer, hbasic, -⟩ := (except_bind_ok_iff).mp h
  rw [requestID, basicLayer_eq hbasic h]
  obtain ⟨vals, hvals, hbasic⟩ := (except_bind_ok_iff).mp hbasic
  split at hbasic
  · simp only [except_bind_ok_iff] at hbasic
    obtain ⟨pocketType, -, pocketSubType, -, heq⟩ := hbasic
    cases heq
    have hfits := fits_of_unpackFrom hvals
    simp only [List.forall₂_cons] at hfits
    exact hfits.2.2.1
  · cases hbasic

/-- A decoded Segment pocket has its layer, with an id that can be sent. -/
theorem segmentLayer_of_fromBytes {data : Bytes} {p : Pocket} (h : fromBytes data = .ok p)
    (htype : p.basicLayer.pocketType = .segment) :
    ∃ l, p.segmentLayer = some l ∧ Code.Q.Fits l.segmentID := by
  obtain ⟨basicLayer, hbasic, hrest⟩ := (except_bind_ok_iff).mp h
  rw [basicLayer_eq hbasic h] at htype
  simp only [htype, except_bind_ok_iff] at hrest
  obtain ⟨l, hl, hp⟩ := hrest
  cases hp
  refine ⟨l, rfl, ?_⟩
  obtain ⟨vals, hvals, hl⟩ := (except_bind_ok_iff).mp hl
  split at hl
  · cases hl
    have hfits := fits_of_unpackFrom hvals
    simp only [List.forall₂_cons] at hfits
    exact hfits.1
  · cases hl

theorem akcPocket_encodes {r k : Nat} (hr : Code.Q.Fits r) (hk : Code.Q.Fits k) :
    ∃ bs, (akcPocket r k).toBytes = .ok bs := by
  have hhead : List.Forall₂ Code.Fits [.B, .B, .Q]
      [PocketType.ack.code, PocketSubType.unknown.code, r] :=
    .cons (by decide) (.cons (by decide) (.cons hr .nil))
  obtain ⟨head, hhead⟩ := pack_of_fits .native hhead
  obtain ⟨tail, htail⟩ := pack_of_fits .native (.cons hk .nil : List.Forall₂ Code.Fits [.Q] [k])
  exact ⟨head ++ tail, toBytes_ok_iff.mpr ⟨head, tail, hhead, htail, rfl⟩⟩

theorem fromBytes_segmentPocket {r k : Nat} {data bs : Bytes}
    (h : (segmentPocket r k data).toBytes = .ok bs) :
    fromBytes bs = .ok (segmentPocket r k data) := by
  obtain ⟨head, tail, hhead, htail, rfl⟩ := toBytes_ok_iff.mp h
  have hseg := SegmentLayer.fromBytes_toBytes (l := ⟨k, data⟩) htail head
    (BasicLayer.length_of_toBytes hhead).symm
  rw [fromBytes, BasicLayer.fromBytes_toBytes hhead]
  simp only [except_ok_bind, segmentPocket] at hseg ⊢
  rw [hseg]
  rfl

theorem fromBytes_akcPocket {r k : Nat} {bs : Bytes} (h : (akcPocket r k).toBytes = .ok bs) :
    fromBytes bs = .ok (akcPocket r k) := by
  obtain ⟨head, tail, hhead, htail, rfl⟩ := toBytes_ok_iff.mp h
  have hakc := AKCLayer.fromBytes_toBytes (l := ⟨k⟩) htail head
    (BasicLayer.length_of_toBytes hhead).symm
  rw [fromBytes, BasicLayer.fromBytes_toBytes hhead]
  simp only [except_ok_bind, akcPocket] at hakc ⊢
  rw [hakc]
  rfl

/-- The ACK layer of a ReadyForDownloading pocket is sent but not decoded. -/
theorem fromBytes_readyPocket {r : Nat} {bs : Bytes} (h : (readyPocket r).toBytes = .ok bs) :
    fromBytes bs = .ok { basicLayer := ⟨r, .readyForDownloading, .unknown⟩ } := by
  obtain ⟨head, tail, hhead, -, rfl⟩ := toBytes_ok_iff.mp h
  rw [fromBytes, BasicLayer.fromBytes_toBytes hhead]
  rfl

theorem fromBytes_complitedPocket {r : Nat} {bs : Bytes}
    (h : (complitedPocket r).toBytes = .ok bs) : fromBytes bs = .ok (complitedPocket r) := by
  obtain ⟨head, tail, hhead, -, rfl⟩ := toBytes_ok_iff.mp h
  rw [fromBytes, BasicLayer.fromBytes_toBytes hhead]
  rfl

/-- The size a sent Response announces. -/
theorem dataSize_fits {p : Pocket} {l : ResponseLayer} {bs : Bytes} (h : p.toBytes = .ok bs)
    (hplain : p.requestLayer = none) (hl : p.responseLayer = some l) :
    Code.Q.Fits l.dataSize := by
  obtain ⟨head, tail, -, htail, -⟩ := toBytes_ok_iff.mp h
  rw [layerBytes, hplain, hl] at htail
  obtain ⟨lb, hlb, -⟩ := (except_bind_ok_iff).mp htail
  simp only [ResponseLayer.toBytes, except_bind_ok_iff] at hlb
  obtain ⟨head', -, tail', htail', -⟩ := hlb
  have hfits := fits_of_pack htail'
  simp only [List.forall₂_cons] at hfits
  exact hfits.1

/-- Where the response layer of a sent Response is read. -/
theorem response_parts {p q : Pocket} {l : ResponseLayer} {bs : Bytes} (h : p.toBytes = .ok bs)
    (htype : p.basicLayer.pocketType = .response) (hplain : p.requestLayer = none)
    (hl : p.responseLayer = some l) (hq : fromBytes bs = .ok q) :
    ∃ head lb post l', bs = head ++ (lb ++ post) ∧ l.toBytes = .ok lb ∧
      ResponseLayer.fromBytes bs head.length = .ok l' ∧ q.responseLayer = some l' := by
  obtain ⟨head, tail, hhead, htail, rfl⟩ := toBytes_ok_iff.mp h
  have hparts : ∃ lb post, l.toBytes = .ok lb ∧ tail = lb ++ post := by
    rw [layerBytes, hplain, hl] at htail
    simp only [except_bind_ok_iff] at htail
    obtain ⟨lb, hlb, htail⟩ := htail
    split at htail
    · obtain ⟨post, -, htail⟩ := (except_bind_ok_iff).mp htail
      cases htail
      exact ⟨lb, post, hlb, rfl⟩
    · cases htail
      exact ⟨_, [], hlb, (List.append_nil _).symm⟩
  obtain ⟨lb, post, hlb, rfl⟩ := hparts
  rw [fromBytes, BasicLayer.fromBytes_toBytes hhead] at hq
  simp only [except_ok_bind, htype, except_bind_ok_iff] at hq
  obtain ⟨l', hl', hq⟩ := hq
  rw [← BasicLayer.length_of_toBytes hhead] at hl'
  refine ⟨head, lb, post, l', rfl, hlb, hl', ?_⟩
  split at hq
  · rw [except_bind_ok_iff] at hq
    obtain ⟨l'', -, hq⟩ := hq
    cases hq
    rfl
  · cases hq
    rfl

/-- A Response with an ASCII message: its two layers are read back, whatever follows. -/
theorem fromBytes_response {p q : Pocket} {l : ResponseLayer} {bs : Bytes}
    (h : p.toBytes = .ok bs) (htype : p.basicLayer.pocketType = .response)
    (hplain : p.requestLayer = none) (hl : p.responseLayer = some l) (hmsg : Ascii l.errorMessage)
    (hq : fromBytes bs = .ok q) : q.basicLayer = p.basicLayer ∧ q.responseLayer = some l := by
  obtain ⟨head, lb, post, l', rfl, hlb, hl', hresponse⟩ := response_parts h htype hplain hl hq
  rw [ResponseLayer.fromBytes_toBytes_of_ascii hlb hmsg head post rfl, Except.ok.injEq] at hl'
  exact ⟨basicLayer_of_fromBytes h hq, hl' ▸ hresponse⟩

/-- A Response that is read as ok was sent as ok, and without a message is read back. -/
theorem responseLayer_of_ok {p q : Pocket} {l l' : ResponseLayer} {bs : Bytes}
    (h : p.toBytes = .ok bs) (htype : p.basicLayer.pocketType = .response)
    (hplain : p.requestLayer = none) (hl : p.responseLayer = some l)
    (hmsg : l.ok = true → l.errorMessage = []) (hq : fromBytes bs = .ok q)
    (hl' : q.responseLayer = some l') (hok : l'.ok = true) : l' = l := by
  have hsame : l'.ok = l.ok := by
    obtain ⟨head, lb, post, l'', rfl, hlb, hl'', hresponse⟩ := response_parts h htype hplain hl hq
    rw [hl', Option.some_inj] at hresponse
    rw [hresponse]
    exact (ResponseLayer.of_fromBytes_toBytes hlb head post rfl hl'').1
  have hascii : Ascii l.errorMessage := by
    rw [hmsg (hsame ▸ hok)]
    exact nofun
  obtain ⟨-, hresponse⟩ := fromBytes_response h htype hplain hl hascii hq
  exact Option.some.inj (hl'.symm.trans hresponse)

end Pocket
end Ftp
end NetworkingFinal
