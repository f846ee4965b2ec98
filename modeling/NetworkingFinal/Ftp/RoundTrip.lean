/-
  NetworkingFinal.Ftp.RoundTrip

  The pockets of a transfer, with any sub type: the answer that opens it, its
  segments, their ACKs and the two pockets that end it.  Each of them survives
  the wire whatever bytes follow it, and every layer is as long as it says.
-/
import NetworkingFinal.Ftp.Wire

namespace NetworkingFinal
namespace Ftp

open Py Py.Struct

/-- The layer encodes, to as many bytes as its `__len__` says. -/
def Measured (len : Nat) (bytes : Except Exn Bytes) : Prop :=
  ∃ bs, bytes = .ok bs ∧ bs.length = len

-- ============================================================================
-- Layers
-- ============================================================================

theorem measured_of_pack {fmt : List Code} {vals : List Nat}
    (h : List.Forall₂ Code.Fits fmt vals) :
    Measured (calcsize .native fmt) (pack .native fmt vals) := by
  obtain ⟨bs, hbs⟩ := pack_of_fits .native h
  exact ⟨bs, hbs, pack_length hbs⟩

theorem fits_Q {n : Nat} (h : n < 2 ^ 64) : Code.Q.Fits n := h

theorem BasicLayer.measured {l : BasicLayer} (h : l.requestID < 2 ^ 64) :
    Measured l.len l.toBytes := by
  refine measured_of_pack (.cons ?_ (.cons ?_ (.cons (fits_Q h) .nil)))
  · cases l.pocketType <;> decide
  · cases l.pocketSubType <;> decide

/-- The answer that opens a transfer: no error, and sizes that fit. -/
structure ResponseLayer.Opening (l : ResponseLayer) : Prop where
  ok : l.ok = true
  errorMessage : l.errorMessage = []
  dataSize : l.dataSize < 2 ^ 64
  segmentsAmount : l.segmentsAmount < 2 ^ 64
  singleSegmentSize : l.singleSegmentSize < 2 ^ 64

theorem ResponseLayer.measured {l : ResponseLayer} (h : l.Opening) :
    Measured l.len l.toBytes := by
  have hflag : List.Forall₂ Code.Fits [.bool, .B] [l.ok.toNat, l.errorMessage.length] := by
    rw [h.ok, h.errorMessage]
    exact .cons (by decide) (.cons (by decide) .nil)
  obtain ⟨head, hhead, hheadlen⟩ := measured_of_pack hflag
  obtain ⟨tail, htail, htaillen⟩ := measured_of_pack
    (.cons (fits_Q h.dataSize) (.cons (fits_Q h.segmentsAmount)
      (.cons (fits_Q h.singleSegmentSize) .nil)) : List.Forall₂ Code.Fits [.Q, .Q, .Q] _)
  refine ⟨_, ResponseLayer.toBytes_ok_iff.mpr ⟨head, tail, hhead, htail, rfl⟩, ?_⟩
  rw [List.length_append, List.length_append, hheadlen, htaillen, h.errorMessage,
    ResponseLayer.len, h.errorMessage]
  rfl

theorem SegmentLayer.measured {l : SegmentLayer} (hid : l.segmentID < 2 ^ 64)
    (hdata : l.data.length < 2 ^ 32) : Measured l.len l.toBytes := by
  obtain ⟨head, hhead, hlen⟩ := measured_of_pack
    (.cons (fits_Q hid) (.cons hdata .nil) : List.Forall₂ Code.Fits [.Q, .I] _)
  refine ⟨head ++ l.data, ?_, ?_⟩
  · rw [SegmentLayer.toBytes, hhead]
    rfl
  · rw [List.length_append, hlen, SegmentLayer.len]

/-- An ACK layer encodes when its id fits. -/
theorem AKCLayer.measured_iff {l : AKCLayer} :
    Measured l.len l.toBytes ↔ l.segmentID < 2 ^ 64 := by
  constructor
  · rintro ⟨bs, hbs, -⟩
    cases fits_of_pack hbs with
    | cons h _ => exact h
  · intro h
    exact measured_of_pack (.cons (fits_Q h) .nil)

theorem DeleteResponseLayer.measured (l : DeleteResponseLayer) : Measured l.len l.toBytes := by
  refine measured_of_pack (.cons ?_ .nil)
  cases l.isFile <;> decide

-- ============================================================================
-- Pockets
-- ============================================================================

namespace Pocket

/-- The pockets of the transfer phase, with the layers their type has. -/
inductive Transfer : Pocket → Prop
  | response {requestID : Nat} {subType : PocketSubType} {l : ResponseLayer}
      {deleteResponseLayer : Option DeleteResponseLayer} (opening : l.Opening)
      (delete : deleteResponseLayer.isSome ↔ subType = .delete) :
      Transfer { basicLayer := ⟨requestID, .response, subType⟩, responseLayer := some l,
                 deleteResponseLayer }
  | segment {requestID : Nat} {subType : PocketSubType} {l : SegmentLayer}
      (id : l.segmentID < 2 ^ 64) (size : l.data.length < 2 ^ 32) :
      Transfer { basicLayer := ⟨requestID, .segment, subType⟩, segmentLayer := some l }
  | ack {requestID : Nat} {subType : PocketSubType} {l : AKCLayer} :
      Transfer { basicLayer := ⟨requestID, .ack, subType⟩, akcLayer := some l }
  | downloadComplited {requestID : Nat} {subType : PocketSubType} :
      Transfer { basicLayer := ⟨requestID, .downloadComplited, subType⟩ }
  | close {requestID : Nat} {subType : PocketSubType} :
      Transfer { basicLayer := ⟨requestID, .close, subType⟩ }

/-- Every layer of a transfer pocket is as long as it says. -/
structure LayersMeasured (p : Pocket) : Prop where
  basicLayer : Measured p.basicLayer.len p.basicLayer.toBytes
  responseLayer : ∀ l, p.responseLayer = some l → Measured l.len l.toBytes
  deleteResponseLayer : ∀ l, p.deleteResponseLayer = some l → Measured l.len l.toBytes
  segmentLayer : ∀ l, p.segmentLayer = some l → Measured l.len l.toBytes
  akcLayer : ∀ l, p.akcLayer = some l → Measured l.len l.toBytes

theorem layersMeasured_of_transfer {p : Pocket} (h : p.Transfer) (hid : p.requestID < 2 ^ 64)
    (hakc : ∀ l, p.akcLayer = some l → l.segmentID < 2 ^ 64) : p.LayersMeasured := by
  have hbasic := BasicLayer.measured hid
  have hdelete : ∀ l, p.deleteResponseLayer = some l → Measured l.len l.toBytes :=
    fun l _ => l.measured
  have hack : ∀ l, p.akcLayer = some l → Measured l.len l.toBytes :=
    fun l hl => AKCLayer.measured_iff.mpr (hakc l hl)
  cases h with
  | response opening _ =>
      exact ⟨hbasic, fun l hl => Option.some.inj hl ▸ ResponseLayer.measured opening, hdelete,
        fun _ hl => (Option.some_ne_none _ hl.symm).elim, hack⟩
  | segment id size =>
      exact ⟨hbasic, fun _ hl => (Option.some_ne_none _ hl.symm).elim, hdelete,
        fun l hl => Option.some.inj hl ▸ SegmentLayer.measured id size, hack⟩
  | ack | downloadComplited | close =>
      exact ⟨hbasic, fun _ hl => (Option.some_ne_none _ hl.symm).elim, hdelete,
        fun _ hl => (Option.some_ne_none _ hl.symm).elim, hack⟩

/-- A transfer pocket whose layers encode does. -/
theorem encodes_of_layersMeasured {p : Pocket} (h : p.Transfer) (hm : p.LayersMeasured) :
    ∃ bs, p.toBytes = .ok bs := by
  obtain ⟨head, hhead, -⟩ := hm.basicLayer
  suffices htail : ∃ tail, p.layerBytes = .ok tail by
    obtain ⟨tail, htail⟩ := htail
    exact ⟨head ++ tail, toBytes_ok_iff.mpr ⟨head, tail, hhead, htail, rfl⟩⟩
  cases h with
  | @response _ _ l deleteResponseLayer =>
      obtain ⟨body, hbody, -⟩ := hm.responseLayer l rfl
      cases deleteResponseLayer with
      | none => exact ⟨body, by simp only [layerBytes, hbody, except_ok_bind, except_pure]⟩
      | some d =>
          obtain ⟨flag, hflag, -⟩ := hm.deleteResponseLayer d rfl
          exact ⟨body ++ flag,
            by simp only [layerBytes, hbody, hflag, except_ok_bind, except_pure]⟩
  | @segment _ _ l =>
      obtain ⟨body, hbody, -⟩ := hm.segmentLayer l rfl
      exact ⟨body, hbody⟩
  | @ack _ _ l =>
      obtain ⟨body, hbody, -⟩ := hm.akcLayer l rfl
      exact ⟨body, hbody⟩
  | downloadComplited | close => exact ⟨[], rfl⟩

/-- The decoder picks by the type what the encoder picked by the layers. -/
theorem fromBytes_append_of_transfer {p : Pocket} {bs : Bytes} (h : p.Transfer)
    (hbs : p.toBytes = .ok bs) (post : Bytes) : fromBytes (bs ++ post) = .ok p := by
  obtain ⟨head, tail, hhead, htail, rfl⟩ := toBytes_ok_iff.mp hbs
  have hoff := (BasicLayer.length_of_toBytes hhead).symm
  rw [List.append_assoc, fromBytes, BasicLayer.fromBytes_toBytes hhead, except_ok_bind]
  cases h with
  | @response requestID subType l deleteResponseLayer opening delete =>
      have hascii : Ascii l.errorMessage := by simp [opening.errorMessage, Ascii]
      obtain ⟨body, hbody, hrest⟩ := except_bind_ok_iff.mp htail
      cases deleteResponseLayer with
      | none =>
          have hsub : subType ≠ .delete := fun hs => by simpa using delete.mpr hs
          cases hrest
          have hl := ResponseLayer.fromBytes_toBytes_of_ascii hbody hascii head post hoff
          simp only [hl, except_ok_bind, if_neg hsub]
          rfl
      | some d =>
          obtain ⟨flag, hflag, hrest⟩ := except_bind_ok_iff.mp hrest
          cases hrest
          have hsub : subType = .delete := delete.mp rfl
          have hl := ResponseLayer.fromBytes_toBytes_of_ascii hbody hascii head (flag ++ post) hoff
          obtain ⟨measured, hmeasured, hlen⟩ := ResponseLayer.measured opening
          obtain rfl : body = measured := Except.ok.inj (hbody.symm.trans hmeasured)
          have hd := DeleteResponseLayer.fromBytes_toBytes_append hflag (head ++ body) post
            (by rw [List.length_append, ← hoff, hlen])
          simp only [List.append_assoc] at hd
          simp only [List.append_assoc, hl, hd, except_ok_bind, if_pos hsub, except_pure]
  | @segment _ _ l =>
      have hl := SegmentLayer.fromBytes_toBytes_append (l := l) htail head post hoff
      simp only [hl, except_ok_bind, except_pure]
  | @ack _ _ l =>
      have hl := AKCLayer.fromBytes_toBytes_append (l := l) htail head post hoff
      simp only [hl, except_ok_bind, except_pure]
  | downloadComplited | close => rfl

/-- What encodes has an ACK id that fits, and layers as long as they say. -/
theorem fits_of_toBytes {p : Pocket} {bs : Bytes} (h : p.Transfer) (hbs : p.toBytes = .ok bs) :
    ∀ l, p.akcLayer = some l → l.segmentID < 2 ^ 64 := by
  intro l hl
  obtain ⟨head, tail, -, htail, -⟩ := toBytes_ok_iff.mp hbs
  cases h with
  | ack =>
      cases hl
      exact AKCLayer.measured_iff.mp ⟨tail, htail, pack_length htail⟩
  | _ => cases hl

/-- A transfer pocket encodes unless the id of its ACK does not fit.  Whatever bytes
    follow it, it is then read back whole, and every layer is as long as it says. -/
theorem transfer_survives {p : Pocket} (h : p.Transfer) (hid : p.requestID < 2 ^ 64) :
    ((∃ bs, p.toBytes = .ok bs) ↔ ∀ l, p.akcLayer = some l → l.segmentID < 2 ^ 64) ∧
      ∀ bs, p.toBytes = .ok bs →
        p.LayersMeasured ∧
        ∀ t, ∃ q, fromBytes (bs ++ t) = .ok q ∧ q = p ∧ q.toBytes = .ok bs := by
  refine ⟨⟨fun ⟨bs, hbs⟩ => fits_of_toBytes h hbs, fun hakc => ?_⟩, fun bs hbs => ⟨?_, fun t => ?_⟩⟩
  · exact encodes_of_layersMeasured h (layersMeasured_of_transfer h hid hakc)
  · exact layersMeasured_of_transfer h hid (fits_of_toBytes h hbs)
  · exact ⟨p, fromBytes_append_of_transfer h hbs t, rfl, hbs⟩

/-- The answer to a delete of a file, whose last layer starts at offset 42. -/
theorem transfer_survives_delete :
    let p : Pocket :=
      { basicLayer := ⟨7, .response, .delete⟩, responseLayer := some ⟨true, [], 0, 0, 1500⟩,
        deleteResponseLayer := some ⟨true⟩ }
    ∃ bs, p.toBytes = .ok bs ∧ bs.length = 43 ∧
      ∀ t, ∃ q, fromBytes (bs ++ t) = .ok q ∧ q = p ∧ q.toBytes = .ok bs := by
  intro p
  have hp : p.Transfer := .response ⟨rfl, rfl, by decide, by decide, by decide⟩ (by decide)
  have h := transfer_survives hp (by decide)
  obtain ⟨bs, hbs⟩ := h.1.mpr (fun _ hl => (Option.some_ne_none _ hl.symm).elim)
  have hlen : (p.toBytes.toOption.map List.length) = some 43 := by decide
  rw [hbs] at hlen
  exact ⟨bs, hbs, Option.some.inj hlen, (h.2 bs hbs).2⟩

end Pocket
end Ftp
end NetworkingFinal
