/-
  NetworkingFinal.Ftp.Readable

  Which byte strings decode to a pocket.  Each layer has its shape: the numbers it
  starts with, the texts whose lengths they give, and where the next layer starts,
  which the code counts in characters.

  - `layer.fromBytes_ok_iff`: one layer.
  - `Pocket.fromBytes_ok_iff`: the pocket.
-/
import NetworkingFinal.Ftp.Pocket

namespace NetworkingFinal
namespace Ftp

open Py Py.Struct

/-- The bytes are valid UTF-8. -/
def IsText (data : Bytes) : Prop := ∃ text, decode data = .ok text

/-- The characters of the bytes as a text. -/
def characters (data : Bytes) : Nat :=
  match decode data with
  | .ok text => text.length
  | .error _ => 0

theorem characters_of_decode {data : Bytes} {text : Str} (h : decode data = .ok text) :
    characters data = text.length := by
  rw [characters, h]

-- ============================================================================
-- The formats
-- ============================================================================

section Formats

variable (data : Bytes) (offset : Nat)

theorem unpack_basic :
    unpackFrom .native [.B, .B, .Q] data offset =
      if offset + 16 ≤ data.length then
        .ok [numberAt data offset 1, numberAt data (offset + 1) 1, numberAt data (offset + 8) 8]
      else .error .structError := by
  rw [unpackFrom_eq_of_pos (by decide)]
  simp [calcsize, calcsizeFrom, valuesFrom, Order.pad, Code.size, Code.norm, Order.ofBytes,
    ofLittle_take_drop, List.drop_drop, Nat.add_assoc]

theorem unpack_request :
    unpackFrom .native [.Q, .Q, .bool, .I] data offset =
      if offset + 24 ≤ data.length then
        .ok [numberAt data offset 8, numberAt data (offset + 8) 8,
          if numberAt data (offset + 16) 1 = 0 then 0 else 1, numberAt data (offset + 20) 4]
      else .error .structError := by
  rw [unpackFrom_eq_of_pos (by decide)]
  simp [calcsize, calcsizeFrom, valuesFrom, Order.pad, Code.size, Code.norm, Order.ofBytes,
    ofLittle_take_drop, List.drop_drop, Nat.add_assoc]

theorem unpack_response :
    unpackFrom .native [.bool, .B] data offset =
      if offset + 2 ≤ data.length then
        .ok [if numberAt data offset 1 = 0 then 0 else 1, numberAt data (offset + 1) 1]
      else .error .structError := by
  rw [unpackFrom_eq_of_pos (by decide)]
  simp [calcsize, calcsizeFrom, valuesFrom, Order.pad, Code.size, Code.norm, Order.ofBytes,
    ofLittle_take_drop, List.drop_drop]

theorem unpack_sizes :
    unpackFrom .native [.Q, .Q, .Q] data offset =
      if offset + 24 ≤ data.length then
        .ok [numberAt data offset 8, numberAt data (offset + 8) 8, numberAt data (offset + 16) 8]
      else .error .structError := by
  rw [unpackFrom_eq_of_pos (by decide)]
  simp [calcsize, calcsizeFrom, valuesFrom, Order.pad, Code.size, Code.norm, Order.ofBytes,
    ofLittle_take_drop, List.drop_drop, Nat.add_assoc]

theorem unpack_segment :
    unpackFrom .native [.Q, .I] data offset =
      if offset + 12 ≤ data.length then
        .ok [numberAt data offset 8, numberAt data (offset + 8) 4]
      else .error .structError := by
  rw [unpackFrom_eq_of_pos (by decide)]
  simp [calcsize, calcsizeFrom, valuesFrom, Order.pad, Code.size, Code.norm, Order.ofBytes,
    ofLittle_take_drop, List.drop_drop]

theorem unpack_id :
    unpackFrom .native [.Q] data offset =
      if offset + 8 ≤ data.length then
        .ok [numberAt data offset 8]
      else .error .structError := by
  rw [unpackFrom_eq_of_pos (by decide)]
  simp [calcsize, calcsizeFrom, valuesFrom, Order.pad, Code.size, Code.norm, Order.ofBytes,
    ofLittle_take_drop, List.drop_drop]

theorem unpack_length :
    unpackFrom .native [.I] data offset =
      if offset + 4 ≤ data.length then
        .ok [numberAt data offset 4]
      else .error .structError := by
  rw [unpackFrom_eq_of_pos (by decide)]
  simp [calcsize, calcsizeFrom, valuesFrom, Order.pad, Code.size, Code.norm, Order.ofBytes,
    ofLittle_take_drop, List.drop_drop]

theorem unpack_bool :
    unpackFrom .native [.bool] data offset =
      if offset + 1 ≤ data.length then
        .ok [if numberAt data offset 1 = 0 then 0 else 1]
      else .error .structError := by
  rw [unpackFrom_eq_of_pos (by decide)]
  simp [calcsize, calcsizeFrom, valuesFrom, Order.pad, Code.size, Code.norm, Order.ofBytes,
    ofLittle_take_drop, List.drop_drop]

end Formats

-- ============================================================================
-- The layers
-- ============================================================================

section Layers

variable (data : Bytes) (offset : Nat)

/-- A length and that many bytes of text. -/
def PathAt : Prop :=
  offset + 4 ≤ data.length ∧
    IsText (slice data (offset + 4) (offset + 4 + numberAt data offset 4))

theorem unpackPath_ok_iff : (∃ path, unpackPath data offset = .ok path) ↔ PathAt data offset := by
  rw [unpackPath, unpack_length, PathAt]
  by_cases hlen : offset + 4 ≤ data.length
  · rw [if_pos hlen, and_iff_right hlen]
    rfl
  · rw [if_neg hlen]
    exact error_ok_iff fun h => hlen h.1

theorem UploadRequestLayer.fromBytes_ok_iff :
    (∃ l, UploadRequestLayer.fromBytes data offset = .ok l) ↔ PathAt data offset := by
  rw [← unpackPath_ok_iff, UploadRequestLayer.fromBytes, exists_bind_ok_iff]
  simp

theorem DownloadRequestLayer.fromBytes_ok_iff :
    (∃ l, DownloadRequestLayer.fromBytes data offset = .ok l) ↔ PathAt data offset := by
  rw [← unpackPath_ok_iff, DownloadRequestLayer.fromBytes, exists_bind_ok_iff]
  simp

theorem DeleteRequestLayer.fromBytes_ok_iff :
    (∃ l, DeleteRequestLayer.fromBytes data offset = .ok l) ↔ PathAt data offset := by
  rw [← unpackPath_ok_iff, DeleteRequestLayer.fromBytes, exists_bind_ok_iff]
  simp

/-- A path and the byte after it. -/
def ListAt : Prop :=
  PathAt data offset ∧ offset + 4 + numberAt data offset 4 + 1 ≤ data.length

theorem ListRequestLayer.fromBytes_ok_iff :
    (∃ l, ListRequestLayer.fromBytes data offset = .ok l) ↔ ListAt data offset := by
  have hsize : calcsize .native [.I] = 4 := rfl
  rw [ListRequestLayer.fromBytes, unpack_length, ListAt, PathAt]
  by_cases hlen : offset + 4 ≤ data.length
  · rw [if_pos hlen, and_iff_right hlen, except_ok_bind]
    dsimp only
    rw [hsize, unpack_bool]
    by_cases hflag : offset + 4 + numberAt data offset 4 + 1 ≤ data.length
    · rw [if_pos hflag, and_iff_left hflag, except_ok_bind]
      dsimp only
      rw [exists_bind_ok_iff]
      simp [IsText]
    · rw [if_neg hflag]
      exact error_ok_iff fun h => hflag h.2
  · rw [if_neg hlen]
    exact error_ok_iff fun h => hlen h.1.1

theorem SegmentLayer.fromBytes_ok_iff :
    (∃ l, SegmentLayer.fromBytes data offset = .ok l) ↔ offset + 12 ≤ data.length := by
  rw [SegmentLayer.fromBytes, unpack_segment]
  by_cases hlen : offset + 12 ≤ data.length
  · rw [if_pos hlen]
    exact ⟨fun _ => hlen, fun _ => ⟨_, rfl⟩⟩
  · rw [if_neg hlen]
    exact error_ok_iff hlen

theorem AKCLayer.fromBytes_ok_iff :
    (∃ l, AKCLayer.fromBytes data offset = .ok l) ↔ offset + 8 ≤ data.length := by
  rw [AKCLayer.fromBytes, unpack_id]
  by_cases hlen : offset + 8 ≤ data.length
  · rw [if_pos hlen]
    exact ⟨fun _ => hlen, fun _ => ⟨_, rfl⟩⟩
  · rw [if_neg hlen]
    exact error_ok_iff hlen

theorem DeleteResponseLayer.fromBytes_ok_iff :
    (∃ l, DeleteResponseLayer.fromBytes data offset = .ok l) ↔ offset + 1 ≤ data.length := by
  rw [DeleteResponseLayer.fromBytes, unpack_bool]
  by_cases hlen : offset + 1 ≤ data.length
  · rw [if_pos hlen]
    exact ⟨fun _ => hlen, fun _ => ⟨_, rfl⟩⟩
  · rw [if_neg hlen]
    exact error_ok_iff hlen

/-- The user name of a request that is not anonymous. -/
def userNameBytes : Bytes :=
  slice data (offset + 24) (offset + 24 + numberAt data (offset + 20) 4)

/-- Where the length of the password stands. -/
def passwordOffset : Nat := offset + 24 + numberAt data (offset + 20) 4

/-- The password of a request that is not anonymous. -/
def passwordBytes : Bytes :=
  slice data (passwordOffset data offset + 4)
    (passwordOffset data offset + 4 + numberAt data (passwordOffset data offset) 4)

/-- Sizes, the anonymous byte and a length; then, unless the byte is set, the user name
    and the password with its length. -/
def RequestAt : Prop :=
  offset + 24 ≤ data.length ∧
    (numberAt data (offset + 16) 1 = 0 →
      IsText (userNameBytes data offset) ∧ passwordOffset data offset + 4 ≤ data.length ∧
        IsText (passwordBytes data offset))

/-- Where the code looks for the layer after a request layer. -/
def requestEnd : Nat :=
  if numberAt data (offset + 16) 1 = 0 then
    offset + 28 + characters (userNameBytes data offset) + characters (passwordBytes data offset)
  else offset + 28

theorem RequestLayer.fromBytes_ok_iff :
    (∃ l, RequestLayer.fromBytes data offset = .ok l) ↔ RequestAt data offset := by
  rw [RequestLayer.fromBytes, unpack_request, RequestAt]
  by_cases hlen : offset + 24 ≤ data.length
  · have hsize : calcsize .native [.Q, .Q, .bool, .I] = 24 := rfl
    rw [if_pos hlen, and_iff_right hlen, except_ok_bind]
    dsimp only
    by_cases hanonymous : numberAt data (offset + 16) 1 = 0
    · rw [if_pos hanonymous, if_neg (by simp), hsize, exists_bind_ok_iff]
      simp only [hanonymous, forall_const, unpack_length]
      by_cases hpassword : passwordOffset data offset + 4 ≤ data.length
      · simp only [and_iff_right hpassword]
        rw [passwordOffset] at hpassword
        rw [if_pos hpassword]
        simp only [except_ok_bind, exists_bind_ok_iff]
        simp [IsText, userNameBytes, passwordBytes, passwordOffset, calcsize, calcsizeFrom,
          Order.pad, Code.size]
      · simp only [hpassword, false_and, and_false, iff_false, not_exists]
        rw [passwordOffset] at hpassword
        rw [if_neg hpassword]
        rintro name ⟨-, l, hl⟩
        cases hl
    · rw [if_neg hanonymous, if_pos (by decide)]
      exact ⟨fun _ h => absurd h hanonymous, fun _ => ⟨_, rfl⟩⟩
  · rw [if_neg hlen]
    exact error_ok_iff fun h => hlen h.1

theorem end_of_requestLayer {l : RequestLayer} (h : RequestLayer.fromBytes data offset = .ok l) :
    offset + l.len = requestEnd data offset := by
  have hsize : calcsize .native [.Q, .Q, .bool, .I] = 24 := rfl
  have hfour : calcsize .native [.I] = 4 := rfl
  rw [RequestLayer.fromBytes, unpack_request] at h
  by_cases hlen : offset + 24 ≤ data.length
  · rw [if_pos hlen, except_ok_bind] at h
    dsimp only at h
    by_cases hanonymous : numberAt data (offset + 16) 1 = 0
    · rw [if_pos hanonymous, if_neg (by simp), hsize] at h
      obtain ⟨userName, huser, h⟩ := except_bind_ok_iff.mp h
      rw [unpack_length] at h
      by_cases hpassword : offset + 24 + numberAt data (offset + 20) 4 + 4 ≤ data.length
      · rw [if_pos hpassword, except_ok_bind] at h
        obtain ⟨password, hpass, h⟩ := except_bind_ok_iff.mp h
        cases h
        rw [hfour] at hpass
        rw [requestEnd, if_pos hanonymous, userNameBytes, characters_of_decode huser,
          passwordBytes, passwordOffset, characters_of_decode hpass, RequestLayer.len, hsize, hfour]
        dsimp only
        omega
      · rw [if_neg hpassword] at h
        cases h
    · rw [if_neg hanonymous, if_pos (by decide)] at h
      cases h
      rw [requestEnd, if_neg hanonymous]
      rfl
  · rw [if_neg hlen] at h
    cases h

/-- The error message of a response. -/
def messageBytes : Bytes :=
  slice data (offset + 2) (offset + 2 + numberAt data (offset + 1) 1)

/-- The ok byte, a length, the message and three sizes. -/
def ResponseAt : Prop :=
  offset + 2 ≤ data.length ∧ IsText (messageBytes data offset) ∧
    offset + 2 + numberAt data (offset + 1) 1 + 24 ≤ data.length

/-- Where the code looks for the layer after a response layer. -/
def responseEnd : Nat := offset + 26 + characters (messageBytes data offset)

/-- A response layer that is read, and where it ends. -/
theorem ResponseLayer.fromBytes_ok_iff :
    (∃ l, ResponseLayer.fromBytes data offset = .ok l) ↔ ResponseAt data offset := by
  have hsize : calcsize .native [.bool, .B] = 2 := rfl
  rw [ResponseLayer.fromBytes, unpack_response, ResponseAt]
  by_cases hlen : offset + 2 ≤ data.length
  · rw [if_pos hlen, and_iff_right hlen, except_ok_bind]
    dsimp only
    rw [hsize, exists_bind_ok_iff]
    simp only [unpack_sizes]
    by_cases hsizes : offset + 2 + numberAt data (offset + 1) 1 + 24 ≤ data.length
    · simp only [if_pos hsizes, and_iff_left hsizes, except_ok_bind]
      simp [IsText, messageBytes]
    · simp only [hsizes, and_false, iff_false, not_exists, if_false]
      rintro message ⟨-, l, hl⟩
      cases hl
  · rw [if_neg hlen]
    exact error_ok_iff fun h => hlen h.1

theorem end_of_responseLayer {l : ResponseLayer}
    (h : ResponseLayer.fromBytes data offset = .ok l) :
    offset + l.len = responseEnd data offset := by
  have hsize : calcsize .native [.bool, .B] = 2 := rfl
  have hsizes : calcsize .native [.Q, .Q, .Q] = 24 := rfl
  rw [ResponseLayer.fromBytes, unpack_response] at h
  by_cases hlen : offset + 2 ≤ data.length
  · rw [if_pos hlen, except_ok_bind] at h
    dsimp only at h
    rw [hsize] at h
    obtain ⟨message, hmessage, h⟩ := except_bind_ok_iff.mp h
    rw [unpack_sizes] at h
    split at h
    · cases h
      rw [responseEnd, messageBytes, characters_of_decode hmessage, ResponseLayer.len, hsize, hsizes]
      dsimp only
      omega
    · cases h
  · rw [if_neg hlen] at h
    cases h

end Layers

-- ============================================================================
-- The pocket
-- ============================================================================

/-- The layers that the two type bytes ask for stand after the basic layer. -/
def LayersAt (data : Bytes) : PocketType → PocketSubType → Prop
  | .request, subType =>
      RequestAt data 16 ∧
        match subType with
        | .upload | .download | .delete => PathAt data (requestEnd data 16)
        | .list => ListAt data (requestEnd data 16)
        | .unknown => True
  | .response, subType =>
      ResponseAt data 16 ∧ (subType = .delete → responseEnd data 16 + 1 ≤ data.length)
  | .segment, _ => 28 ≤ data.length
  | .ack, _ => 24 ≤ data.length
  | _, _ => True

/-- The bytes hold a basic layer with known types, and the layers it asks for. -/
def PocketAt (data : Bytes) : Prop :=
  16 ≤ data.length ∧ ∃ pocketType subType, numberAt data 0 1 = pocketType.code ∧
    numberAt data 1 1 = subType.code ∧ LayersAt data pocketType subType

theorem PocketType.ofCode_eq_ok_iff (n : Nat) (t : PocketType) :
    PocketType.ofCode n = .ok t ↔ n = t.code := by
  constructor
  · intro h
    unfold PocketType.ofCode at h
    split at h <;> cases h <;> rfl
  · rintro rfl
    exact PocketType.ofCode_code t

theorem PocketSubType.ofCode_eq_ok_iff (n : Nat) (t : PocketSubType) :
    PocketSubType.ofCode n = .ok t ↔ n = t.code := by
  constructor
  · intro h
    unfold PocketSubType.ofCode at h
    split at h <;> cases h <;> rfl
  · rintro rfl
    exact PocketSubType.ofCode_code t

theorem PocketType.code_inj {t u : PocketType} (h : t.code = u.code) : t = u := by
  have hcode := (PocketType.ofCode_eq_ok_iff t.code u).mpr h
  rw [PocketType.ofCode_code] at hcode
  exact Except.ok.inj hcode

theorem PocketSubType.code_inj {t u : PocketSubType} (h : t.code = u.code) : t = u := by
  have hcode := (PocketSubType.ofCode_eq_ok_iff t.code u).mpr h
  rw [PocketSubType.ofCode_code] at hcode
  exact Except.ok.inj hcode

/-- The types a datagram starts with. -/
theorem BasicLayer.fromBytes_ok_iff (data : Bytes) (l : BasicLayer) :
    BasicLayer.fromBytes data 0 = .ok l ↔
      16 ≤ data.length ∧ numberAt data 0 1 = l.pocketType.code ∧
        numberAt data 1 1 = l.pocketSubType.code ∧ numberAt data 8 8 = l.requestID := by
  rw [BasicLayer.fromBytes, unpack_basic]
  simp only [Nat.zero_add]
  by_cases hlen : 16 ≤ data.length
  · rw [if_pos hlen, and_iff_right hlen, except_ok_bind]
    dsimp only
    simp only [except_bind_ok_iff, PocketType.ofCode_eq_ok_iff, PocketSubType.ofCode_eq_ok_iff,
      except_pure, Except.ok.injEq]
    constructor
    · rintro ⟨pocketType, htype, subType, hsub, rfl⟩
      exact ⟨htype, hsub, rfl⟩
    · rintro ⟨htype, hsub, hid⟩
      exact ⟨l.pocketType, htype, l.pocketSubType, hsub, by rw [hid]⟩
  · rw [if_neg hlen]
    exact ⟨fun h => (nomatch h), fun h => absurd h.1 hlen⟩

/-- The layers after a basic layer. -/
theorem layers_ok_iff {data : Bytes} {l : BasicLayer} (h : BasicLayer.fromBytes data 0 = .ok l) :
    (∃ p, Pocket.fromBytes data = .ok p) ↔ LayersAt data l.pocketType l.pocketSubType := by
  have hlen : l.len = 16 := rfl
  have hrequest : ∀ r, RequestLayer.fromBytes data 16 = .ok r → 16 + r.len = requestEnd data 16 :=
    fun r hr => end_of_requestLayer data 16 hr
  have hresponse : ∀ r, ResponseLayer.fromBytes data 16 = .ok r →
      16 + r.len = responseEnd data 16 := fun r hr => end_of_responseLayer data 16 hr
  rw [Pocket.fromBytes, h, except_ok_bind]
  obtain ⟨requestID, pocketType, subType⟩ := l
  dsimp only
  rw [hlen]
  cases pocketType with
  | request =>
      simp only [LayersAt, ← RequestLayer.fromBytes_ok_iff, exists_bind_ok_iff]
      cases hlayer : RequestLayer.fromBytes data 16 with
      | error e => simp
      | ok r =>
          simp only [Except.ok.injEq, exists_eq_left', hrequest r hlayer, exists_eq', true_and]
          cases subType with
          | upload => rw [exists_bind_ok_iff, ← UploadRequestLayer.fromBytes_ok_iff]; simp
          | download => rw [exists_bind_ok_iff, ← DownloadRequestLayer.fromBytes_ok_iff]; simp
          | list => rw [exists_bind_ok_iff, ← ListRequestLayer.fromBytes_ok_iff]; simp
          | delete => rw [exists_bind_ok_iff, ← DeleteRequestLayer.fromBytes_ok_iff]; simp
          | unknown => simp
  | response =>
      simp only [LayersAt, ← ResponseLayer.fromBytes_ok_iff, exists_bind_ok_iff]
      cases hlayer : ResponseLayer.fromBytes data 16 with
      | error e => simp
      | ok r =>
          simp only [Except.ok.injEq, exists_eq_left', hresponse r hlayer, exists_eq', true_and]
          by_cases hsub : subType = .delete
          · rw [if_pos hsub, exists_bind_ok_iff, ← DeleteResponseLayer.fromBytes_ok_iff]
            simp [hsub]
          · rw [if_neg hsub]
            simp [hsub]
  | segment =>
      rw [exists_bind_ok_iff, LayersAt, ← SegmentLayer.fromBytes_ok_iff data 16]
      simp
  | ack =>
      rw [exists_bind_ok_iff, LayersAt, ← AKCLayer.fromBytes_ok_iff data 16]
      simp
  | unknown => simp [LayersAt]
  | readyForDownloading => simp [LayersAt]
  | downloadComplited => simp [LayersAt]
  | close => simp [LayersAt]

/-- The first layers of a decoded pocket. -/
theorem Pocket.head_of_fromBytes {data : Bytes} {p : Pocket} (h : Pocket.fromBytes data = .ok p) :
    BasicLayer.fromBytes data 0 = .ok p.basicLayer ∧
      (p.basicLayer.pocketType = .request →
        ∃ layer, p.requestLayer = some layer ∧ RequestLayer.fromBytes data 16 = .ok layer) := by
  obtain ⟨l, hl, h⟩ := except_bind_ok_iff.mp h
  rw [hl]
  obtain ⟨requestID, pocketType, subType⟩ := l
  dsimp only at h
  cases pocketType with
  | request =>
      obtain ⟨layer, hlayer, h⟩ := except_bind_ok_iff.mp h
      have hhead : p.basicLayer = ⟨requestID, .request, subType⟩ ∧ p.requestLayer = some layer := by
        cases subType with
        | unknown =>
            cases h
            exact ⟨rfl, rfl⟩
        | upload | download | list | delete =>
            obtain ⟨_, -, h⟩ := except_bind_ok_iff.mp h
            cases h
            exact ⟨rfl, rfl⟩
      exact ⟨by rw [hhead.1], fun _ => ⟨layer, hhead.2, hlayer⟩⟩
  | response =>
      obtain ⟨layer, -, h⟩ := except_bind_ok_iff.mp h
      split at h
      · obtain ⟨_, -, h⟩ := except_bind_ok_iff.mp h
        cases h
        exact ⟨rfl, nofun⟩
      · cases h
        exact ⟨rfl, nofun⟩
  | segment | ack =>
      obtain ⟨_, -, h⟩ := except_bind_ok_iff.mp h
      cases h
      exact ⟨rfl, nofun⟩
  | unknown | readyForDownloading | downloadComplited | close =>
      cases h
      exact ⟨rfl, nofun⟩

/-- A byte string decodes exactly when it holds a pocket. -/
theorem Pocket.fromBytes_ok_iff (data : Bytes) :
    (∃ p, Pocket.fromBytes data = .ok p) ↔ PocketAt data := by
  constructor
  · rintro ⟨p, hp⟩
    obtain ⟨l, hl, -⟩ := except_bind_ok_iff.mp hp
    obtain ⟨hlen, htype, hsub, -⟩ := (BasicLayer.fromBytes_ok_iff data l).mp hl
    exact ⟨hlen, l.pocketType, l.pocketSubType, htype, hsub, (layers_ok_iff hl).mp ⟨p, hp⟩⟩
  · rintro ⟨hlen, pocketType, subType, htype, hsub, hlayers⟩
    have hl := (BasicLayer.fromBytes_ok_iff data ⟨numberAt data 8 8, pocketType, subType⟩).mpr
      ⟨hlen, htype, hsub, rfl⟩
    exact (layers_ok_iff hl).mpr hlayers

end Ftp
end NetworkingFinal
