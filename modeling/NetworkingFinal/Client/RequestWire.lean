/-
  NetworkingFinal.Client.RequestWire

  What the server decodes of the Request a command sends.  Every length a Request
  carries counts characters, so the user name, the password and the path are read
  back exactly when each of their characters is one byte (`requests_survive_iff`).

  A text and the number of its characters in front of it are the one thing the
  layers have in common: `Ftp.decode_slice_iff`.
-/
import NetworkingFinal.Client.Commands

namespace NetworkingFinal
namespace Ftp

open Py Py.Struct

-- ============================================================================
-- Layers
-- ============================================================================

namespace RequestLayer

/-- An anonymous request names nobody. -/
def Proper (l : RequestLayer) : Prop := l.anonymous = true → l.userName = [] ∧ l.password = []

/-- The parts of an encoded layer. -/
theorem toBytes_ok_iff {l : RequestLayer} {bs : Bytes} :
    l.toBytes = .ok bs ↔ ∃ head mid,
      pack .native [.Q, .Q, .bool, .I] [l.pocketFullSize, l.maxSingleSegmentSize,
        l.anonymous.toNat, l.userName.length] = .ok head ∧
      pack .native [.I] [l.password.length] = .ok mid ∧
      bs = head ++ (encode l.userName ++ (mid ++ encode l.password)) := by
  simp only [toBytes, List.append_assoc]
  exact except_bind_bind_ok_iff

theorem encodes_iff (l : RequestLayer) :
    (∃ bs, l.toBytes = .ok bs) ↔ l.pocketFullSize < 2 ^ 64 ∧ l.maxSingleSegmentSize < 2 ^ 64 ∧
      l.userName.length < 2 ^ 32 ∧ l.password.length < 2 ^ 32 := by
  have hbool : Code.bool.Fits l.anonymous.toNat := by
    cases l.anonymous <;> decide
  constructor
  · rintro ⟨bs, h⟩
    obtain ⟨head, mid, hhead, hmid, -⟩ := toBytes_ok_iff.mp h
    have hfits := fits_of_pack hhead
    have hfits' := fits_of_pack hmid
    simp only [List.forall₂_cons] at hfits hfits'
    exact ⟨hfits.1, hfits.2.1, hfits.2.2.2.1, hfits'.1⟩
  · rintro ⟨hfull, hsegment, huser, hpassword⟩
    have hfull : Code.Q.Fits l.pocketFullSize := hfull
    have hsegment : Code.Q.Fits l.maxSingleSegmentSize := hsegment
    have huser : Code.I.Fits l.userName.length := huser
    have hpassword : Code.I.Fits l.password.length := hpassword
    obtain ⟨head, hhead⟩ := pack_of_fits .native
      (.cons hfull (.cons hsegment (.cons hbool (.cons huser .nil))))
    obtain ⟨mid, hmid⟩ := pack_of_fits .native (.cons hpassword .nil)
    exact ⟨_, toBytes_ok_iff.mpr ⟨head, mid, hhead, hmid, rfl⟩⟩

/-- For ASCII names the length a layer claims is that of its bytes. -/
theorem length_of_toBytes {l : RequestLayer} {bs : Bytes} (h : l.toBytes = .ok bs)
    (huser : Ascii l.userName) (hpassword : Ascii l.password) : bs.length = l.len := by
  obtain ⟨head, mid, hhead, hmid, rfl⟩ := toBytes_ok_iff.mp h
  simp only [List.length_append, pack_length hhead, pack_length hmid,
    (length_encode_eq_iff _).mpr huser, (length_encode_eq_iff _).mpr hpassword, len]
  omega

/-- Whatever is decoded, the user name is the slice behind the head. -/
theorem userName_of_fromBytes {data : Bytes} {offset : Nat} {vals : List Nat} {l : RequestLayer}
    (hvals : unpackFrom .native [.Q, .Q, .bool, .I] data offset = .ok vals)
    (hnamed : l.anonymous = false) (h : fromBytes data offset = .ok l) :
    ∃ n, vals[3]? = some n ∧ decode (slice data (offset + calcsize .native [.Q, .Q, .bool, .I])
      (offset + calcsize .native [.Q, .Q, .bool, .I] + n)) = .ok l.userName := by
  rw [fromBytes, hvals, except_ok_bind] at h
  split at h
  · next pocketFullSize maxSingleSegmentSize anonymous userNameLength =>
      split at h
      · cases h
        cases hnamed
      · obtain ⟨userName, huser, h⟩ := except_bind_ok_iff.mp h
        obtain ⟨lengths, -, h⟩ := except_bind_ok_iff.mp h
        split at h
        · obtain ⟨password, -, h⟩ := except_bind_ok_iff.mp h
          cases h
          exact ⟨userNameLength, rfl, huser⟩
        · cases h
  · cases h

/-- A request layer is read back exactly when its user name and its password are ASCII. -/
theorem fromBytes_toBytes_iff {l : RequestLayer} (hproper : l.Proper) {bs : Bytes}
    (h : l.toBytes = .ok bs) (pre post : Bytes) {offset : Nat} (hoff : offset = pre.length) :
    fromBytes (pre ++ (bs ++ post)) offset = .ok l ↔ Ascii l.userName ∧ Ascii l.password := by
  obtain ⟨head, mid, hhead, hmid, rfl⟩ := toBytes_ok_iff.mp h
  have hu := unpackFrom_pack hhead pre
    (encode l.userName ++ (mid ++ (encode l.password ++ post))) hoff
  have hheadLen : head.length = calcsize .native [.Q, .Q, .bool, .I] := pack_length hhead
  have hmidLen : mid.length = calcsize .native [.I] := pack_length hmid
  have hoff₁ : offset + calcsize .native [.Q, .Q, .bool, .I] = (pre ++ head).length := by
    rw [List.length_append, hoff, hheadLen]
  have huserSlice := decode_slice_iff l.userName (pre ++ head)
    (mid ++ (encode l.password ++ post)) hoff₁
  simp only [List.append_assoc] at hu huserSlice ⊢
  cases hanonymous : l.anonymous with
  | true =>
      -- the decoder reads no names, and there are none
      obtain ⟨huser, hpassword⟩ := hproper hanonymous
      refine iff_of_true ?_ (by simp [huser, hpassword, Ascii])
      simp only [fromBytes, hu, except_ok_bind, norms, Code.norm, hanonymous, Bool.toNat_true]
      obtain ⟨pocketFullSize, maxSingleSegmentSize, anonymous, userName, password⟩ := l
      cases hanonymous
      cases huser
      cases hpassword
      rfl
  | false =>
      by_cases huser : Ascii l.userName
      · -- the password follows where the decoder looks for it
        have huserLen := (length_encode_eq_iff _).mpr huser
        have hoff₂ : offset + calcsize .native [.Q, .Q, .bool, .I] + l.userName.length
            = (pre ++ head ++ encode l.userName).length := by
          rw [List.length_append, hoff₁, huserLen]
        have hoff₃ : offset + calcsize .native [.Q, .Q, .bool, .I] + l.userName.length
            + calcsize .native [.I] = (pre ++ head ++ encode l.userName ++ mid).length := by
          rw [List.length_append, hoff₂, hmidLen]
        have hu' := unpackFrom_pack hmid (pre ++ head ++ encode l.userName)
          (encode l.password ++ post) hoff₂
        have hpasswordSlice := decode_slice_iff l.password
          (pre ++ head ++ encode l.userName ++ mid) post hoff₃
        simp only [List.append_assoc] at hu' hpasswordSlice
        simp only [fromBytes, hu, except_ok_bind, norms, Code.norm, hanonymous, Bool.toNat_false,
          if_true, ne_eq, not_true_eq_false, if_false, huserSlice.mpr huser, hu']
        rw [← hpasswordSlice, except_bind_ok_iff]
        obtain ⟨pocketFullSize, maxSingleSegmentSize, anonymous, userName, password⟩ := l
        subst hanonymous
        simp [huser]
      · refine iff_of_false (fun hl => ?_) (fun hascii => huser hascii.1)
        obtain ⟨n, hn, hdecode⟩ := userName_of_fromBytes hu hanonymous hl
        cases hn
        exact huser (huserSlice.mp hdecode)

end RequestLayer

theorem packPath_ok_iff {path : Str} {bs : Bytes} :
    packPath path = .ok bs ↔
      ∃ head, pack .native [.I] [path.length] = .ok head ∧ bs = head ++ encode path := by
  simp only [packPath, except_bind_ok_iff, except_pure, Except.ok.injEq]
  constructor
  · rintro ⟨head, hhead, rfl⟩
    exact ⟨head, hhead, rfl⟩
  · rintro ⟨head, hhead, rfl⟩
    exact ⟨head, hhead, rfl⟩

theorem packPath_encodes_iff (path : Str) :
    (∃ bs, packPath path = .ok bs) ↔ path.length < 2 ^ 32 := by
  constructor
  · rintro ⟨bs, h⟩
    obtain ⟨head, hhead, -⟩ := packPath_ok_iff.mp h
    exact (List.forall₂_cons.mp (fits_of_pack hhead)).1
  · intro h
    have hfits : Code.I.Fits path.length := h
    obtain ⟨head, hhead⟩ := pack_of_fits .native (.cons hfits .nil)
    exact ⟨_, packPath_ok_iff.mpr ⟨head, hhead, rfl⟩⟩

theorem ListRequestLayer.encodes_iff (l : ListRequestLayer) :
    (∃ bs, l.toBytes = .ok bs) ↔ l.path.length < 2 ^ 32 := by
  have hbool : Code.bool.Fits l.recursive.toNat := by
    cases l.recursive <;> decide
  obtain ⟨tail, htail⟩ := pack_of_fits .native (.cons hbool .nil)
  simp only [toBytes, except_bind_ok_iff, htail, except_ok_bind, except_pure, Except.ok.injEq,
    ← packPath_encodes_iff]
  constructor
  · rintro ⟨bs, pathBytes, hpath, -⟩
    exact ⟨pathBytes, hpath⟩
  · rintro ⟨pathBytes, hpath⟩
    exact ⟨_, pathBytes, hpath, rfl⟩

/-- A path is read back exactly when it is ASCII. -/
theorem unpackPath_packPath_iff {path : Str} {bs : Bytes} (h : packPath path = .ok bs)
    (pre : Bytes) {offset : Nat} (hoff : offset = pre.length) :
    unpackPath (pre ++ bs) offset = .ok path ↔ Ascii path := by
  obtain ⟨head, hhead, rfl⟩ := packPath_ok_iff.mp h
  have hu := unpackFrom_pack hhead pre (encode path) hoff
  have hlen : head.length = calcsize .native [.I] := pack_length hhead
  have hoff₁ : offset + calcsize .native [.I] = (pre ++ head).length := by
    rw [List.length_append, hoff, hlen]
  have hslice := decode_slice_iff path (pre ++ head) [] hoff₁
  simp only [List.append_assoc, List.append_nil] at hu hslice
  simp only [unpackPath, hu, except_ok_bind, norms, Code.norm, hslice]

/-- A List request is read back exactly when its path is ASCII: behind any other
    path the recursive flag is looked for in the wrong place. -/
theorem ListRequestLayer.fromBytes_toBytes_iff {l : ListRequestLayer} {bs : Bytes}
    (h : l.toBytes = .ok bs) (pre : Bytes) {offset : Nat} (hoff : offset = pre.length) :
    fromBytes (pre ++ bs) offset = .ok l ↔ Ascii l.path := by
  simp only [toBytes, except_bind_ok_iff, except_pure, Except.ok.injEq] at h
  obtain ⟨pathBytes, hpath, tail, htail, rfl⟩ := h
  obtain ⟨head, hhead, rfl⟩ := packPath_ok_iff.mp hpath
  have hu := unpackFrom_pack hhead pre (encode l.path ++ tail) hoff
  have hlen : head.length = calcsize .native [.I] := pack_length hhead
  have hoff₁ : offset + calcsize .native [.I] = (pre ++ head).length := by
    rw [List.length_append, hoff, hlen]
  have hslice := decode_slice_iff l.path (pre ++ head) tail hoff₁
  simp only [List.append_assoc] at hu hslice ⊢
  constructor
  · intro hl
    simp only [fromBytes, hu, except_ok_bind, norms, Code.norm, except_bind_ok_iff] at hl
    obtain ⟨flags, -, hl⟩ := hl
    split at hl
    · obtain ⟨path, hdecode, hl⟩ := except_bind_ok_iff.mp hl
      cases hl
      exact hslice.mp hdecode
    · cases hl
  · intro hascii
    have hoff₂ : offset + calcsize .native [.I] + l.path.length
        = (pre ++ head ++ encode l.path).length := by
      rw [List.length_append, hoff₁, (length_encode_eq_iff _).mpr hascii]
    have hflag := unpackFrom_pack htail (pre ++ head ++ encode l.path) [] hoff₂
    simp only [List.append_assoc, List.append_nil] at hflag
    have hbool : ((if l.recursive.toNat = 0 then 0 else 1) != 0) = l.recursive := by
      cases l.recursive <;> rfl
    simp only [fromBytes, hu, except_ok_bind, norms, Code.norm, hflag, hslice.mpr hascii, hbool,
      except_pure]

end Ftp

namespace Client

open Py Py.Struct Ftp

-- ============================================================================
-- Requests
-- ============================================================================

/-- Who a command may be run as: nobody, or a user with a name. -/
def Options.Proper (options : Options) : Prop :=
  if options.anonymous then options.userName = [] ∧ options.password = []
  else options.userName ≠ []

instance (options : Options) : Decidable options.Proper :=
  inferInstanceAs (Decidable (if options.anonymous then
    options.userName = [] ∧ options.password = [] else options.userName ≠ []))

/-- The path a command names. -/
def Command.path : Command → Str
  | .upload _ _ destination => destination
  | .download targetName => targetName
  | .list directoryPath _ => directoryPath
  | .delete targetName => targetName

/-- What a Request says, compared. -/
structure SameRequest (p q : Pocket) : Prop where
  pocketType : q.basicLayer.pocketType = p.basicLayer.pocketType
  pocketSubType : q.basicLayer.pocketSubType = p.basicLayer.pocketSubType
  /-- both sizes, the anonymous flag, the user name and the password -/
  requestLayer : q.requestLayer = p.requestLayer
  uploadRequestLayer : q.uploadRequestLayer = p.uploadRequestLayer
  downloadRequestLayer : q.downloadRequestLayer = p.downloadRequestLayer
  /-- the path and the recursive flag -/
  listRequestLayer : q.listRequestLayer = p.listRequestLayer
  deleteRequestLayer : q.deleteRequestLayer = p.deleteRequestLayer

/-- The pocket can be sent, and what arrives says the same. -/
def Survives (p : Pocket) : Prop :=
  ∃ bs q, p.toBytes = .ok bs ∧ Pocket.fromBytes bs = .ok q ∧ SameRequest p q

/-- One byte for each character, and few enough of them for a length field. -/
def Sendable (s : Str) : Prop := Ascii s ∧ s.length < 2 ^ 32

instance (s : Str) : Decidable (Sendable s) :=
  inferInstanceAs (Decidable (Ascii s ∧ s.length < 2 ^ 32))

namespace Command

/-- The request layer of a command. -/
def requestLayer (options : Options) (c : Command) : RequestLayer :=
  ⟨c.body.length, MAX_SEGMENT_SIZE, options.anonymous, options.userName, options.password⟩

/-- The layer behind the request layer, as bytes. -/
def pathBytes : Command → Except Exn Bytes
  | list directoryPath recursive => (ListRequestLayer.mk directoryPath recursive).toBytes
  | c => packPath c.path

/-- The layer behind the request layer is read back there. -/
def ReadBack (data : Bytes) (offset : Nat) : Command → Prop
  | list directoryPath recursive =>
      ListRequestLayer.fromBytes data offset = .ok ⟨directoryPath, recursive⟩
  | c => unpackPath data offset = .ok c.path

theorem pathBytes_encodes_iff (c : Command) :
    (∃ bs, c.pathBytes = .ok bs) ↔ c.path.length < 2 ^ 32 := by
  cases c with
  | list directoryPath recursive => exact ListRequestLayer.encodes_iff _
  | _ => exact packPath_encodes_iff _

theorem readBack_pathBytes_iff {c : Command} {bs : Bytes} (h : c.pathBytes = .ok bs)
    (pre : Bytes) {offset : Nat} (hoff : offset = pre.length) :
    c.ReadBack (pre ++ bs) offset ↔ Ascii c.path := by
  cases c with
  | list directoryPath recursive =>
      exact ListRequestLayer.fromBytes_toBytes_iff (l := ⟨directoryPath, recursive⟩) h pre hoff
  | _ => exact unpackPath_packPath_iff h pre hoff

theorem proper_requestLayer {options : Options} (h : options.Proper) (c : Command) :
    (c.requestLayer options).Proper := by
  intro hanonymous
  have hanonymous : options.anonymous = true := hanonymous
  rwa [Options.Proper, if_pos hanonymous] at h

/-- The parts of a sent Request. -/
theorem toBytes_reqPocket_iff {options : Options} {c : Command} {bs : Bytes} :
    (c.reqPocket options).toBytes = .ok bs ↔ ∃ head lb tail,
      (BasicLayer.mk 0 .request c.subType).toBytes = .ok head ∧
      (c.requestLayer options).toBytes = .ok lb ∧ c.pathBytes = .ok tail ∧
      bs = head ++ (lb ++ tail) := by
  have hlayers : (c.reqPocket options).layerBytes = do
      let lb ← (c.requestLayer options).toBytes
      return lb ++ (← c.pathBytes) := by
    cases c <;> rfl
  have hbasic : (c.reqPocket options).basicLayer = ⟨0, .request, c.subType⟩ := by
    cases c <;> rfl
  rw [Pocket.toBytes_ok_iff, hlayers, hbasic]
  simp only [except_bind_ok_iff, except_pure, Except.ok.injEq]
  constructor
  · rintro ⟨head, -, hhead, ⟨lb, hlb, tail, htail, rfl⟩, rfl⟩
    exact ⟨head, lb, tail, hhead, hlb, htail, rfl⟩
  · rintro ⟨head, lb, tail, hhead, hlb, htail, rfl⟩
    exact ⟨head, _, hhead, ⟨lb, hlb, tail, htail, rfl⟩, rfl⟩

/-- What has to be read back of a Request. -/
theorem fromBytes_reqPocket_iff {options : Options} {c : Command} {head post : Bytes}
    (hhead : (BasicLayer.mk 0 .request c.subType).toBytes = .ok head) :
    (∃ q, Pocket.fromBytes (head ++ post) = .ok q ∧ SameRequest (c.reqPocket options) q) ↔
      RequestLayer.fromBytes (head ++ post) head.length = .ok (c.requestLayer options) ∧
      c.ReadBack (head ++ post) (head.length + (c.requestLayer options).len) := by
  have hbasic := BasicLayer.fromBytes_toBytes hhead post
  have hlen := BasicLayer.length_of_toBytes hhead
  rw [Pocket.fromBytes, hbasic]
  simp only [except_ok_bind, ← hlen, except_bind_ok_iff]
  cases c with
  | upload isFile content destination =>
      simp only [subType, ReadBack, path, UploadRequestLayer.fromBytes, except_bind_ok_iff,
        except_pure, Except.ok.injEq]
      constructor
      · rintro ⟨q, ⟨l, hl, layer, ⟨p, hp, rfl⟩, rfl⟩, hsame⟩
        cases hsame.requestLayer
        cases hsame.uploadRequestLayer
        exact ⟨hl, hp⟩
      · rintro ⟨hl, hp⟩
        exact ⟨_, ⟨_, hl, _, ⟨_, hp, rfl⟩, rfl⟩, ⟨rfl, rfl, rfl, rfl, rfl, rfl, rfl⟩⟩
  | download targetName =>
      simp only [subType, ReadBack, path, DownloadRequestLayer.fromBytes, except_bind_ok_iff,
        except_pure, Except.ok.injEq]
      constructor
      · rintro ⟨q, ⟨l, hl, layer, ⟨p, hp, rfl⟩, rfl⟩, hsame⟩
        cases hsame.requestLayer
        cases hsame.downloadRequestLayer
        exact ⟨hl, hp⟩
      · rintro ⟨hl, hp⟩
        exact ⟨_, ⟨_, hl, _, ⟨_, hp, rfl⟩, rfl⟩, ⟨rfl, rfl, rfl, rfl, rfl, rfl, rfl⟩⟩
  | list directoryPath recursive =>
      simp only [subType, ReadBack, except_bind_ok_iff, except_pure, Except.ok.injEq]
      constructor
      · rintro ⟨q, ⟨l, hl, layer, hp, rfl⟩, hsame⟩
        cases hsame.requestLayer
        cases hsame.listRequestLayer
        exact ⟨hl, hp⟩
      · rintro ⟨hl, hp⟩
        exact ⟨_, ⟨_, hl, _, hp, rfl⟩, ⟨rfl, rfl, rfl, rfl, rfl, rfl, rfl⟩⟩
  | delete targetName =>
      simp only [subType, ReadBack, path, DeleteRequestLayer.fromBytes, except_bind_ok_iff,
        except_pure, Except.ok.injEq]
      constructor
      · rintro ⟨q, ⟨l, hl, layer, ⟨p, hp, rfl⟩, rfl⟩, hsame⟩
        cases hsame.requestLayer
        cases hsame.deleteRequestLayer
        exact ⟨hl, hp⟩
      · rintro ⟨hl, hp⟩
        exact ⟨_, ⟨_, hl, _, ⟨_, hp, rfl⟩, rfl⟩, ⟨rfl, rfl, rfl, rfl, rfl, rfl, rfl⟩⟩

end Command

/-- A Request of the client survives the wire exactly when its user name, its password
    and its path are ASCII and their lengths fit into four bytes. -/
theorem requests_survive_iff {options : Options} {c : Command} (hproper : options.Proper)
    (hsize : c.body.length < 2 ^ 64) :
    Survives (c.reqPocket options) ↔
      Sendable options.userName ∧ Sendable options.password ∧ Sendable c.path := by
  have hlproper := Command.proper_requestLayer hproper c
  constructor
  · rintro ⟨bs, q, hbs, hq, hsame⟩
    obtain ⟨head, lb, tail, hhead, hlb, htail, rfl⟩ := Command.toBytes_reqPocket_iff.mp hbs
    obtain ⟨hl, hpath⟩ := (Command.fromBytes_reqPocket_iff hhead).mp ⟨q, hq, hsame⟩
    obtain ⟨-, -, huserLen, hpasswordLen⟩ := (RequestLayer.encodes_iff _).mp ⟨lb, hlb⟩
    have hpathLen := (Command.pathBytes_encodes_iff c).mp ⟨tail, htail⟩
    obtain ⟨huser, hpassword⟩ :=
      (RequestLayer.fromBytes_toBytes_iff hlproper hlb head tail rfl).mp hl
    -- with both names read back the path is looked for where it is
    rw [← RequestLayer.length_of_toBytes hlb huser hpassword, ← List.length_append,
      ← List.append_assoc, Command.readBack_pathBytes_iff htail _ rfl] at hpath
    exact ⟨⟨huser, huserLen⟩, ⟨hpassword, hpasswordLen⟩, ⟨hpath, hpathLen⟩⟩
  · rintro ⟨⟨huser, huserLen⟩, ⟨hpassword, hpasswordLen⟩, ⟨hpath, hpathLen⟩⟩
    obtain ⟨head, hhead⟩ : ∃ head, (BasicLayer.mk 0 .request c.subType).toBytes = .ok head := by
      cases c <;> exact ⟨_, rfl⟩
    have hsegment : MAX_SEGMENT_SIZE < 2 ^ 64 := by decide
    obtain ⟨lb, hlb⟩ := (RequestLayer.encodes_iff (c.requestLayer options)).mpr
      ⟨hsize, hsegment, huserLen, hpasswordLen⟩
    obtain ⟨tail, htail⟩ := (Command.pathBytes_encodes_iff c).mpr hpathLen
    have hl := (RequestLayer.fromBytes_toBytes_iff hlproper hlb head tail rfl).mpr
      ⟨huser, hpassword⟩
    have hread := (Command.readBack_pathBytes_iff htail (head ++ lb) rfl).mpr hpath
    rw [List.append_assoc, List.length_append,
      RequestLayer.length_of_toBytes hlb huser hpassword] at hread
    obtain ⟨q, hq, hsame⟩ := (Command.fromBytes_reqPocket_iff hhead).mpr ⟨hl, hread⟩
    exact ⟨_, q, Command.toBytes_reqPocket_iff.mpr ⟨head, lb, tail, hhead, hlb, htail, rfl⟩, hq,
      hsame⟩

theorem requests_survive_iff_annList :
    Survives ((Command.list "docs".toList true).reqPocket
      { anonymous := false, userName := "ann".toList, password := [] }) :=
  (requests_survive_iff (by decide) (by decide)).mpr (by decide)

/-- A path with one character of two bytes is cut short. -/
theorem not_requests_survive_accent :
    ¬ ∀ (options : Options) (c : Command), options.Proper → c.body.length < 2 ^ 64 →
      Survives (c.reqPocket options) := by
  intro h
  obtain ⟨bs, q, hbs, hq, hsame⟩ := h {} (.delete "é".toList) (by decide) (by decide)
  have hraises : Pocket.fromBytes ((Command.delete "é".toList).reqPocket {}).datagram
      = .error .unicodeDecodeError := by
    decide +kernel
  rw [Pocket.datagram, hbs] at hraises
  cases hraises.symm.trans hq

end Client
end NetworkingFinal
