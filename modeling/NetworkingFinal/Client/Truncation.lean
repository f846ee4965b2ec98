/-
  NetworkingFinal.Client.Truncation

  What a receiver makes of a pocket that was cut off.  A text or a block of data is
  read as a slice, which is shorter at the end of the buffer without an error, so
  only a field of fixed size behind it makes the decoder raise.

  - `Message`: the pockets that carry a layer behind the basic layer.
  - `Message.Noticed`: the cuts that make the decoder raise.
  - `cut_raises_iff`: and no others do.
-/
import NetworkingFinal.Client.RequestWire
import NetworkingFinal.Ftp.Readable

namespace NetworkingFinal
namespace Ftp

open Py Py.Struct

-- ============================================================================
-- The start of a byte string
-- ============================================================================

section Take

variable {data : Bytes} {n : Nat}

theorem slice_take (data : Bytes) (n i j : Nat) :
    slice (data.take n) i j = (slice data i j).take (n - i) := by
  rw [slice, slice, List.drop_take, List.take_take, List.take_take, Nat.min_comm]

/-- A slice that ends before the cut. -/
theorem slice_take_of_le {i j : Nat} (h : j ≤ n) : slice (data.take n) i j = slice data i j := by
  rw [slice_take, List.take_of_length_le]
  rw [length_slice]
  omega

theorem numberAt_take {offset size : Nat} (h : offset + size ≤ n) :
    numberAt (data.take n) offset size = numberAt data offset size := by
  rw [numberAt, slice_take_of_le h, numberAt]

end Take

-- ============================================================================
-- The start of a text
-- ============================================================================

theorem encode_append (s t : Str) : encode (s ++ t) = encode s ++ encode t :=
  List.flatMap_append

/-- The first bytes of an ASCII text are its first characters. -/
theorem take_encode_of_ascii {s : Str} (h : Ascii s) (n : Nat) :
    (encode s).take n = encode (s.take n) := by
  have hfirst : (encode (s.take n)).length = (s.take n).length :=
    (length_encode_eq_iff _).mpr fun c hc => h c (List.mem_of_mem_take hc)
  by_cases hn : n ≤ s.length
  · have hsplit : encode s = encode (s.take n) ++ encode (s.drop n) := by
      rw [← encode_append, List.take_append_drop]
    rw [hsplit, List.take_left']
    rw [hfirst, List.length_take, Nat.min_eq_left hn]
  · have hlen := (length_encode_eq_iff s).mpr h
    rw [List.take_of_length_le (by omega), List.take_of_length_le (by omega)]

/-- A text whose bytes start those of another starts it. -/
theorem prefix_of_encode_prefix {s t : Str} (h : encode s <+: encode t) : s <+: t := by
  obtain ⟨rest, hrest⟩ := h
  have hbytes : ∀ u : Str, u.utf8Encode = ByteArray.mk (encode u).toArray := fun u => by
    apply ByteArray.ext
    simp [encode, List.utf8Encode]
  refine List.isPrefix_of_utf8Encode_append_eq_utf8Encode (ByteArray.mk rest.toArray) ?_
  rw [hbytes, hbytes, ← hrest]
  apply ByteArray.ext
  simp

/-- When as many bytes as a text has characters are a text of as many characters, every
    character is one byte. -/
theorem characters_lt_of_not_ascii {s : Str} (h : ¬ Ascii s)
    (htext : IsText ((encode s).take s.length)) :
    characters ((encode s).take s.length) < s.length := by
  obtain ⟨t, ht⟩ := htext
  have hback := encode_of_decode ht
  have hbytes : (encode t).length = s.length := by
    rw [hback, List.length_take]
    exact Nat.min_eq_left (length_le_length_encode s)
  have hle := length_le_length_encode t
  rw [characters_of_decode ht]
  refine Nat.lt_of_le_of_ne (hbytes ▸ hle) fun heq => h ?_
  have hprefix : t <+: s := prefix_of_encode_prefix (hback ▸ List.take_prefix _ _)
  obtain rfl := hprefix.eq_of_length heq
  exact (length_encode_eq_iff t).mp hbytes

-- ============================================================================
-- A layer that was cut off
-- ============================================================================

/-- A cut pocket decodes when its basic layer is whole and the layers it asks for are
    read out of what is left. -/
theorem cut_decodes_iff {l : BasicLayer} {head tail : Bytes} (hhead : l.toBytes = .ok head)
    (n : Nat) :
    (∃ p, Pocket.fromBytes ((head ++ tail).take n) = .ok p) ↔
      16 ≤ n ∧ LayersAt ((head ++ tail).take n) l.pocketType l.pocketSubType := by
  have hlen : head.length = 16 := BasicLayer.length_of_toBytes hhead
  by_cases hn : 16 ≤ n
  · have hbasic := BasicLayer.fromBytes_toBytes hhead (tail.take (n - 16))
    rw [and_iff_right hn, List.take_append, List.take_of_length_le (by omega), hlen]
    exact layers_ok_iff hbasic
  · rw [Pocket.fromBytes_ok_iff]
    refine iff_of_false (fun h => hn ?_) fun h => hn h.1
    exact Nat.le_trans h.1 (List.length_take_le _ _)

/-- The number that a packed length is read as. -/
theorem numberAt_length {head : Bytes} {length : Nat} (h : pack .native [.I] [length] = .ok head)
    (pre post : Bytes) : numberAt (pre ++ (head ++ post)) pre.length 4 = length := by
  have hu := unpackFrom_pack h pre post rfl
  rw [List.append_assoc, unpack_length] at hu
  split at hu
  · simpa [norms, Code.norm] using hu
  · cases hu

/-- The bytes in the place of a text, behind some others. -/
theorem slice_encode (s : Str) (pre post : Bytes) :
    slice (pre ++ (encode s ++ post)) pre.length (pre.length + s.length) =
      (encode s).take s.length := by
  rw [slice_append_of_le (Nat.le_refl _), Nat.sub_self, Nat.add_sub_cancel_left, slice,
    List.drop_zero, Nat.sub_zero, List.take_append_of_le_length (length_le_length_encode s)]

section Response

variable {l : ResponseLayer} {lb head post : Bytes} {n : Nat}

theorem length_of_ascii (h : l.toBytes = .ok lb) (hmessage : Ascii l.errorMessage) :
    lb.length = 26 + l.errorMessage.length := by
  obtain ⟨lhead, ltail, hlhead, hltail, rfl⟩ := ResponseLayer.toBytes_ok_iff.mp h
  have hlen : lhead.length = 2 := pack_length hlhead
  have hsizes : ltail.length = 24 := pack_length hltail
  rw [List.length_append, List.length_append, hlen, hsizes, (length_encode_eq_iff _).mpr hmessage]
  omega

/-- What stands in the place of the message, and of its length. -/
theorem message_of_toBytes (h : l.toBytes = .ok lb) (hhead : head.length = 16) (post : Bytes) :
    numberAt (head ++ (lb ++ post)) 17 1 = l.errorMessage.length ∧
      slice (head ++ (lb ++ post)) 18 (18 + l.errorMessage.length) =
        (encode l.errorMessage).take l.errorMessage.length := by
  obtain ⟨lhead, ltail, hlhead, -, rfl⟩ := ResponseLayer.toBytes_ok_iff.mp h
  have hlen : lhead.length = 2 := pack_length hlhead
  have hu := unpackFrom_pack hlhead head (encode l.errorMessage ++ ltail ++ post) hhead.symm
  have hslice := slice_encode l.errorMessage (head ++ lhead) (ltail ++ post)
  rw [List.length_append, hhead, hlen] at hslice
  rw [unpack_response] at hu
  simp only [List.append_assoc] at hu hslice ⊢
  refine ⟨?_, hslice⟩
  split at hu
  · simp only [norms, Code.norm, Except.ok.injEq, List.cons.injEq] at hu
    exact hu.2.1
  · cases hu

/-- A response layer that was cut off is read when the place of its sizes is left, and
    the bytes in the place of its message are a text. -/
theorem responseAt_take_iff (h : l.toBytes = .ok lb) (hhead : head.length = 16)
    (hn : n ≤ (head ++ (lb ++ post)).length) :
    ResponseAt ((head ++ (lb ++ post)).take n) 16 ↔
      42 + l.errorMessage.length ≤ n ∧
        IsText ((encode l.errorMessage).take l.errorMessage.length) := by
  obtain ⟨hnumber, hslice⟩ := message_of_toBytes h hhead post
  rw [ResponseAt, messageBytes, List.length_take_of_le hn]
  constructor
  · rintro ⟨hfixed, htext, hsizes⟩
    rw [numberAt_take (by omega), hnumber] at htext hsizes
    rw [slice_take_of_le (by omega), hslice] at htext
    exact ⟨by omega, htext⟩
  · rintro ⟨hsizes, htext⟩
    rw [numberAt_take (by omega), hnumber, slice_take_of_le (by omega), hslice]
    exact ⟨by omega, htext, by omega⟩

theorem responseEnd_take (h : l.toBytes = .ok lb) (hhead : head.length = 16)
    (hn : 42 + l.errorMessage.length ≤ n) :
    responseEnd ((head ++ (lb ++ post)).take n) 16 =
      42 + characters ((encode l.errorMessage).take l.errorMessage.length) := by
  obtain ⟨hnumber, hslice⟩ := message_of_toBytes h hhead post
  rw [responseEnd, messageBytes, numberAt_take (by omega), hnumber, slice_take_of_le (by omega),
    hslice]

end Response

section Request

variable {l : RequestLayer} {lb head post : Bytes} {n : Nat}

/-- The bytes in the place of the user name: one for each of its characters. -/
def RequestLayer.nameField (l : RequestLayer) : Bytes :=
  (encode l.userName).take l.userName.length

/-- The bytes of a cut in the place of the password.  Behind a user name that is not ASCII the
    number in front of them is not the length of the password. -/
def RequestLayer.passwordField (l : RequestLayer) (data : Bytes) : Bytes :=
  let start := 44 + l.userName.length
  if Ascii l.userName then
    ((encode l.password).take l.password.length).take (data.length - start)
  else slice data start (start + numberAt data (40 + l.userName.length) 4)

/-- What stands in front of the user name, and in its place. -/
theorem name_of_toBytes (h : l.toBytes = .ok lb) (hhead : head.length = 16) (post : Bytes) :
    (numberAt (head ++ (lb ++ post)) 32 1 = 0 ↔ l.anonymous = false) ∧
      numberAt (head ++ (lb ++ post)) 36 4 = l.userName.length ∧
      slice (head ++ (lb ++ post)) 40 (40 + l.userName.length) = l.nameField := by
  obtain ⟨lhead, mid, hlhead, -, rfl⟩ := RequestLayer.toBytes_ok_iff.mp h
  have hlen : lhead.length = 24 := pack_length hlhead
  have hu := unpackFrom_pack hlhead head
    (encode l.userName ++ (mid ++ (encode l.password ++ post))) hhead.symm
  have hname := slice_encode l.userName (head ++ lhead) (mid ++ (encode l.password ++ post))
  rw [List.length_append, hhead, hlen] at hname
  rw [unpack_request] at hu
  simp only [List.append_assoc] at hu hname ⊢
  split at hu
  · simp only [norms, Code.norm, Except.ok.injEq, List.cons.injEq] at hu
    refine ⟨?_, hu.2.2.2.1, hname⟩
    cases hanonymous : l.anonymous <;> simp_all
  · cases hu

/-- What stands behind an ASCII user name. -/
theorem password_of_toBytes (h : l.toBytes = .ok lb) (hhead : head.length = 16)
    (huser : Ascii l.userName) (post : Bytes) :
    numberAt (head ++ (lb ++ post)) (40 + l.userName.length) 4 = l.password.length ∧
      slice (head ++ (lb ++ post)) (44 + l.userName.length)
        (44 + l.userName.length + l.password.length) =
        (encode l.password).take l.password.length := by
  obtain ⟨lhead, mid, hlhead, hmid, rfl⟩ := RequestLayer.toBytes_ok_iff.mp h
  have hlen : lhead.length = 24 := pack_length hlhead
  have hmidLen : mid.length = 4 := pack_length hmid
  have huserLen := (length_encode_eq_iff _).mpr huser
  have hnumber := numberAt_length hmid (head ++ (lhead ++ encode l.userName))
    (encode l.password ++ post)
  have hpassword := slice_encode l.password (head ++ (lhead ++ (encode l.userName ++ mid))) post
  have hsecond : 16 + (24 + l.userName.length) = 40 + l.userName.length := by omega
  have hthird : 16 + (24 + (l.userName.length + 4)) = 44 + l.userName.length := by omega
  simp only [List.length_append, hhead, hlen, hmidLen, huserLen, hsecond, hthird]
    at hnumber hpassword
  simp only [List.append_assoc] at hnumber hpassword ⊢
  exact ⟨hnumber, hpassword⟩

section Fields

variable (h : l.toBytes = .ok lb) (hhead : head.length = 16)
  (hn : n ≤ (head ++ (lb ++ post)).length) (hroom : 44 + l.userName.length ≤ n)

include h hhead hroom

theorem passwordOffset_take :
    passwordOffset ((head ++ (lb ++ post)).take n) 16 = 40 + l.userName.length := by
  obtain ⟨-, hlength, -⟩ := name_of_toBytes h hhead post
  rw [passwordOffset, numberAt_take (by omega), hlength]

theorem userNameBytes_take :
    userNameBytes ((head ++ (lb ++ post)).take n) 16 = l.nameField := by
  obtain ⟨-, hlength, hname⟩ := name_of_toBytes h hhead post
  rw [userNameBytes, numberAt_take (by omega), hlength, slice_take_of_le (by omega), hname]

include hn

theorem passwordBytes_take :
    passwordBytes ((head ++ (lb ++ post)).take n) 16 =
      l.passwordField ((head ++ (lb ++ post)).take n) := by
  have hstart : 40 + l.userName.length + 4 = 44 + l.userName.length := by omega
  rw [passwordBytes, passwordOffset_take h hhead hroom, hstart, RequestLayer.passwordField]
  split
  · next huser =>
      obtain ⟨hlength, hpassword⟩ := password_of_toBytes h hhead huser post
      rw [numberAt_take (by omega), hlength, slice_take, hpassword, List.length_take_of_le hn]
  · rfl

end Fields

theorem named_of_not_ascii (hproper : l.Proper)
    (h : ¬ (Ascii l.userName ∧ Ascii l.password)) : l.anonymous = false := by
  refine Bool.eq_false_iff.mpr fun hanonymous => h ?_
  obtain ⟨huser, hpassword⟩ := hproper hanonymous
  rw [huser, hpassword]
  exact ⟨List.forall_mem_nil _, List.forall_mem_nil _⟩

/-- A request layer that was cut off is read when the length of the password is left, and the
    bytes in the places of the names are texts. -/
theorem requestAt_take_iff (h : l.toBytes = .ok lb) (hhead : head.length = 16)
    (hnamed : l.anonymous = false) (hn : n ≤ (head ++ (lb ++ post)).length) :
    RequestAt ((head ++ (lb ++ post)).take n) 16 ↔
      44 + l.userName.length ≤ n ∧ IsText l.nameField ∧
        IsText (l.passwordField ((head ++ (lb ++ post)).take n)) := by
  obtain ⟨hanonymous, hlength, -⟩ := name_of_toBytes h hhead post
  have hzero := hanonymous.mpr hnamed
  rw [RequestAt, List.length_take_of_le hn]
  constructor
  · rintro ⟨hfixed, hnames⟩
    rw [numberAt_take (by omega)] at hnames
    obtain ⟨hname, hroom, hpassword⟩ := hnames hzero
    rw [passwordOffset, numberAt_take (by omega), hlength] at hroom
    rw [userNameBytes_take h hhead (by omega)] at hname
    rw [passwordBytes_take h hhead hn (by omega)] at hpassword
    exact ⟨by omega, hname, hpassword⟩
  · rintro ⟨hroom, hname, hpassword⟩
    rw [userNameBytes_take h hhead hroom, passwordBytes_take h hhead hn hroom,
      passwordOffset_take h hhead hroom]
    exact ⟨by omega, fun _ => ⟨hname, by omega, hpassword⟩⟩

theorem requestEnd_take (h : l.toBytes = .ok lb) (hhead : head.length = 16)
    (hnamed : l.anonymous = false) (hn : n ≤ (head ++ (lb ++ post)).length)
    (hroom : 44 + l.userName.length ≤ n) :
    requestEnd ((head ++ (lb ++ post)).take n) 16 =
      44 + characters l.nameField +
        characters (l.passwordField ((head ++ (lb ++ post)).take n)) := by
  have hzero := (name_of_toBytes h hhead post).1.mpr hnamed
  rw [requestEnd, numberAt_take (by omega), if_pos hzero, userNameBytes_take h hhead hroom,
    passwordBytes_take h hhead hn hroom]

/-- A request layer that was cut off leaves no room for the layer behind it. -/
theorem requestEnd_take_of_lt (h : l.toBytes = .ok lb) (hproper : l.Proper)
    (hhead : head.length = 16) (huser : Ascii l.userName) (hpassword : Ascii l.password)
    (hn : n ≤ (head ++ (lb ++ post)).length) (hcut : n < 16 + l.len)
    (hread : RequestAt ((head ++ (lb ++ post)).take n) 16) :
    n ≤ requestEnd ((head ++ (lb ++ post)).take n) 16 := by
  have hlen : 16 + l.len = 44 + l.userName.length + l.password.length := by
    rw [RequestLayer.len, show calcsize .native [.Q, .Q, .bool, .I] = 24 from rfl,
      show calcsize .native [.I] = 4 from rfl]
    omega
  cases hanonymous : l.anonymous with
  | true =>
      obtain ⟨hnobody, hnothing⟩ := hproper hanonymous
      have hend : 44 ≤ requestEnd ((head ++ (lb ++ post)).take n) 16 := by
        rw [requestEnd]
        split <;> omega
      rw [hnobody, hnothing] at hlen
      simp only [List.length_nil] at hlen
      omega
  | false =>
      obtain ⟨hroom, -⟩ := (requestAt_take_iff h hhead hanonymous hn).mp hread
      rw [requestEnd_take h hhead hanonymous hn hroom, RequestLayer.nameField,
        RequestLayer.passwordField, if_pos huser,
        List.take_of_length_le (Nat.le_of_eq ((length_encode_eq_iff _).mpr huser)),
        characters_of_decode (decode_encode _), List.take_take,
        take_encode_of_ascii hpassword, characters_of_decode (decode_encode _), List.length_take,
        List.length_take_of_le hn]
      omega

/-- A request layer that is whole is read, and the layer behind it is looked for there. -/
theorem requestAt_take (h : l.toBytes = .ok lb) (hproper : l.Proper) (hhead : head.length = 16)
    (huser : Ascii l.userName) (hpassword : Ascii l.password) (post : Bytes)
    (hn : 16 + l.len ≤ n) :
    RequestAt ((head ++ (lb ++ post)).take n) 16 ∧
      requestEnd ((head ++ (lb ++ post)).take n) 16 = 16 + l.len := by
  have hlen := RequestLayer.length_of_toBytes h huser hpassword
  have htake : (head ++ (lb ++ post)).take n =
      head ++ (lb ++ post.take (n - 16 - l.len)) := by
    rw [List.take_append, List.take_of_length_le (by omega), hhead, List.take_append,
      List.take_of_length_le (by omega), hlen]
  have hl := (RequestLayer.fromBytes_toBytes_iff hproper h head (post.take (n - 16 - l.len))
    hhead.symm).mpr ⟨huser, hpassword⟩
  rw [htake]
  exact ⟨(RequestLayer.fromBytes_ok_iff _ _).mp ⟨l, hl⟩, (end_of_requestLayer _ _ hl).symm⟩

end Request

/-- A path that was cut off is read when what is left in its place is a text. -/
theorem pathAt_take_iff {path : Str} {head : Bytes}
    (h : pack .native [.I] [path.length] = .ok head) (pre post : Bytes) {n : Nat}
    (hn : n ≤ (pre ++ (head ++ (encode path ++ post))).length) :
    PathAt ((pre ++ (head ++ (encode path ++ post))).take n) pre.length ↔
      pre.length + 4 ≤ n ∧
        IsText (((encode path).take path.length).take (n - (pre.length + 4))) := by
  have hlen : head.length = 4 := pack_length h
  have hslice := slice_encode path (pre ++ head) post
  rw [List.append_assoc, List.length_append, hlen] at hslice
  rw [PathAt, List.length_take_of_le hn]
  refine and_congr_right fun hroom => ?_
  rw [numberAt_take hroom, numberAt_length h, slice_take, hslice]

end Ftp

namespace Client

open Py Py.Struct Ftp

-- ============================================================================
-- The pockets and their cuts
-- ============================================================================

/-- The pockets with a layer behind the basic layer, as the two parties build them. -/
inductive Message where
  | request (options : Options) (c : Command)
  | response (requestID : Nat) (pocketSubType : PocketSubType) (layer : ResponseLayer)
      (deleteResponseLayer : Option DeleteResponseLayer)
  | segment (requestID segmentID : Nat) (data : Bytes)
  | ack (requestID segmentID : Nat)
  deriving DecidableEq

/-- The layer behind the request layer is read, where the code looks for it. -/
def Command.ReadAt (data : Bytes) (offset : Nat) : Command → Prop
  | list .. => ListAt data offset
  | _ => PathAt data offset

/-- The cut makes the decoder raise, where the layer behind the request layer starts at
    the offset. -/
def Command.Noticed (data : Bytes) (offset : Nat) : Command → Prop
  | list directoryPath _ =>
      data.length < offset + 5 + directoryPath.length ∨
        ¬ IsText ((encode directoryPath).take directoryPath.length)
  | c =>
      data.length < offset + 4 ∨
        ¬ IsText (((encode c.path).take c.path.length).take (data.length - (offset + 4)))

/-- The same where the offset is not the start of the layer: the number there is taken for the
    length of the path. -/
def Command.NoticedAstray (data : Bytes) (offset : Nat) (c : Command) : Prop :=
  data.length < offset + 4 ∨
    ¬ IsText (slice data (offset + 4) (offset + 4 + numberAt data offset 4)) ∨
    c.subType = .list ∧ data.length < offset + 5 + numberAt data offset 4

/-- The cuts of a Request with names that are not ASCII that make the decoder raise.  The code
    passes over as many bytes as the names have characters, and looks for the layer behind
    them where it counts the characters of those bytes. -/
def Command.NamesNoticed (options : Options) (data : Bytes) (c : Command) : Prop :=
  let l := c.requestLayer options
  data.length < 44 + options.userName.length ∨ ¬ IsText l.nameField ∨
    ¬ IsText (l.passwordField data) ∨
    c.NoticedAstray data (44 + characters l.nameField + characters (l.passwordField data))

namespace Message

def pocket : Message → Pocket
  | request options c => c.reqPocket options
  | response requestID pocketSubType layer deleteResponseLayer =>
      { basicLayer := ⟨requestID, .response, pocketSubType⟩
        responseLayer := some layer
        deleteResponseLayer }
  | segment requestID segmentID data => segmentPocket requestID segmentID data
  | ack requestID segmentID => akcPocket requestID segmentID

/-- Only the response to a Delete request has a layer of its own. -/
def Proper : Message → Prop
  | request options _ => options.Proper
  | response _ pocketSubType _ deleteResponseLayer =>
      deleteResponseLayer ≠ none → pocketSubType = .delete
  | _ => True

/-- The cuts of a message that make the decoder raise. -/
def Noticed (data : Bytes) : Message → Prop
  | request options c =>
      if Ascii options.userName ∧ Ascii options.password then
        c.Noticed data (44 + options.userName.length + options.password.length)
      else c.NamesNoticed options data
  | response _ _ layer _ =>
      Ascii layer.errorMessage ∨ data.length < 42 + layer.errorMessage.length ∨
        ¬ IsText ((encode layer.errorMessage).take layer.errorMessage.length)
  | segment .. => data.length < 28
  | ack .. => True

end Message

theorem Command.room_of_readAt {c : Command} {data : Bytes} {offset : Nat}
    (h : c.ReadAt data offset) : offset + 4 ≤ data.length := by
  cases c with
  | list directoryPath recursive => exact h.1.1
  | _ => exact h.1

theorem Command.noticed_of_lt {c : Command} {data : Bytes} {offset : Nat}
    (h : data.length < offset + 4) : c.Noticed data offset := by
  cases c with
  | list directoryPath recursive => exact Or.inl (by omega)
  | _ => exact Or.inl h

theorem Command.noticedAstray_iff (c : Command) (data : Bytes) (offset : Nat) :
    c.NoticedAstray data offset ↔ ¬ c.ReadAt data offset := by
  cases c with
  | list directoryPath recursive =>
      have hlist : (list directoryPath recursive).subType = .list := rfl
      rw [NoticedAstray, ReadAt, ListAt, PathAt, and_iff_right hlist, not_and_or, not_and_or,
        Nat.not_le, Nat.not_le, or_assoc, show offset + 4 + numberAt data offset 4 + 1 =
          offset + 5 + numberAt data offset 4 by omega]
  | upload | download | delete =>
      simp only [NoticedAstray, ReadAt, PathAt, not_and_or, Nat.not_le, subType, reduceCtorEq,
        false_and, or_false]

/-- The layer behind the request layer is read exactly when the cut is not noticed. -/
theorem Command.readAt_take_iff {c : Command} {tail : Bytes} (h : c.pathBytes = .ok tail)
    (pre : Bytes) {n : Nat} (hn : n ≤ (pre ++ tail).length) :
    c.ReadAt ((pre ++ tail).take n) pre.length ↔
      ¬ c.Noticed ((pre ++ tail).take n) pre.length := by
  have hplain : ∀ path bs, packPath path = .ok bs → n ≤ (pre ++ bs).length →
      (PathAt ((pre ++ bs).take n) pre.length ↔
        ¬ (n < pre.length + 4 ∨
          ¬ IsText (((encode path).take path.length).take (n - (pre.length + 4))))) := by
    intro path bs hbs hn
    obtain ⟨head, hhead, rfl⟩ := packPath_ok_iff.mp hbs
    have hiff := pathAt_take_iff hhead pre [] (n := n)
    rw [List.append_nil] at hiff
    rw [hiff hn, not_or, not_not, Nat.not_lt]
  cases c with
  | list directoryPath recursive =>
      obtain ⟨pathBytes, hpath, h⟩ := except_bind_ok_iff.mp h
      obtain ⟨flag, -, h⟩ := except_bind_ok_iff.mp h
      cases h
      dsimp only at hpath
      obtain ⟨head, hhead, rfl⟩ := packPath_ok_iff.mp hpath
      rw [List.append_assoc] at hn ⊢
      rw [ReadAt, ListAt, pathAt_take_iff hhead pre flag hn, Noticed, List.length_take_of_le hn,
        not_or, not_not, Nat.not_lt]
      constructor
      · rintro ⟨⟨hroom, htext⟩, hflag⟩
        rw [numberAt_take hroom, numberAt_length hhead] at hflag
        rw [List.take_of_length_le (by rw [List.length_take]; omega)] at htext
        exact ⟨by omega, htext⟩
      · rintro ⟨hroom, htext⟩
        rw [numberAt_take (by omega), numberAt_length hhead,
          List.take_of_length_le (by rw [List.length_take]; omega)]
        exact ⟨⟨by omega, htext⟩, by omega⟩
  | upload isFile content destination =>
      rw [ReadAt, Noticed, List.length_take_of_le hn]
      · exact hplain _ _ h hn
      all_goals exact fun _ _ h => by cases h
  | download targetName =>
      rw [ReadAt, Noticed, List.length_take_of_le hn]
      · exact hplain _ _ h hn
      all_goals exact fun _ _ h => by cases h
  | delete targetName =>
      rw [ReadAt, Noticed, List.length_take_of_le hn]
      · exact hplain _ _ h hn
      all_goals exact fun _ _ h => by cases h

-- ============================================================================
-- The cuts that are noticed
-- ============================================================================

theorem error_iff {α : Type} (x : Except Exn α) :
    (∃ e, x = .error e) ↔ ¬ ∃ a, x = .ok a := by
  cases x <;> simp

/-- A Request that was cut off is read out of the layers that are left. -/
theorem Command.layersAt_iff (data : Bytes) (c : Command) :
    LayersAt data .request c.subType ↔
      RequestAt data 16 ∧ c.ReadAt data (requestEnd data 16) := by
  cases c <;> rfl

section CutRequest

variable {options : Options} {c : Command} {head lb tail : Bytes} {n : Nat}

/-- With ASCII names the layer behind them is where the code looks for it. -/
theorem layers_take_iff_of_ascii (hlb : (c.requestLayer options).toBytes = .ok lb)
    (hproper : (c.requestLayer options).Proper) (hhead : head.length = 16)
    (htail : c.pathBytes = .ok tail) (hn : n ≤ (head ++ (lb ++ tail)).length)
    (huser : Ascii options.userName) (hpassword : Ascii options.password) :
    RequestAt ((head ++ (lb ++ tail)).take n) 16 ∧
        c.ReadAt ((head ++ (lb ++ tail)).take n)
          (requestEnd ((head ++ (lb ++ tail)).take n) 16) ↔
      ¬ c.Noticed ((head ++ (lb ++ tail)).take n)
        (44 + options.userName.length + options.password.length) := by
  have hlen := RequestLayer.length_of_toBytes hlb huser hpassword
  have hend : 16 + (c.requestLayer options).len =
      44 + options.userName.length + options.password.length := by
    rw [RequestLayer.len, show calcsize .native [.Q, .Q, .bool, .I] = 24 from rfl,
      show calcsize .native [.I] = 4 from rfl]
    show 16 + (24 + options.userName.length + 4 + options.password.length) = _
    omega
  by_cases hwhole : 16 + (c.requestLayer options).len ≤ n
  · obtain ⟨hread, hstart⟩ := requestAt_take hlb hproper hhead huser hpassword tail hwhole
    have hplace : (head ++ lb).length = 16 + (c.requestLayer options).len := by
      rw [List.length_append, hhead, hlen]
    rw [and_iff_right hread, hstart, ← hend, ← hplace, ← List.append_assoc,
      Command.readAt_take_iff htail (head ++ lb) (by rwa [List.append_assoc])]
  · have hshort : n < 16 + (c.requestLayer options).len := Nat.lt_of_not_le hwhole
    refine iff_of_false ?_ (not_not.mpr (Command.noticed_of_lt ?_))
    · rintro ⟨hread, hpath⟩
      have hend := requestEnd_take_of_lt hlb hproper hhead huser hpassword hn hshort hread
      have hroom := Command.room_of_readAt hpath
      rw [List.length_take_of_le hn] at hroom
      omega
    · rw [List.length_take_of_le hn]
      omega

/-- With other names it is looked for where the bytes in their places end. -/
theorem layers_take_iff_of_not_ascii (hlb : (c.requestLayer options).toBytes = .ok lb)
    (hproper : (c.requestLayer options).Proper) (hhead : head.length = 16)
    (hn : n ≤ (head ++ (lb ++ tail)).length)
    (hascii : ¬ (Ascii options.userName ∧ Ascii options.password)) :
    RequestAt ((head ++ (lb ++ tail)).take n) 16 ∧
        c.ReadAt ((head ++ (lb ++ tail)).take n)
          (requestEnd ((head ++ (lb ++ tail)).take n) 16) ↔
      ¬ c.NamesNoticed options ((head ++ (lb ++ tail)).take n) := by
  have hnamed : (c.requestLayer options).anonymous = false := named_of_not_ascii hproper hascii
  have hname : (c.requestLayer options).userName.length = options.userName.length := rfl
  rw [requestAt_take_iff hlb hhead hnamed hn, Command.NamesNoticed, Command.noticedAstray_iff,
    List.length_take_of_le hn, hname]
  by_cases hroom : 44 + options.userName.length ≤ n
  · rw [requestEnd_take hlb hhead hnamed hn hroom, and_iff_right hroom,
      or_iff_right (Nat.not_lt.mpr hroom), not_or, not_or, not_not, not_not, not_not, and_assoc]
  · exact iff_of_false (fun h => hroom h.1.1) (not_not.mpr (Or.inl (Nat.lt_of_not_le hroom)))

theorem cut_request_raises_iff (hproper : options.Proper) {bs : Bytes}
    (hbs : (c.reqPocket options).toBytes = .ok bs) (hn : n ≤ bs.length) :
    (∃ e, Pocket.fromBytes (bs.take n) = .error e) ↔
      (Message.request options c).Noticed (bs.take n) := by
  obtain ⟨head, lb, tail, hhead, hlb, htail, rfl⟩ := Command.toBytes_reqPocket_iff.mp hbs
  have hlproper := Command.proper_requestLayer hproper c
  have hheadLen : head.length = 16 := BasicLayer.length_of_toBytes hhead
  have hfixed : RequestAt ((head ++ (lb ++ tail)).take n) 16 → 16 ≤ n := by
    rintro ⟨hfixed, -⟩
    rw [List.length_take_of_le hn] at hfixed
    omega
  rw [error_iff, cut_decodes_iff hhead, Command.layersAt_iff, Message.Noticed,
    and_iff_right_of_imp fun h => hfixed h.1]
  split
  · next hascii =>
      rw [layers_take_iff_of_ascii hlb hlproper hheadLen htail hn hascii.1 hascii.2, not_not]
  · next hascii => rw [layers_take_iff_of_not_ascii hlb hlproper hheadLen hn hascii, not_not]

end CutRequest

/-- The parts of a sent Response. -/
theorem response_toBytes {requestID : Nat} {pocketSubType : PocketSubType} {layer : ResponseLayer}
    {deleteResponseLayer : Option DeleteResponseLayer} {bs : Bytes}
    (h : (Message.response requestID pocketSubType layer deleteResponseLayer).pocket.toBytes =
      .ok bs) :
    ∃ head lb post, (BasicLayer.mk requestID .response pocketSubType).toBytes = .ok head ∧
      layer.toBytes = .ok lb ∧ bs = head ++ (lb ++ post) ∧ post.length ≤ 1 ∧
      (deleteResponseLayer = none → post = []) := by
  obtain ⟨head, tail, hhead, htail, rfl⟩ := Pocket.toBytes_ok_iff.mp h
  obtain ⟨lb, hlb, htail⟩ := except_bind_ok_iff.mp htail
  refine ⟨head, lb, ?_⟩
  cases deleteResponseLayer with
  | none =>
      cases htail
      exact ⟨[], hhead, hlb, by rw [List.append_nil], by simp, fun _ => rfl⟩
  | some l =>
      obtain ⟨post, hpost, htail⟩ := except_bind_ok_iff.mp htail
      cases htail
      have hlen : post.length = 1 := pack_length hpost
      exact ⟨post, hhead, hlb, rfl, Nat.le_of_eq hlen, nofun⟩

theorem cut_response_raises_iff {requestID : Nat} {pocketSubType : PocketSubType}
    {layer : ResponseLayer} {deleteResponseLayer : Option DeleteResponseLayer}
    (hproper : deleteResponseLayer ≠ none → pocketSubType = .delete) {bs : Bytes}
    (hbs : (Message.response requestID pocketSubType layer deleteResponseLayer).pocket.toBytes =
      .ok bs) {n : Nat} (hn : n < bs.length) :
    (∃ e, Pocket.fromBytes (bs.take n) = .error e) ↔
      (Message.response requestID pocketSubType layer deleteResponseLayer).Noticed
        (bs.take n) := by
  obtain ⟨head, lb, post, hhead, hlb, rfl, hpost, hnone⟩ := response_toBytes hbs
  have hheadLen : head.length = 16 := BasicLayer.length_of_toBytes hhead
  have hread := responseAt_take_iff hlb hheadLen (Nat.le_of_lt hn)
  rw [error_iff, cut_decodes_iff hhead, Message.Noticed, List.length_take_of_le (Nat.le_of_lt hn)]
  dsimp only [LayersAt]
  rw [hread, List.length_take_of_le (Nat.le_of_lt hn)]
  by_cases hsizes : 42 + layer.errorMessage.length ≤ n
  · by_cases htext : IsText ((encode layer.errorMessage).take layer.errorMessage.length)
    · have hflag : responseEnd ((head ++ (lb ++ post)).take n) 16 =
          42 + characters ((encode layer.errorMessage).take layer.errorMessage.length) :=
        responseEnd_take hlb hheadLen hsizes
      rw [hflag]
      by_cases hascii : Ascii layer.errorMessage
      · -- the sizes end before the flag, and only the flag is missing
        refine iff_of_true ?_ (Or.inl hascii)
        rintro ⟨-, -, hroom⟩
        have hmessage := (length_encode_eq_iff _).mpr hascii
        rw [List.take_of_length_le (Nat.le_of_eq hmessage),
          characters_of_decode (decode_encode _)] at hroom
        rw [List.length_append, List.length_append, hheadLen, length_of_ascii hlb hascii] at hn
        have hdelete := hproper fun h => by
          rw [hnone h, List.length_nil] at hn
          omega
        have := hroom hdelete
        omega
      · have hlt := characters_lt_of_not_ascii hascii htext
        refine iff_of_false (not_not.mpr ⟨by omega, ⟨hsizes, htext⟩, fun _ => by omega⟩) ?_
        simp only [hascii, htext, not_true_eq_false, or_false, false_or]
        omega
    · refine iff_of_true ?_ (Or.inr (Or.inr htext))
      rintro ⟨-, ⟨-, h⟩, -⟩
      exact htext h
  · refine iff_of_true ?_ (Or.inr (Or.inl (by omega)))
    rintro ⟨-, ⟨h, -⟩, -⟩
    exact hsizes h

/-- A proper prefix of a message makes the decoder raise exactly when it is noticed: a
    Segment is not when it is cut behind the length of its data. -/
theorem cut_raises_iff {m : Message} (hproper : m.Proper) {bs d : Bytes}
    (hbs : m.pocket.toBytes = .ok bs) (hcut : d <+: bs) (hne : d ≠ bs) :
    (∃ e, Pocket.fromBytes d = .error e) ↔ m.Noticed d := by
  have hle := hcut.length_le
  have hlt : d.length < bs.length :=
    Nat.lt_of_le_of_ne hle fun h => hne (hcut.eq_of_length h)
  have htake : d = bs.take d.length := List.prefix_iff_eq_take.mp hcut
  generalize d.length = n at htake hle hlt
  subst htake
  cases m with
  | request options c => exact cut_request_raises_iff hproper hbs hle
  | response requestID pocketSubType layer deleteResponseLayer =>
      exact cut_response_raises_iff hproper hbs hlt
  | segment requestID segmentID data =>
      obtain ⟨head, tail, hhead, -, rfl⟩ := Pocket.toBytes_ok_iff.mp hbs
      rw [error_iff, cut_decodes_iff hhead]
      show ¬ (16 ≤ n ∧ 28 ≤ ((head ++ tail).take n).length) ↔ ((head ++ tail).take n).length < 28
      rw [List.length_take_of_le hle]
      omega
  | ack requestID segmentID =>
      obtain ⟨head, tail, hhead, htail, rfl⟩ := Pocket.toBytes_ok_iff.mp hbs
      have hheadLen : head.length = 16 := BasicLayer.length_of_toBytes hhead
      have htailLen : tail.length = 8 := pack_length htail
      rw [error_iff, cut_decodes_iff hhead]
      show ¬ (16 ≤ n ∧ 24 ≤ ((head ++ tail).take n).length) ↔ True
      rw [List.length_take_of_le hle]
      rw [List.length_append, hheadLen, htailLen] at hlt
      exact iff_of_true (fun h => by omega) trivial

/-- A Segment that is cut in front of its data. -/
theorem cut_raises_iff_segment :
    ∃ e, Pocket.fromBytes ((segmentPocket 1 0 [7, 8]).datagram.take 20) = .error e := by
  have hbs : (Message.segment 1 0 [7, 8]).pocket.toBytes =
      .ok (segmentPocket 1 0 [7, 8]).datagram := by
    decide +kernel
  have hnoticed : (Message.segment 1 0 [7, 8]).Noticed
      ((segmentPocket 1 0 [7, 8]).datagram.take 20) := by
    show ((segmentPocket 1 0 [7, 8]).datagram.take 20).length < 28
    decide +kernel
  have hproper : (Message.segment 1 0 [7, 8]).Proper := trivial
  exact (cut_raises_iff hproper hbs (List.take_prefix _ _) (by decide +kernel)).mpr hnoticed

/-- A Segment that lost its last byte is a Segment with less data. -/
theorem not_cut_raises :
    ¬ ∀ (m : Message) (bs d : Bytes), m.Proper → m.pocket.toBytes = .ok bs → d <+: bs → d ≠ bs →
      ∃ e, Pocket.fromBytes d = .error e := by
  intro hall
  have hbs : (Message.segment 1 0 [7, 8]).pocket.toBytes =
      .ok (segmentPocket 1 0 [7, 8]).datagram := by
    decide +kernel
  obtain ⟨e, he⟩ := hall (.segment 1 0 [7, 8]) _ ((segmentPocket 1 0 [7, 8]).datagram.take 29)
    trivial hbs (List.take_prefix _ _) (by decide +kernel)
  have hdecoded : Pocket.fromBytes ((segmentPocket 1 0 [7, 8]).datagram.take 29) =
      .ok (segmentPocket 1 0 [7]) := by
    decide +kernel
  cases hdecoded.symm.trans he

end Client
end NetworkingFinal
