/-
  NetworkingFinal.Ftp.Blocks

  The blocks a directory listing is sent as (src/lib/ftp.py): the type byte, the
  name behind its length in characters, the modification time and, for a file, the
  size.  The length is read back as one in bytes.

  - `Block.pack_ok_iff`: which blocks can be sent.
  - `unpackName_encode`, `ascii_of_unpackName`: the names that are read back are the
    ASCII ones.
-/
import NetworkingFinal.Py.Struct

namespace NetworkingFinal
namespace Ftp

open Py Py.Struct

/-- `pack_directory_block` -/
def packDirectoryBlock (directoryName : Str) (updatedAt : UInt64) : Except Exn Bytes := do
  let blockType ← pack .native [.bool] [1]
  let length ← pack .native [.I] [directoryName.length]
  let info ← pack .native [.d] [updatedAt.toNat]
  return blockType ++ length ++ encode directoryName ++ info

/-- `pack_file_block` -/
def packFileBlock (fileName : Str) (updatedAt : UInt64) (fileSize : Nat) : Except Exn Bytes := do
  let blockType ← pack .native [.bool] [0]
  let length ← pack .native [.I] [fileName.length]
  let info ← pack .native [.d, .Q] [updatedAt.toNat, fileSize]
  return blockType ++ length ++ encode fileName ++ info

/-- `unpack_block_type`: whether the block is about a directory. -/
def unpackBlockType (data : Bytes) (offset : Nat) : Except Exn (Bool × Nat) := do
  match ← unpackFrom .native [.bool] data offset with
  | [isDirectory] => return (isDirectory != 0, offset + calcsize .native [.bool])
  | _ => throw .structError

/-- The name behind its length, at which both kinds of blocks go on. -/
def unpackName (data : Bytes) (offset : Nat) : Except Exn (Str × Nat) := do
  match ← unpackFrom .native [.I] data offset with
  | [length] =>
      let offset := offset + calcsize .native [.I]
      -- an empty slice decodes to the empty string
      let name ← decode (slice data offset (offset + length))
      return (name, offset + length)
  | _ => throw .structError

/-- `unpack_directory_block` -/
def unpackDirectoryBlock (data : Bytes) (offset : Nat) :
    Except Exn ((Str × UInt64) × Nat) := do
  let (directoryName, offset) ← unpackName data offset
  match ← unpackFrom .native [.d] data offset with
  | [updatedAt] =>
      return ((directoryName, UInt64.ofNat updatedAt), offset + calcsize .native [.d])
  | _ => throw .structError

/-- `unpack_file_block` -/
def unpackFileBlock (data : Bytes) (offset : Nat) :
    Except Exn ((Str × UInt64 × Nat) × Nat) := do
  let (fileName, offset) ← unpackName data offset
  match ← unpackFrom .native [.d, .Q] data offset with
  | [updatedAt, fileSize] =>
      return ((fileName, UInt64.ofNat updatedAt, fileSize), offset + calcsize .native [.d, .Q])
  | _ => throw .structError

-- ============================================================================
-- Names
-- ============================================================================

section Name

variable {name : Str} {len : Bytes}

/-- As many bytes as the name has characters are read. -/
theorem unpackName_eq (hlen : pack .native [.I] [name.length] = .ok len) (pre post : Bytes) :
    unpackName (pre ++ (len ++ encode name ++ post)) pre.length =
      (decode ((encode name ++ post).take name.length) >>= fun name' =>
        .ok (name', (pre ++ len).length + name.length)) := by
  have hsize : len.length = calcsize .native [.I] := pack_length hlen
  have hsplit : pre ++ (len ++ encode name ++ post) = (pre ++ len) ++ (encode name ++ post) := by
    simp only [List.append_assoc]
  have hhead : unpackFrom .native [.I] (pre ++ len ++ (encode name ++ post)) pre.length =
      .ok [name.length] := unpackFrom_pack hlen pre _ rfl
  have hslice : slice (pre ++ len ++ (encode name ++ post)) (pre.length + calcsize .native [.I])
      (pre.length + calcsize .native [.I] + name.length) =
      (encode name ++ post).take name.length := by
    rw [← hsize, ← List.length_append, slice, List.drop_left, Nat.add_sub_cancel_left]
  rw [hsplit, unpackName, hhead, except_ok_bind]
  simp only [hslice]
  rw [← hsize, ← List.length_append]
  rfl

/-- An ASCII name is read back. -/
theorem unpackName_encode (hlen : pack .native [.I] [name.length] = .ok len)
    (hascii : Ascii name) (pre post : Bytes) :
    unpackName (pre ++ (len ++ encode name ++ post)) pre.length =
      .ok (name, (pre ++ (len ++ encode name)).length) := by
  rw [unpackName_eq hlen, (decode_take_iff name post).mpr hascii, except_ok_bind,
    ← (length_encode_eq_iff name).mpr hascii, ← List.length_append, List.append_assoc]

/-- Only an ASCII name is read back. -/
theorem ascii_of_unpackName (hlen : pack .native [.I] [name.length] = .ok len)
    {pre post : Bytes} {offset : Nat}
    (h : unpackName (pre ++ (len ++ encode name ++ post)) pre.length = .ok (name, offset)) :
    Ascii name := by
  rw [unpackName_eq hlen, except_bind_ok_iff] at h
  obtain ⟨name', hdecode, heq⟩ := h
  rw [Except.ok.injEq, Prod.mk.injEq] at heq
  rw [heq.1] at hdecode
  exact (decode_take_iff name post).mp hdecode

/-- The name a block is read with is the one at its start. -/
theorem unpackName_of_directory {data : Bytes} {offset last : Nat} {updatedAt : UInt64}
    (h : unpackDirectoryBlock data offset = .ok ((name, updatedAt), last)) :
    ∃ next, unpackName data offset = .ok (name, next) ∧ next ≤ last := by
  obtain ⟨⟨name', next⟩, hname, h⟩ := except_bind_ok_iff.mp h
  obtain ⟨vals, -, h⟩ := except_bind_ok_iff.mp h
  split at h
  · cases h
    exact ⟨next, hname, Nat.le_add_right _ _⟩
  · cases h

theorem unpackName_of_file {data : Bytes} {offset last size : Nat} {updatedAt : UInt64}
    (h : unpackFileBlock data offset = .ok ((name, updatedAt, size), last)) :
    ∃ next, unpackName data offset = .ok (name, next) ∧ next ≤ last := by
  obtain ⟨⟨name', next⟩, hname, h⟩ := except_bind_ok_iff.mp h
  obtain ⟨vals, -, h⟩ := except_bind_ok_iff.mp h
  split at h
  · cases h
    exact ⟨next, hname, Nat.le_add_right _ _⟩
  · cases h

/-- What is packed behind a name is read back. -/
theorem unpackFrom_behind {fmt : List Code} {vals : List Nat} {info : Bytes}
    (hinfo : pack .native fmt vals = .ok info) (pre front post : Bytes) :
    unpackFrom .native fmt (pre ++ (front ++ (info ++ post))) (pre ++ front).length =
      .ok (norms fmt vals) := by
  have hsplit : pre ++ (front ++ (info ++ post)) = pre ++ front ++ info ++ post := by
    simp only [List.append_assoc]
  rw [hsplit]
  exact unpackFrom_pack hinfo _ post rfl

theorem unpackDirectoryBlock_pack {info : Bytes} {updatedAt : UInt64}
    (hlen : pack .native [.I] [name.length] = .ok len)
    (hinfo : pack .native [.d] [updatedAt.toNat] = .ok info) (hascii : Ascii name)
    (pre post : Bytes) :
    unpackDirectoryBlock (pre ++ (len ++ encode name ++ (info ++ post))) pre.length =
      .ok ((name, updatedAt), (pre ++ (len ++ encode name) ++ info).length) := by
  have hsize : info.length = calcsize .native [.d] := pack_length hinfo
  rw [unpackDirectoryBlock, unpackName_encode hlen hascii, except_ok_bind]
  simp only [unpackFrom_behind hinfo, except_ok_bind, norms, Code.norm]
  rw [← hsize, ← List.length_append, UInt64.ofNat_toNat]
  rfl

theorem unpackFileBlock_pack {info : Bytes} {updatedAt : UInt64} {size : Nat}
    (hlen : pack .native [.I] [name.length] = .ok len)
    (hinfo : pack .native [.d, .Q] [updatedAt.toNat, size] = .ok info) (hascii : Ascii name)
    (pre post : Bytes) :
    unpackFileBlock (pre ++ (len ++ encode name ++ (info ++ post))) pre.length =
      .ok ((name, updatedAt, size), (pre ++ (len ++ encode name) ++ info).length) := by
  have hsize : info.length = calcsize .native [.d, .Q] := pack_length hinfo
  rw [unpackFileBlock, unpackName_encode hlen hascii, except_ok_bind]
  simp only [unpackFrom_behind hinfo, except_ok_bind, norms, Code.norm]
  rw [← hsize, ← List.length_append, UInt64.ofNat_toNat]
  rfl

end Name

-- ============================================================================
-- Blocks
-- ============================================================================

/-- What one block tells. -/
inductive Block where
  | directory (name : Str) (updatedAt : UInt64)
  | file (name : Str) (updatedAt : UInt64) (size : Nat)
  deriving DecidableEq

namespace Block

def name : Block → Str
  | directory name _ => name
  | file name _ _ => name

/-- The lengths of the block fit its fields. -/
def Fits : Block → Prop
  | directory name _ => Code.I.Fits name.length
  | file name _ size => Code.I.Fits name.length ∧ Code.Q.Fits size

instance : (b : Block) → Decidable b.Fits
  | directory name _ => inferInstanceAs (Decidable (Code.I.Fits name.length))
  | file name _ size => inferInstanceAs (Decidable (Code.I.Fits name.length ∧ Code.Q.Fits size))

def pack : Block → Except Exn Bytes
  | directory name updatedAt => packDirectoryBlock name updatedAt
  | file name updatedAt size => packFileBlock name updatedAt size

/-- The bytes of a block: its type, its name, and the rest. -/
theorem pack_parts {b : Block} {bs : Bytes} (h : b.pack = .ok bs) : ∃ blockType len info,
    Struct.pack .native [.I] [b.name.length] = .ok len ∧
      bs = blockType ++ (len ++ encode b.name) ++ info ∧
      match b with
      | directory _ updatedAt => Struct.pack .native [.bool] [1] = .ok blockType ∧
          Struct.pack .native [.d] [updatedAt.toNat] = .ok info
      | file _ updatedAt size => Struct.pack .native [.bool] [0] = .ok blockType ∧
          Struct.pack .native [.d, .Q] [updatedAt.toNat, size] = .ok info := by
  cases b with
  | directory name updatedAt =>
      simp only [pack, packDirectoryBlock, except_bind_ok_iff] at h
      obtain ⟨blockType, htype, len, hlen, info, hinfo, heq⟩ := h
      cases heq
      exact ⟨blockType, len, info, hlen, by rw [List.append_assoc blockType]; rfl, htype, hinfo⟩
  | file name updatedAt size =>
      simp only [pack, packFileBlock, except_bind_ok_iff] at h
      obtain ⟨blockType, htype, len, hlen, info, hinfo, heq⟩ := h
      cases heq
      exact ⟨blockType, len, info, hlen, by rw [List.append_assoc blockType]; rfl, htype, hinfo⟩

theorem length_pack_pos {b : Block} {bs : Bytes} (h : b.pack = .ok bs) : 0 < bs.length := by
  obtain ⟨blockType, len, info, hlen, rfl, -⟩ := pack_parts h
  have hsize : len.length = calcsize .native [.I] := pack_length hlen
  have hfour : calcsize .native [.I] = 4 := rfl
  rw [List.length_append, List.length_append, List.length_append]
  omega

/-- A block can be sent when its lengths fit. -/
theorem pack_ok_iff {b : Block} : (∃ bs, b.pack = .ok bs) ↔ b.Fits := by
  constructor
  · rintro ⟨bs, hbs⟩
    obtain ⟨blockType, len, info, hlen, -, hb⟩ := pack_parts hbs
    have hname := fits_of_pack hlen
    simp only [List.forall₂_cons] at hname
    cases b with
    | directory name updatedAt => exact hname.1
    | file name updatedAt size =>
        have hinfo := fits_of_pack hb.2
        simp only [List.forall₂_cons] at hinfo
        exact ⟨hname.1, hinfo.2.1⟩
  · have htime : ∀ t : UInt64, Code.d.Fits t.toNat := fun t => t.toNat_lt
    intro h
    cases b with
    | directory name updatedAt =>
        obtain ⟨len, hlen⟩ := pack_of_fits .native (.cons h .nil : List.Forall₂ _ _ [name.length])
        obtain ⟨info, hinfo⟩ := pack_of_fits .native
          (.cons (htime updatedAt) .nil : List.Forall₂ _ _ [updatedAt.toNat])
        refine ⟨[1] ++ len ++ encode name ++ info, ?_⟩
        rw [pack, packDirectoryBlock, hlen, hinfo]
        rfl
    | file name updatedAt size =>
        obtain ⟨len, hlen⟩ := pack_of_fits .native (.cons h.1 .nil : List.Forall₂ _ _ [name.length])
        obtain ⟨info, hinfo⟩ := pack_of_fits .native (.cons (htime updatedAt) (.cons h.2 .nil) :
          List.Forall₂ _ _ [updatedAt.toNat, size])
        refine ⟨[0] ++ len ++ encode name ++ info, ?_⟩
        rw [pack, packFileBlock, hlen, hinfo]
        rfl

end Block

/-- The blocks of a listing, one after the other. -/
def packBlocks : List Block → Except Exn Bytes
  | [] => .ok []
  | b :: bs => do
      let head ← b.pack
      let tail ← packBlocks bs
      return head ++ tail

theorem packBlocks_cons_ok_iff {b : Block} {bs : List Block} {data : Bytes} :
    packBlocks (b :: bs) = .ok data ↔ ∃ head tail, b.pack = .ok head ∧
      packBlocks bs = .ok tail ∧ data = head ++ tail := by
  rw [packBlocks]
  exact except_bind_bind_ok_iff

theorem packBlocks_append_ok_iff {xs ys : List Block} {data : Bytes} :
    packBlocks (xs ++ ys) = .ok data ↔ ∃ head tail, packBlocks xs = .ok head ∧
      packBlocks ys = .ok tail ∧ data = head ++ tail := by
  induction xs generalizing data with
  | nil =>
      constructor
      · exact fun h => ⟨[], data, rfl, h, rfl⟩
      · rintro ⟨head, tail, hhead, htail, rfl⟩
        cases hhead
        exact htail
  | cons b xs ih =>
      rw [List.cons_append, packBlocks_cons_ok_iff]
      constructor
      · rintro ⟨head, tail, hhead, htail, rfl⟩
        obtain ⟨mid, last, hmid, hlast, rfl⟩ := ih.mp htail
        exact ⟨head ++ mid, last, packBlocks_cons_ok_iff.mpr ⟨head, mid, hhead, hmid, rfl⟩, hlast,
          (List.append_assoc _ _ _).symm⟩
      · rintro ⟨first, last, hfirst, hlast, rfl⟩
        obtain ⟨head, mid, hhead, hmid, rfl⟩ := packBlocks_cons_ok_iff.mp hfirst
        exact ⟨head, mid ++ last, hhead, ih.mpr ⟨mid, last, hmid, hlast, rfl⟩,
          List.append_assoc _ _ _⟩

/-- All blocks can be sent when each can. -/
theorem packBlocks_ok_iff {bs : List Block} :
    (∃ data, packBlocks bs = .ok data) ↔ ∀ b ∈ bs, b.Fits := by
  induction bs with
  | nil => exact ⟨fun _ => nofun, fun _ => ⟨[], rfl⟩⟩
  | cons b bs ih =>
      rw [List.forall_mem_cons, ← ih, ← Block.pack_ok_iff]
      constructor
      · rintro ⟨data, h⟩
        obtain ⟨head, tail, hhead, htail, -⟩ := packBlocks_cons_ok_iff.mp h
        exact ⟨⟨head, hhead⟩, ⟨tail, htail⟩⟩
      · rintro ⟨⟨head, hhead⟩, ⟨tail, htail⟩⟩
        exact ⟨head ++ tail, packBlocks_cons_ok_iff.mpr ⟨head, tail, hhead, htail, rfl⟩⟩

end Ftp
end NetworkingFinal
