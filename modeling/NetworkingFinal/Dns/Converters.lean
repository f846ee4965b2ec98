/-
  NetworkingFinal.Dns.Converters

  The byte conversions of the DNS server (src/dns/converters.py): big-endian
  numbers of a given size, host names as length-prefixed labels, and IP addresses.
-/
import NetworkingFinal.Lib.Placed
import NetworkingFinal.Py.Inet
import NetworkingFinal.Py.Struct

namespace NetworkingFinal
namespace Dns

open Py Py.Struct
open Lib (Placed)

-- ============================================================================
-- Numbers
-- ============================================================================

/-- `unpack_int_from`: the number and the offset after it.  A slice past the end of the
    data is short and gives a smaller number, never an exception. -/
def unpackIntFrom (data : Bytes) (offset size : Nat) : Nat × Nat :=
  (Order.big.ofBytes (slice data offset (offset + size)), offset + size)

/-- `pack_int` -/
def packInt (number : Int) (size : Nat) : Except Exn Bytes :=
  if 0 ≤ number ∧ number < 256 ^ size then .ok (Order.big.toBytes size number.toNat)
  else .error .overflowError

-- ============================================================================
-- Host names
-- ============================================================================

/-- The loop of `unpack_host_name`, when `labelLen` was read just before `offset`. -/
def unpackLabels (data : Bytes) (domainName : Str) (labelLen offset : Nat) :
    Except Exn (Str × Nat) :=
  if labelLen > 0 ∧ offset < data.length then
    match decode (slice data offset (offset + labelLen)) with
    | .ok label =>
        let domainName := (if domainName.length > 0 then domainName ++ ['.'] else domainName) ++ label
        match data[offset + labelLen]? with
        | some next => unpackLabels data domainName next.toNat (offset + labelLen + 1)
        -- the data ended inside or right after the label, and so does the loop
        | none => .ok (domainName, offset + labelLen)
    | .error e => .error e
  else .ok (domainName, offset)
termination_by data.length - offset

/-- `unpack_host_name` -/
def unpackHostName (data : Bytes) (offset : Nat) : Except Exn (Str × Nat) :=
  match data[offset]? with
  | some labelLen => unpackLabels data [] labelLen.toNat (offset + 1)
  | none => .error .indexError

-- ============================================================================
-- Addresses
-- ============================================================================

/-- `ip_bytes_to_str`, which looks at the first four bytes. -/
def ipBytesToStr : Bytes → Except Exn Str
  | a :: b :: c :: d :: _ =>
      .ok (decimal a.toNat ++ '.' :: (decimal b.toNat ++ '.' ::
        (decimal c.toNat ++ '.' :: decimal d.toNat)))
  | _ => .error .indexError

/-- `bytes(ns)` of integers. -/
def bytesOfInts (ns : List Int) : Except Exn Bytes :=
  if ns.all (0 ≤ ·) then bytesOf (ns.map Int.toNat) else .error .valueError

/-- `ip_str_to_bytes` -/
def ipStrToBytes (address : Str) : Except Exn Bytes := do
  let nums ← (address.splitOn '.').mapM int
  bytesOfInts nums

-- ============================================================================
-- Reading numbers back
-- ============================================================================

theorem slice_placed {data piece : Bytes} {offset : Nat} (h : Placed data offset piece) :
    slice data offset (offset + piece.length) = piece := by
  rw [slice, Nat.add_sub_cancel_left, h.take_drop]

/-- A number that stands at the offset. -/
theorem unpackIntFrom_placed {data : Bytes} {offset size n : Nat} (hn : n < 256 ^ size)
    (h : Placed data offset (Order.big.toBytes size n)) :
    unpackIntFrom data offset size = (n, offset + size) := by
  have hslice := slice_placed h
  rw [Order.length_toBytes] at hslice
  rw [unpackIntFrom, hslice, Order.ofBytes_toBytes .big hn]

/-- The bytes of the number that is read from inside the data. -/
theorem placed_unpackIntFrom {data : Bytes} {offset size : Nat}
    (h : offset + size ≤ data.length) :
    Placed data offset (Order.big.toBytes size (unpackIntFrom data offset size).1) := by
  have hlen : (slice data offset (offset + size)).length = size := by
    rw [length_slice]
    omega
  have hback := Order.big.toBytes_ofBytes (slice data offset (offset + size))
  rw [hlen] at hback
  rw [unpackIntFrom, hback, slice, Nat.add_sub_cancel_left]
  exact List.take_prefix _ _

theorem packInt_natCast {n size : Nat} (h : n < 256 ^ size) :
    packInt n size = .ok (Order.big.toBytes size n) := by
  have hcast : ((256 ^ size : Nat) : Int) = 256 ^ size := Int.natCast_pow 256 size
  have hle : (0 : Int) ≤ n ∧ (n : Int) < 256 ^ size := by omega
  rw [packInt, if_pos hle, Int.toNat_natCast]

theorem packInt_ok_iff {number : Int} {size : Nat} {bytes : Bytes} :
    packInt number size = .ok bytes ↔
      (0 ≤ number ∧ number < 256 ^ size) ∧ Order.big.toBytes size number.toNat = bytes := by
  unfold packInt
  split
  · next h => rw [Except.ok.injEq, and_iff_right h]
  · next h => exact ⟨nofun, fun hx => absurd hx.1 h⟩

/-- The labels of a name as they stand in a message: each after its length, a zero byte
    at the end. -/
def wireName : List Bytes → Bytes
  | [] => [0]
  | label :: labels => UInt8.ofNat label.length :: (label ++ wireName labels)

/-- The text of a name: its labels decoded, a dot between two of them. -/
def nameText (domainName : Str) : List Bytes → Except Exn Str
  | [] => .ok domainName
  | label :: labels => do
      let text ← decode label
      nameText ((if domainName.length > 0 then domainName ++ ['.'] else domainName) ++ text) labels

/-- What the length byte of a label can say. -/
def ShortLabel (label : Bytes) : Prop := label ≠ [] ∧ label.length < 256

theorem wireName_ne_nil (labels : List Bytes) : wireName labels ≠ [] := by
  cases labels with
  | nil => exact List.cons_ne_nil _ _
  | cons label labels => exact List.cons_ne_nil _ _

/-- One turn of the loop. -/
theorem unpackLabels_succ {data : Bytes} {labelLen offset : Nat} (domainName : Str)
    (hlen : 0 < labelLen) (hoffset : offset < data.length) :
    unpackLabels data domainName labelLen offset =
      (decode (slice data offset (offset + labelLen))).bind fun label =>
        match data[offset + labelLen]? with
        | some next =>
            unpackLabels data
              ((if domainName.length > 0 then domainName ++ ['.'] else domainName) ++ label)
              next.toNat (offset + labelLen + 1)
        | none =>
            .ok ((if domainName.length > 0 then domainName ++ ['.'] else domainName) ++ label,
              offset + labelLen) := by
  rw [unpackLabels, if_pos ⟨hlen, hoffset⟩]
  cases decode (slice data offset (offset + labelLen)) with
  | ok label => rfl
  | error e => rfl

/-- The loop reads the labels up to the zero byte. -/
theorem unpackLabels_wireName {labels : List Bytes} (hlabels : ∀ label ∈ labels, ShortLabel label)
    {data : Bytes} {offset : Nat} (h : Placed data offset (wireName labels)) (domainName : Str) :
    ∃ first, data[offset]? = some first ∧
      unpackLabels data domainName first.toNat (offset + 1) =
        (nameText domainName labels).map fun text => (text, offset + (wireName labels).length) := by
  induction labels generalizing offset domainName with
  | nil =>
      refine ⟨0, h.head, ?_⟩
      rw [unpackLabels, if_neg (by simp)]
      rfl
  | cons label labels ih =>
      obtain ⟨hne, hlt⟩ := hlabels label List.mem_cons_self
      have hlen : 0 < label.length := List.length_pos_iff.mpr hne
      -- the label stands after its length, and the rest of the name after the label
      have hlabel : Placed data (offset + 1) label := h.tail.left
      have hrest : Placed data (offset + 1 + label.length) (wireName labels) := h.tail.right
      have hend : offset + (wireName (label :: labels)).length =
          offset + 1 + label.length + (wireName labels).length := by
        simp only [wireName, List.length_cons, List.length_append]
        omega
      have hle := hlabel.offset_add_length_le hne
      refine ⟨UInt8.ofNat label.length, h.head, ?_⟩
      rw [toNat_ofNat_of_lt hlt, unpackLabels_succ domainName hlen (by omega), slice_placed hlabel,
        nameText, hend]
      cases decode label with
      | error e => rfl
      | ok text =>
          obtain ⟨next, hnext, hloop⟩ := ih (fun l hl => hlabels l (List.mem_cons_of_mem _ hl))
            hrest ((if domainName.length > 0 then domainName ++ ['.'] else domainName) ++ text)
          simp only [Except.bind, except_ok_bind, hnext]
          exact hloop

/-- A name without compression is read as its labels. -/
theorem unpackHostName_wireName {labels : List Bytes}
    (hlabels : ∀ label ∈ labels, ShortLabel label) {data : Bytes} {offset : Nat}
    (h : Placed data offset (wireName labels)) :
    unpackHostName data offset =
      (nameText [] labels).map fun text => (text, offset + (wireName labels).length) := by
  obtain ⟨first, hfirst, hloop⟩ := unpackLabels_wireName hlabels h []
  rw [unpackHostName, hfirst]
  exact hloop

-- ============================================================================
-- Reading addresses back
-- ============================================================================

theorem ipBytesToStr_of_inetNtoa {packed : Bytes} {address : Str}
    (h : inetNtoa packed = .ok address) : ipBytesToStr packed = .ok address := by
  match packed, h with
  | [a, b, c, d], h => exact h

theorem bytesOfInts_toNat (bytes : Bytes) :
    bytesOfInts (bytes.map fun b => (b.toNat : Int)) = .ok bytes := by
  have hnonneg : (bytes.map fun b => (b.toNat : Int)).all (0 ≤ ·) = true := by simp
  have hnats : (bytes.map fun b => (b.toNat : Int)).map Int.toNat = bytes.map UInt8.toNat := by
    rw [List.map_map]
    rfl
  have hlt : ∀ n ∈ bytes.map UInt8.toNat, n < 256 := by
    intro n hn
    obtain ⟨b, -, rfl⟩ := List.mem_map.mp hn
    exact b.toNat_lt
  have hback : (bytes.map UInt8.toNat).map UInt8.ofNat = bytes := by
    rw [List.map_map]
    conv_rhs => rw [← List.map_id bytes]
    exact List.map_congr_left fun b _ => UInt8.ofNat_toNat
  rw [bytesOfInts, if_pos hnonneg, hnats, bytesOf_of_lt hlt, hback]

/-- The address in the first four bytes. -/
theorem inetNtoa_of_ipBytesToStr {data : Bytes} {address : Str}
    (h : ipBytesToStr data = .ok address) : inetNtoa (data.take 4) = .ok address := by
  match data, h with
  | a :: b :: c :: d :: rest, h => exact h

/-- `ip_str_to_bytes` reads the bytes of a dotted quad. -/
theorem ipStrToBytes_of_inetNtoa {packed : Bytes} {address : Str}
    (h : inetNtoa packed = .ok address) : ipStrToBytes address = .ok packed := by
  match packed, h with
  | [a, b, c, d], h =>
      rw [inetNtoa, Except.ok.injEq] at h
      subst h
      have hdot : ∀ part ∈ [a, b, c, d].map fun x => decimal x.toNat, '.' ∉ part := by
        intro part hpart hmem
        obtain ⟨x, -, rfl⟩ := List.mem_map.mp hpart
        exact absurd (isDigit_of_mem_decimal hmem) (by decide)
      have hsplit := List.splitOn_intercalate '.' hdot (by simp)
      have hjoin : List.intercalate ['.'] ([a, b, c, d].map fun x => decimal x.toNat) =
          decimal a.toNat ++ '.' :: (decimal b.toNat ++ '.' ::
            (decimal c.toNat ++ '.' :: decimal d.toNat)) := by
        simp [List.intercalate, List.intersperse]
      rw [hjoin] at hsplit
      have hbytes := bytesOfInts_toNat [a, b, c, d]
      simp only [List.map_cons, List.map_nil] at hsplit hbytes
      simp only [ipStrToBytes, hsplit, List.mapM_cons, List.mapM_nil, int_decimal, except_ok_bind,
        except_pure, hbytes]

end Dns
end NetworkingFinal
