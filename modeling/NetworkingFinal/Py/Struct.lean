/-
  NetworkingFinal.Py.Struct

  Python's `struct` module for the format codes in use.  A native format
  (`"QQ?I"`) lays its fields out as the C compiler does on x86-64: little-endian,
  every field padded to a multiple of its size from the start of the format, no
  padding after the last field.  A `>` format is big-endian and unpadded.

  Values are naturals; `?` packs any non-zero value as 1 and unpacks any
  non-zero byte as 1.  The code `d` moves the eight bytes of a double without
  interpreting them.
-/
import NetworkingFinal.Py.Basic

namespace NetworkingFinal
namespace Py
namespace Struct

-- ============================================================================
-- Unsigned integers as bytes
-- ============================================================================

/-- The `w` little-endian bytes of `n`. -/
def toLittle : Nat → Nat → Bytes
  | 0, _ => []
  | w + 1, n => UInt8.ofNat (n % 256) :: toLittle w (n / 256)

/-- The number with the given little-endian bytes. -/
def ofLittle : Bytes → Nat
  | [] => 0
  | b :: bs => b.toNat + 256 * ofLittle bs

@[simp] theorem length_toLittle (w n : Nat) : (toLittle w n).length = w := by
  induction w generalizing n with
  | zero => rfl
  | succ w ih => rw [toLittle, List.length_cons, ih]

theorem ofLittle_toLittle {w n : Nat} (h : n < 256 ^ w) : ofLittle (toLittle w n) = n := by
  induction w generalizing n with
  | zero =>
      have hn : n = 0 := by simpa using h
      subst hn
      rfl
  | succ w ih =>
      have hdiv : n / 256 < 256 ^ w := by
        rw [Nat.div_lt_iff_lt_mul (by decide)]
        rwa [Nat.pow_succ] at h
      have hbyte : (UInt8.ofNat (n % 256)).toNat = n % 256 := by
        rw [UInt8.toNat_ofNat']
        exact Nat.mod_eq_of_lt (Nat.mod_lt n (by decide))
      rw [toLittle, ofLittle, ih hdiv, hbyte]
      omega

theorem toLittle_ofLittle (bs : Bytes) : toLittle bs.length (ofLittle bs) = bs := by
  induction bs with
  | nil => rfl
  | cons b bs ih =>
      have hb : b.toNat < 256 := b.toNat_lt
      have hmod : (b.toNat + 256 * ofLittle bs) % 256 = b.toNat := by omega
      have hdiv : (b.toNat + 256 * ofLittle bs) / 256 = ofLittle bs := by omega
      rw [List.length_cons, toLittle, ofLittle, hmod, hdiv, ih, UInt8.ofNat_toNat]

-- ============================================================================
-- Formats
-- ============================================================================

/-- The format codes. -/
inductive Code where
  | bool
  | B
  | H
  | I
  | Q
  | d
  deriving DecidableEq, Repr

/-- Bytes a field of this code takes, which is also its native alignment. -/
def Code.size : Code → Nat
  | .bool => 1
  | .B => 1
  | .H => 2
  | .I => 4
  | .Q => 8
  | .d => 8

theorem Code.size_pos (c : Code) : 0 < c.size := by
  cases c <;> decide

/-- The value a field of this code comes back with. -/
def Code.norm : Code → Nat → Nat
  | .bool, n => if n = 0 then 0 else 1
  | _, n => n

/-- The byte order and padding a format asks for. -/
inductive Order where
  | native
  | big
  deriving DecidableEq, Repr

/-- Padding bytes before a field that would start `off` bytes into the format. -/
def Order.pad : Order → Nat → Code → Nat
  | .native, off, c => (c.size - off % c.size) % c.size
  | .big, _, _ => 0

def Order.toBytes : Order → Nat → Nat → Bytes
  | .native, w, n => toLittle w n
  | .big, w, n => (toLittle w n).reverse

def Order.ofBytes : Order → Bytes → Nat
  | .native, bs => ofLittle bs
  | .big, bs => ofLittle bs.reverse

@[simp] theorem Order.length_toBytes (o : Order) (w n : Nat) : (o.toBytes w n).length = w := by
  cases o <;> simp [Order.toBytes]

theorem Order.ofBytes_toBytes (o : Order) {w n : Nat} (h : n < 256 ^ w) :
    o.ofBytes (o.toBytes w n) = n := by
  cases o <;> simp [Order.toBytes, Order.ofBytes, ofLittle_toLittle h]

theorem Order.toBytes_ofBytes (o : Order) (bs : Bytes) :
    o.toBytes bs.length (o.ofBytes bs) = bs := by
  cases o with
  | native => exact toLittle_ofLittle bs
  | big =>
      have hback := toLittle_ofLittle bs.reverse
      rw [List.length_reverse] at hback
      rw [Order.toBytes, Order.ofBytes, hback, List.reverse_reverse]

/-- `struct.calcsize`, from `off` bytes into the format. -/
def calcsizeFrom (o : Order) : Nat → List Code → Nat
  | _, [] => 0
  | off, c :: cs =>
      o.pad off c + c.size + calcsizeFrom o (off + o.pad off c + c.size) cs

/-- `struct.calcsize(fmt)` -/
def calcsize (o : Order) (fmt : List Code) : Nat := calcsizeFrom o 0 fmt

/-- `struct.pack`, from `off` bytes into the format. -/
def packFrom (o : Order) : Nat → List Code → List Nat → Except Exn Bytes
  | _, [], [] => .ok []
  | off, c :: cs, v :: vs =>
      if c.norm v < 256 ^ c.size then
        match packFrom o (off + o.pad off c + c.size) cs vs with
        | .ok rest =>
            .ok (List.replicate (o.pad off c) 0 ++ o.toBytes c.size (c.norm v) ++ rest)
        | .error e => .error e
      else .error .structError
  | _, _, _ => .error .structError

/-- `struct.pack(fmt, *vals)` -/
def pack (o : Order) (fmt : List Code) (vals : List Nat) : Except Exn Bytes :=
  packFrom o 0 fmt vals

/-- `struct.unpack_from`, from `off` bytes into the format, on the bytes left. -/
def unpackRest (o : Order) : Nat → List Code → Bytes → Except Exn (List Nat)
  | _, [], _ => .ok []
  | off, c :: cs, bs =>
      let field := bs.drop (o.pad off c)
      if c.size ≤ field.length then
        match unpackRest o (off + o.pad off c + c.size) cs (field.drop c.size) with
        | .ok vs => .ok (c.norm (o.ofBytes (field.take c.size)) :: vs)
        | .error e => .error e
      else .error .structError

/-- `struct.unpack_from(fmt, data, offset)` -/
def unpackFrom (o : Order) (fmt : List Code) (data : Bytes) (offset : Nat) :
    Except Exn (List Nat) :=
  unpackRest o 0 fmt (data.drop offset)

/-- `struct.unpack(fmt, data)`: the data must have the size of the format. -/
def unpack (o : Order) (fmt : List Code) (data : Bytes) : Except Exn (List Nat) :=
  if data.length = calcsize o fmt then unpackFrom o fmt data 0 else .error .structError

/-- `struct.pack` of one integer. -/
def packInt (o : Order) (c : Code) : Int → Except Exn Bytes
  | .ofNat n => pack o [c] [n]
  | .negSucc _ => .error .structError

theorem fails_packFrom {P : Exn → Prop} (h : P .structError) (o : Order) (off : Nat)
    (fmt : List Code) (vals : List Nat) : Fails P (packFrom o off fmt vals) := by
  induction fmt generalizing off vals with
  | nil =>
      cases vals with
      | nil => exact fails_ok _
      | cons v vs => exact fails_throw h
  | cons c cs ih =>
      cases vals with
      | nil => exact fails_throw h
      | cons v vs =>
          rw [packFrom]
          split
          · split
            · exact fails_ok _
            · next e he => exact fun e' he' => by cases he'; exact ih _ _ e he
          · exact fails_throw h

/-- `struct.pack` raises nothing but struct.error. -/
theorem fails_pack {P : Exn → Prop} (h : P .structError) (o : Order) (fmt : List Code)
    (vals : List Nat) : Fails P (pack o fmt vals) :=
  fails_packFrom h o 0 fmt vals

theorem fails_unpackRest {P : Exn → Prop} (h : P .structError) (o : Order) (off : Nat)
    (fmt : List Code) (bs : Bytes) : Fails P (unpackRest o off fmt bs) := by
  induction fmt generalizing off bs with
  | nil => exact fails_ok _
  | cons c cs ih =>
      rw [unpackRest]
      split
      · split
        · exact fails_ok _
        · next e he => exact fun e' he' => by cases he'; exact ih _ _ e he
      · exact fails_throw h

/-- `struct.unpack_from` raises nothing but struct.error. -/
theorem fails_unpackFrom {P : Exn → Prop} (h : P .structError) (o : Order) (fmt : List Code)
    (data : Bytes) (offset : Nat) : Fails P (unpackFrom o fmt data offset) :=
  fails_unpackRest h o 0 fmt _

-- ============================================================================
-- Round trip
-- ============================================================================

/-- The values of a format as they come back: `?` fields as 0 or 1. -/
def norms : List Code → List Nat → List Nat
  | c :: cs, v :: vs => c.norm v :: norms cs vs
  | _, _ => []

theorem Code.norm_norm (c : Code) (n : Nat) : c.norm (c.norm n) = c.norm n := by
  cases c <;> simp only [Code.norm]
  split <;> rfl

theorem packFrom_length {o : Order} {fmt : List Code} {vals : List Nat} {off : Nat}
    {bs : Bytes} (h : packFrom o off fmt vals = .ok bs) :
    bs.length = calcsizeFrom o off fmt := by
  induction fmt generalizing vals off bs with
  | nil =>
      cases vals with
      | nil => cases h; rfl
      | cons v vs => cases h
  | cons c cs ih =>
      cases vals with
      | nil => cases h
      | cons v vs =>
          rw [packFrom] at h
          split at h
          · split at h
            · next rest hrest =>
              cases h
              simp only [List.length_append, List.length_replicate, Order.length_toBytes,
                ih hrest, calcsizeFrom]
            · cases h
          · cases h

/-- The size of a packed format. -/
theorem pack_length {o : Order} {fmt : List Code} {vals : List Nat} {bs : Bytes}
    (h : pack o fmt vals = .ok bs) : bs.length = calcsize o fmt :=
  packFrom_length h

theorem unpackRest_packFrom {o : Order} {fmt : List Code} {vals : List Nat} {off : Nat}
    {bs : Bytes} (h : packFrom o off fmt vals = .ok bs) (post : Bytes) :
    unpackRest o off fmt (bs ++ post) = .ok (norms fmt vals) := by
  induction fmt generalizing vals off bs with
  | nil =>
      cases vals with
      | nil => cases h; rfl
      | cons v vs => cases h
  | cons c cs ih =>
      cases vals with
      | nil => cases h
      | cons v vs =>
          rw [packFrom] at h
          split at h
          · next hv =>
            split at h
            · next rest hrest =>
              cases h
              have hdrop : (List.replicate (o.pad off c) 0 ++ o.toBytes c.size (c.norm v)
                  ++ rest ++ post).drop (o.pad off c)
                  = o.toBytes c.size (c.norm v) ++ (rest ++ post) := by
                simp only [List.append_assoc]
                rw [List.drop_left' (by simp)]
              rw [unpackRest]
              simp only [hdrop]
              rw [if_pos (by simp), List.drop_left' (by simp), ih hrest,
                List.take_left' (by simp), Order.ofBytes_toBytes o hv, Code.norm_norm, norms]
            · cases h
          · cases h

/-- Unpacking a packed format, wherever it stands in a buffer. -/
theorem unpackFrom_pack {o : Order} {fmt : List Code} {vals : List Nat} {bs : Bytes}
    (h : pack o fmt vals = .ok bs) (pre post : Bytes) {offset : Nat}
    (hoff : offset = pre.length) :
    unpackFrom o fmt (pre ++ bs ++ post) offset = .ok (norms fmt vals) := by
  rw [unpackFrom, List.append_assoc, hoff, List.drop_left, unpackRest_packFrom h]

theorem unpackFrom_append_of_le {o : Order} {fmt : List Code} {xs ys : Bytes} {offset : Nat}
    (h : xs.length ≤ offset) :
    unpackFrom o fmt (xs ++ ys) offset = unpackFrom o fmt ys (offset - xs.length) := by
  rw [unpackFrom, unpackFrom, List.drop_append, List.drop_of_length_le h, List.nil_append]

theorem unpackFrom_pack_zero {o : Order} {fmt : List Code} {vals : List Nat} {bs : Bytes}
    (h : pack o fmt vals = .ok bs) (post : Bytes) :
    unpackFrom o fmt (bs ++ post) 0 = .ok (norms fmt vals) :=
  unpackFrom_pack h [] post rfl

/-- A flag in front of other data. -/
theorem unpack_flag (flag : UInt8) (content : Bytes) :
    unpackFrom .native [.bool] (flag :: content) 0 = .ok [if flag.toNat = 0 then 0 else 1] := by
  simp [unpackFrom, unpackRest, Order.pad, Code.size, Code.norm, Order.ofBytes, ofLittle]

/-- `unpack` of what `pack` made. -/
theorem unpack_pack {o : Order} {fmt : List Code} {vals : List Nat} {bs : Bytes}
    (h : pack o fmt vals = .ok bs) : unpack o fmt bs = .ok (norms fmt vals) := by
  have hback := unpackFrom_pack_zero h []
  rw [List.append_nil] at hback
  rw [unpack, if_pos (pack_length h), hback]

-- ============================================================================
-- Values that fit
-- ============================================================================

/-- The value can be packed as a field of this code. -/
def Code.Fits (c : Code) (v : Nat) : Prop := c.norm v < 256 ^ c.size

instance (c : Code) (v : Nat) : Decidable (c.Fits v) :=
  inferInstanceAs (Decidable (c.norm v < 256 ^ c.size))

theorem ofLittle_lt (bs : Bytes) : ofLittle bs < 256 ^ bs.length := by
  induction bs with
  | nil => exact Nat.one_pos
  | cons b bs ih =>
      have hb : b.toNat < 256 := b.toNat_lt
      rw [ofLittle, List.length_cons, Nat.pow_succ]
      omega

theorem Order.ofBytes_lt (o : Order) (bs : Bytes) : o.ofBytes bs < 256 ^ bs.length := by
  cases o with
  | native => exact ofLittle_lt bs
  | big => simpa [Order.ofBytes] using ofLittle_lt bs.reverse

theorem packFrom_of_fits {o : Order} {fmt : List Code} {vals : List Nat} (off : Nat)
    (h : List.Forall₂ Code.Fits fmt vals) : ∃ bs, packFrom o off fmt vals = .ok bs := by
  induction h generalizing off with
  | nil => exact ⟨[], rfl⟩
  | @cons c v cs vs hv _ ih =>
      obtain ⟨rest, hrest⟩ := ih (off + o.pad off c + c.size)
      have hlt : c.norm v < 256 ^ c.size := hv
      rw [packFrom, if_pos hlt, hrest]
      exact ⟨_, rfl⟩

/-- Values that fit can be packed. -/
theorem pack_of_fits (o : Order) {fmt : List Code} {vals : List Nat}
    (h : List.Forall₂ Code.Fits fmt vals) : ∃ bs, pack o fmt vals = .ok bs :=
  packFrom_of_fits 0 h

theorem fits_of_packFrom {o : Order} {fmt : List Code} {vals : List Nat} {off : Nat} {bs : Bytes}
    (h : packFrom o off fmt vals = .ok bs) : List.Forall₂ Code.Fits fmt vals := by
  induction fmt generalizing vals off bs with
  | nil =>
      cases vals with
      | nil => exact .nil
      | cons v vs => cases h
  | cons c cs ih =>
      cases vals with
      | nil => cases h
      | cons v vs =>
          rw [packFrom] at h
          split at h
          · next hv =>
              split at h
              · next rest hrest => exact .cons hv (ih hrest)
              · cases h
          · cases h

theorem fits_of_unpackRest {o : Order} {fmt : List Code} {vals : List Nat} {off : Nat}
    {bs : Bytes} (h : unpackRest o off fmt bs = .ok vals) : List.Forall₂ Code.Fits fmt vals := by
  induction fmt generalizing off bs vals with
  | nil =>
      cases h
      exact .nil
  | cons c cs ih =>
      rw [unpackRest] at h
      split at h
      · next hlen =>
          split at h
          · next vs hvs =>
              cases h
              refine .cons ?_ (ih hvs)
              have hlt := o.ofBytes_lt ((bs.drop (o.pad off c)).take c.size)
              rw [List.length_take_of_le hlen] at hlt
              rw [Code.Fits, Code.norm_norm]
              cases c <;> simp only [Code.norm]
              case bool => split <;> decide
              all_goals exact hlt
          · cases h
      · cases h

/-- What was packed fits. -/
theorem fits_of_pack {o : Order} {fmt : List Code} {vals : List Nat} {bs : Bytes}
    (h : pack o fmt vals = .ok bs) : List.Forall₂ Code.Fits fmt vals :=
  fits_of_packFrom h

/-- What is unpacked fits. -/
theorem fits_of_unpackFrom {o : Order} {fmt : List Code} {vals : List Nat} {data : Bytes}
    {offset : Nat} (h : unpackFrom o fmt data offset = .ok vals) :
    List.Forall₂ Code.Fits fmt vals :=
  fits_of_unpackRest h

example : pack .native [.B, .B, .Q] [4, 0, 258] =
    .ok [4, 0, 0, 0, 0, 0, 0, 0, 2, 1, 0, 0, 0, 0, 0, 0] := by decide

-- ============================================================================
-- When a format can be unpacked
-- ============================================================================

/-- The values a format has on the bytes, were there enough of them. -/
def valuesFrom (o : Order) : Nat → List Code → Bytes → List Nat
  | _, [], _ => []
  | off, c :: cs, bs =>
      c.norm (o.ofBytes ((bs.drop (o.pad off c)).take c.size)) ::
        valuesFrom o (off + o.pad off c + c.size) cs (bs.drop (o.pad off c + c.size))

theorem unpackRest_eq (o : Order) (off : Nat) (fmt : List Code) (bs : Bytes) :
    unpackRest o off fmt bs =
      if calcsizeFrom o off fmt ≤ bs.length then .ok (valuesFrom o off fmt bs)
      else .error .structError := by
  induction fmt generalizing off bs with
  | nil => rfl
  | cons c cs ih =>
      have hpos := c.size_pos
      rw [unpackRest, ih, calcsizeFrom, valuesFrom, List.drop_drop]
      simp only [List.length_drop]
      by_cases hfield : c.size ≤ bs.length - o.pad off c
      · rw [if_pos hfield]
        by_cases hrest : calcsizeFrom o (off + o.pad off c + c.size) cs ≤
            bs.length - (o.pad off c + c.size)
        · rw [if_pos hrest, if_pos (by omega)]
        · rw [if_neg hrest, if_neg (by omega)]
      · rw [if_neg hfield, if_neg (by omega)]

/-- `struct.unpack_from` asks for the bytes of its format after the offset. -/
theorem unpackFrom_eq (o : Order) (fmt : List Code) (data : Bytes) (offset : Nat) :
    unpackFrom o fmt data offset =
      if calcsize o fmt ≤ data.length - offset then .ok (valuesFrom o 0 fmt (data.drop offset))
      else .error .structError := by
  rw [unpackFrom, unpackRest_eq, List.length_drop]
  rfl

/-- The same for a format that is not empty. -/
theorem unpackFrom_eq_of_pos {o : Order} {fmt : List Code} (h : 0 < calcsize o fmt) (data : Bytes)
    (offset : Nat) :
    unpackFrom o fmt data offset =
      if offset + calcsize o fmt ≤ data.length then .ok (valuesFrom o 0 fmt (data.drop offset))
      else .error .structError := by
  rw [unpackFrom_eq]
  by_cases hle : offset + calcsize o fmt ≤ data.length
  · rw [if_pos hle, if_pos (by omega)]
  · rw [if_neg hle, if_neg (by omega)]

/-- The number in the bytes from the offset on, lowest first. -/
def numberAt (data : Bytes) (offset size : Nat) : Nat :=
  ofLittle (slice data offset (offset + size))

theorem ofLittle_take_drop (data : Bytes) (offset size : Nat) :
    ofLittle ((data.drop offset).take size) = numberAt data offset size := by
  rw [numberAt, slice, Nat.add_sub_cancel_left]

end Struct
end Py
end NetworkingFinal
