/-
  NetworkingFinal.Py.Basic

  The values of Python that the servers and the client are written in: `str`
  as a list of code points, `bytes` as a list of octets, the built-in
  exceptions, and `str.encode` / `bytes.decode` for UTF-8.
-/
import Mathlib.Algebra.Group.Int.Defs
import Mathlib.Algebra.GroupWithZero.Nat
import Mathlib.Data.List.Basic

namespace NetworkingFinal
namespace Py

/-- Python's `str`: a sequence of Unicode code points. -/
abbrev Str := List Char

/-- Python's `in`, for a text and a list of texts. -/
instance (c : Str) (cs : List Str) : Decidable (c ∈ cs) :=
  inferInstanceAs (Decidable (c ∈ cs))

/-- Python's `bytes`. -/
abbrev Bytes := List UInt8

/-- The exceptions the modelled code can raise.  `diverges` is no Python
    exception: it marks a call that has not returned on the external values
    (drawn identifiers) it was given. -/
inductive Exn where
  | structError
  | unicodeDecodeError
  | valueError
  | overflowError
  | typeError
  | osError
  | keyError
  | indexError
  | unboundLocalError
  | assertionError
  | badZipFile
  | diverges
  deriving DecidableEq, Repr

/-- A sequence in `Except` returns when both of its parts do. -/
theorem except_bind_ok_iff {α β : Type} {x : Except Exn α} {f : α → Except Exn β} {b : β} :
    (x >>= f) = .ok b ↔ ∃ a, x = .ok a ∧ f a = .ok b := by
  cases x with
  | ok a => simp [bind, Except.bind]
  | error e => simp [bind, Except.bind]

/-- What raises does not return. -/
theorem error_ok_iff {α : Type} {e : Exn} {p : Prop} (h : ¬ p) :
    (∃ a, (Except.error e : Except Exn α) = .ok a) ↔ p :=
  iff_of_false (fun hok => hok.elim fun _ ha => by cases ha) h

@[simp] theorem except_pure {α : Type} (a : α) : (pure a : Except Exn α) = .ok a := rfl

@[simp] theorem except_ok_bind {α β : Type} (a : α) (f : α → Except Exn β) :
    (Except.ok a >>= f) = f a := rfl

/-- What is made of two parts. -/
theorem except_bind_bind_ok_iff {α β γ : Type} {x : Except Exn α} {y : Except Exn β}
    {f : α → β → γ} {c : γ} : (do let a ← x; let b ← y; return f a b : Except Exn γ) = .ok c ↔
      ∃ a b, x = .ok a ∧ y = .ok b ∧ c = f a b := by
  simp only [except_bind_ok_iff, except_pure, Except.ok.injEq]
  constructor
  · rintro ⟨a, ha, b, hb, rfl⟩
    exact ⟨a, b, ha, hb, rfl⟩
  · rintro ⟨a, b, ha, hb, rfl⟩
    exact ⟨a, ha, b, hb, rfl⟩

/-- A sequence returns for some value exactly when both parts do. -/
theorem exists_bind_ok_iff {α β : Type} {x : Except Exn α} {f : α → Except Exn β} :
    (∃ b, (x >>= f) = .ok b) ↔ ∃ a, x = .ok a ∧ ∃ b, f a = .ok b := by
  simp only [except_bind_ok_iff]
  constructor
  · rintro ⟨b, a, ha, hb⟩
    exact ⟨a, ha, b, hb⟩
  · rintro ⟨a, ha, b, hb⟩
    exact ⟨b, a, ha, hb⟩

/-- A value is returned, or an exception that `except socket.error` catches is raised. -/
def Caught {α : Type} (x : Except Exn α) : Prop := (∃ a, x = .ok a) ∨ x = .error .osError

section Caught

variable {α β : Type}

@[simp] theorem caught_ok (a : α) : Caught (.ok a : Except Exn α) := Or.inl ⟨a, rfl⟩

theorem caught_error_iff (e : Exn) : Caught (.error e : Except Exn α) ↔ e = .osError := by
  simp [Caught]

theorem caught_bind_iff {x : Except Exn α} {f : α → Except Exn β} :
    Caught (x >>= f) ↔ x = .error .osError ∨ ∃ a, x = .ok a ∧ Caught (f a) := by
  cases x with
  | ok a => simp [bind, Except.bind]
  | error e => simp [bind, Except.bind, Caught]

end Caught

/-- The exceptions a computation may end in satisfy `P`. -/
def Fails {α : Type} (P : Exn → Prop) (x : Except Exn α) : Prop := ∀ e, x = .error e → P e

section Fails

variable {α β : Type} {P : Exn → Prop}

theorem fails_ok (a : α) : Fails P (.ok a : Except Exn α) := fun _ h => by cases h

theorem fails_pure (a : α) : Fails P (pure a : Except Exn α) := fails_ok a

theorem fails_throw {e : Exn} (h : P e) : Fails P (throw e : Except Exn α) :=
  fun _ he => by cases he; exact h

theorem fails_bind {x : Except Exn α} {f : α → Except Exn β} (hx : Fails P x)
    (hf : ∀ a, Fails P (f a)) : Fails P (x >>= f) := by
  intro e h
  cases x with
  | error e' =>
      cases h
      exact hx e rfl
  | ok a => exact hf a e h

end Fails

-- ============================================================================
-- UTF-8
-- ============================================================================

/-- `str.encode()`. -/
def encode (s : Str) : Bytes := s.flatMap String.utf8EncodeChar

/-- `bytes.decode()` with the strict error handler. -/
def decode (b : Bytes) : Except Exn Str :=
  match (ByteArray.mk b.toArray).utf8Decode? with
  | some cs => .ok cs.toList
  | none => .error .unicodeDecodeError

@[simp] theorem encode_nil : encode [] = [] := rfl

@[simp] theorem encode_cons (c : Char) (s : Str) :
    encode (c :: s) = String.utf8EncodeChar c ++ encode s := rfl

/-- Decoding undoes encoding. -/
@[simp] theorem decode_encode (s : Str) : decode (encode s) = .ok s := by
  have h : ByteArray.mk (encode s).toArray = s.utf8Encode := by
    apply ByteArray.ext
    simp [encode, List.utf8Encode]
  simp [decode, h, List.utf8Decode?_utf8Encode]

/-- What was decoded is what the string encodes to. -/
theorem encode_of_decode {b : Bytes} {s : Str} (h : decode b = .ok s) : encode s = b := by
  unfold decode at h
  split at h
  · next cs hcs =>
      cases h
      have hback := ByteArray.utf8Encode_get_utf8Decode? (b := ByteArray.mk b.toArray)
        (h := by rw [hcs]; rfl)
      simp only [hcs, Option.get_some] at hback
      have hlists := congrArg (fun a => a.data.toList) hback
      simpa [encode, List.utf8Encode] using hlists
  · cases h

/-- Every character is sent as one byte. -/
def Ascii (s : Str) : Prop := ∀ c ∈ s, c.val ≤ 127

instance (s : Str) : Decidable (Ascii s) := List.decidableBAll (fun c : Char => c.val ≤ 127) s

theorem length_le_length_encode (s : Str) : s.length ≤ (encode s).length := by
  induction s with
  | nil => exact Nat.le_refl 0
  | cons c s ih =>
      have hpos := c.utf8Size_pos
      rw [encode_cons, List.length_append, String.length_utf8EncodeChar, List.length_cons]
      omega

/-- The length in characters is that in bytes exactly for ASCII. -/
theorem length_encode_eq_iff (s : Str) : (encode s).length = s.length ↔ Ascii s := by
  induction s with
  | nil => simp [Ascii]
  | cons c s ih =>
      have hpos := c.utf8Size_pos
      have hle := length_le_length_encode s
      have hsplit : (encode (c :: s)).length = (c :: s).length ↔
          c.utf8Size = 1 ∧ (encode s).length = s.length := by
        rw [encode_cons, List.length_append, String.length_utf8EncodeChar, List.length_cons]
        omega
      rw [hsplit, ih, Char.utf8Size_eq_one_iff]
      simp [Ascii]

/-- As many bytes as the string has characters decode to it exactly for ASCII. -/
theorem decode_take_iff (s : Str) (post : Bytes) :
    decode ((encode s ++ post).take s.length) = .ok s ↔ Ascii s := by
  rw [← length_encode_eq_iff]
  constructor
  · intro h
    have hback := congrArg List.length (encode_of_decode h)
    have hle := length_le_length_encode s
    rw [List.length_take, List.length_append] at hback
    omega
  · intro h
    rw [← h, List.take_left, decode_encode]

theorem fails_decode {P : Exn → Prop} (h : P .unicodeDecodeError) (b : Bytes) :
    Fails P (decode b) := by
  unfold decode
  split
  · exact fails_ok _
  · exact fails_throw h

-- ============================================================================
-- Sequences
-- ============================================================================

/-- `range(start, stop)` -/
def range (start stop : Int) : List Int :=
  (List.range (stop - start).toNat).map fun (k : Nat) => start + k

theorem mem_range_iff {start stop i : Int} : i ∈ range start stop ↔ start ≤ i ∧ i < stop := by
  rw [range, List.mem_map]
  constructor
  · rintro ⟨k, hk, rfl⟩
    rw [List.mem_range] at hk
    omega
  · rintro ⟨hlo, hhi⟩
    have hk : (i - start).toNat ∈ List.range (stop - start).toNat := by
      rw [List.mem_range]
      omega
    exact ⟨(i - start).toNat, hk, by omega⟩

/-- `bytes(ns)` -/
def bytesOf (ns : List Nat) : Except Exn Bytes :=
  if ns.all (· < 256) then .ok (ns.map UInt8.ofNat) else .error .valueError

theorem bytesOf_of_lt {ns : List Nat} (h : ∀ n ∈ ns, n < 256) :
    bytesOf ns = .ok (ns.map UInt8.ofNat) := by
  have hall : ns.all (· < 256) = true := by simpa [List.all_eq_true] using h
  rw [bytesOf, if_pos hall]

theorem bytesOf_ok_iff (ns : List Nat) :
    (∃ bs, bytesOf ns = .ok bs) ↔ ∀ n ∈ ns, n < 256 := by
  refine ⟨fun ⟨bs, hbs⟩ n hn => ?_, fun h => ⟨_, bytesOf_of_lt h⟩⟩
  unfold bytesOf at hbs
  split at hbs
  · next hall => simpa using List.all_eq_true.mp hall n hn
  · cases hbs

theorem toNat_ofNat_of_lt {n : Nat} (h : n < 256) : (UInt8.ofNat n).toNat = n := by
  rw [UInt8.toNat_ofNat']
  exact Nat.mod_eq_of_lt h

/-- A text by the numbers of its code points. -/
theorem map_ofNat_toNat (text : Str) : (text.map Char.toNat).map Char.ofNat = text := by
  rw [List.map_map]
  conv_rhs => rw [← List.map_id text]
  apply List.map_congr_left
  intro c _
  exact Char.ofNat_toNat c

/-- `b[i:j]` for non-negative bounds. -/
def slice {α : Type} (b : List α) (i j : Nat) : List α := (b.drop i).take (j - i)

/-- A slice that starts after the first part of a sequence. -/
theorem slice_append_of_le {α : Type} {xs ys : List α} {i j : Nat} (h : xs.length ≤ i) :
    slice (xs ++ ys) i j = slice ys (i - xs.length) (j - xs.length) := by
  have hlen : j - xs.length - (i - xs.length) = j - i := by omega
  rw [slice, slice, hlen, List.drop_append, List.drop_of_length_le h, List.nil_append]

/-- A slice that ends within the first part of a sequence. -/
theorem slice_append_left {α : Type} {xs ys : List α} {i j : Nat} (h : j ≤ xs.length) :
    slice (xs ++ ys) i j = slice xs i j := by
  rw [slice, slice, List.drop_append, List.take_append]
  have hnone : j - i - (xs.drop i).length = 0 := by
    rw [List.length_drop]
    omega
  rw [hnone, List.take_zero, List.append_nil]

/-- A slice that holds the first part of a sequence. -/
theorem slice_append_zero {α : Type} {xs ys : List α} {j : Nat} (h : j = xs.length) :
    slice (xs ++ ys) 0 j = xs := by
  rw [slice, h, List.drop_zero, Nat.sub_zero, List.take_left]

theorem length_slice {α : Type} (b : List α) (i j : Nat) :
    (slice b i j).length = min (j - i) (b.length - i) := by
  rw [slice, List.length_take, List.length_drop]

end Py
end NetworkingFinal
