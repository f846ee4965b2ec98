/-
  NetworkingFinal.Py.Inet

  `str(n)` of an integer, and the addresses of the `socket` module: `inet_ntoa`
  writes four bytes as a dotted quad, `inet_aton` reads an address by the rules of
  the C library: one to four parts, each decimal, octal (`0..`) or hexadecimal
  (`0x..`), the last one filling the bytes that are left, and anything after a
  white-space character ignored.  `int` reads the decimal digits and the white
  space of Unicode 13; that later releases limit the number of digits is not
  modelled.
-/
import NetworkingFinal.Py.Basic
import Mathlib.Data.List.DropRight

namespace NetworkingFinal
namespace Py

-- ============================================================================
-- Numbers as text
-- ============================================================================

/-- `str(n)` of a natural number. -/
def decimal (n : Nat) : Str := Nat.toDigits 10 n

/-- `str(i)` of an integer. -/
def str : Int → Str
  | .ofNat n => decimal n
  | .negSucc n => '-' :: decimal (n + 1)

theorem isDigit_of_mem_decimal {n : Nat} {c : Char} (h : c ∈ decimal n) : c.isDigit = true :=
  Nat.isDigit_of_mem_toDigits (by decide) (by decide) h

theorem decimal_ne_nil (n : Nat) : decimal n ≠ [] := Nat.toDigits_ne_nil

/-- The white space of Unicode beyond ASCII. -/
def wideSpaces : List Nat :=
  [0x85, 0xa0, 0x1680, 0x2000, 0x2001, 0x2002, 0x2003, 0x2004, 0x2005, 0x2006, 0x2007, 0x2008,
    0x2009, 0x200a, 0x2028, 0x2029, 0x202f, 0x205f, 0x3000]

/-- The zeros of the decimal digits of Unicode beyond ASCII; in each row the other nine
    digits follow. -/
def wideZeros : List Nat :=
  [0x660, 0x6f0, 0x7c0, 0x966, 0x9e6, 0xa66, 0xae6, 0xb66, 0xbe6, 0xc66, 0xce6, 0xd66, 0xde6,
    0xe50, 0xed0, 0xf20, 0x1040, 0x1090, 0x17e0, 0x1810, 0x1946, 0x19d0, 0x1a80, 0x1a90, 0x1b50,
    0x1bb0, 0x1c40, 0x1c50, 0xa620, 0xa8d0, 0xa900, 0xa9d0, 0xa9f0, 0xaa50, 0xabf0, 0xff10,
    0x104a0, 0x10d30, 0x11066, 0x110f0, 0x11136, 0x111d0, 0x112f0, 0x11450, 0x114d0, 0x11650,
    0x116c0, 0x11730, 0x118e0, 0x11950, 0x11c50, 0x11d50, 0x11da0, 0x16a60, 0x16b50, 0x1d7ce,
    0x1d7d8, 0x1d7e2, 0x1d7ec, 0x1d7f6, 0x1e140, 0x1e2f0, 0x1e950, 0x1fbf0]

/-- What `int` reads for a character: a blank for white space beyond ASCII, the digit of
    ASCII for any decimal digit. -/
def asciiOf (c : Char) : Char :=
  if c.toNat < 127 then c
  else if c.toNat ∈ wideSpaces then ' '
  else match wideZeros.find? fun first => first ≤ c.toNat ∧ c.toNat < first + 10 with
    | some first => Char.ofNat (48 + (c.toNat - first))
    | none => '?'

/-- The white space `int` drops, of the ASCII characters. -/
def isWhitespace (c : Char) : Bool := c ∈ [' ', '\t', '\n', '\x0b', '\x0c', '\r']

/-- Whether a number starts with a minus sign, and the text after the sign. -/
def signOf : Str → Bool × Str
  | '-' :: cs => (true, cs)
  | '+' :: cs => (false, cs)
  | cs => (false, cs)

/-- `int(text)`: white space around it is dropped, a sign may stand in front, and single
    underscores between digits. -/
def int (text : Str) : Except Exn Int :=
  let (negative, body) :=
    signOf (((text.map asciiOf).dropWhile isWhitespace).rdropWhile isWhitespace)
  if (body.splitOn '_').all fun group => group ≠ [] && group.all Char.isDigit then
    let n : Int := Nat.ofDigitChars 10 (body.filter (· ≠ '_')) 0
    .ok (if negative then -n else n)
  else .error .valueError

theorem asciiOf_of_isDigit {c : Char} (h : c.isDigit = true) : asciiOf c = c := by
  have hlt : c.toNat < 127 := by
    simp only [Char.isDigit, Bool.and_eq_true, decide_eq_true_eq] at h
    exact Nat.lt_of_le_of_lt (UInt32.le_iff_toNat_le.mp h.2) (by decide)
  rw [asciiOf, if_pos hlt]

theorem signOf_of_isDigit {text : Str} (h : ∀ c ∈ text, c.isDigit = true) :
    signOf text = (false, text) := by
  unfold signOf
  split
  · exact absurd (h '-' List.mem_cons_self) (by decide)
  · exact absurd (h '+' List.mem_cons_self) (by decide)
  · rfl

/-- A text of digits only is its value. -/
theorem int_of_isDigit {text : Str} (hne : text ≠ []) (h : ∀ c ∈ text, c.isDigit = true) :
    int text = .ok (Nat.ofDigitChars 10 text 0) := by
  have hdigit : ∀ c ∈ text, isWhitespace c = false ∧ c ≠ '_' := by
    intro c hc
    have hd := h c hc
    refine ⟨?_, ?_⟩
    · rw [Bool.eq_false_iff]
      intro hs
      simp only [isWhitespace, decide_eq_true_eq, List.mem_cons, List.not_mem_nil, or_false] at hs
      rcases hs with rfl | rfl | rfl | rfl | rfl | rfl <;> cases hd
    · rintro rfl
      cases hd
  have hascii : text.map asciiOf = text := by
    rw [List.map_congr_left fun c hc => asciiOf_of_isDigit (h c hc), List.map_id']
  have hleft : text.dropWhile isWhitespace = text := by
    rw [List.dropWhile_eq_self_iff]
    exact fun hlen => by simp [(hdigit _ (List.getElem_mem hlen)).1]
  have hright : text.rdropWhile isWhitespace = text := by
    rw [List.rdropWhile_eq_self_iff]
    exact fun hl => by simp [(hdigit _ (List.getLast_mem hl)).1]
  have hsplit : text.splitOn '_' = [text] :=
    List.splitOn_eq_singleton fun hu => (hdigit _ hu).2 rfl
  have hfilter : text.filter (· ≠ '_') = text :=
    List.filter_eq_self.mpr fun c hc => by simpa using (hdigit c hc).2
  have hgroup : (decide (text ≠ []) && text.all Char.isDigit) = true := by
    simpa [hne] using h
  simp only [int, hascii, hleft, hright, signOf_of_isDigit h, hsplit, hfilter, List.all_cons,
    hgroup, List.all_nil, Bool.and_true, if_true, Bool.false_eq_true, if_false]

/-- `int` undoes `str` of a natural number. -/
theorem int_decimal (n : Nat) : int (decimal n) = .ok n := by
  rw [int_of_isDigit (decimal_ne_nil n) fun c hc => isDigit_of_mem_decimal hc, decimal,
    Nat.ofDigitChars_ten_toDigits]

-- ============================================================================
-- inet_ntoa
-- ============================================================================

/-- `socket.inet_ntoa(packed)` -/
def inetNtoa : Bytes → Except Exn Str
  | [a, b, c, d] =>
      .ok (decimal a.toNat ++ '.' :: (decimal b.toNat ++ '.' ::
        (decimal c.toNat ++ '.' :: decimal d.toNat)))
  | _ => .error .osError

/-- The addresses `inet_ntoa` writes. -/
def DottedQuad (s : Str) : Prop := ∃ packed, inetNtoa packed = .ok s

theorem inetNtoa_of_length {packed : Bytes} (h : packed.length = 4) :
    ∃ s, inetNtoa packed = .ok s := by
  match packed, h with
  | [a, b, c, d], _ => exact ⟨_, rfl⟩

theorem length_of_inetNtoa {packed : Bytes} {s : Str} (h : inetNtoa packed = .ok s) :
    packed.length = 4 := by
  match packed, h with
  | [a, b, c, d], _ => rfl

theorem fails_inetNtoa {P : Exn → Prop} (h : P .osError) (packed : Bytes) :
    Fails P (inetNtoa packed) := by
  unfold inetNtoa
  split
  · exact fails_ok _
  · exact fails_throw h

-- ============================================================================
-- inet_aton
-- ============================================================================

/-- The value of a digit, up to hexadecimal. -/
def digitOf (c : Char) : Option Nat :=
  if '0' ≤ c ∧ c ≤ '9' then some (c.toNat - '0'.toNat)
  else if 'a' ≤ c ∧ c ≤ 'f' then some (c.toNat - 'a'.toNat + 10)
  else if 'A' ≤ c ∧ c ≤ 'F' then some (c.toNat - 'A'.toNat + 10)
  else none

/-- A digit of the base. -/
def isDigitOf (base : Nat) (c : Char) : Bool :=
  match digitOf c with
  | some d => decide (d < base)
  | none => false

/-- The number at the start of the text, and the text after it. -/
def number (base : Nat) (cs : Str) : Nat × Str :=
  ((cs.takeWhile (isDigitOf base)).foldl (fun n c => base * n + (digitOf c).getD 0) 0,
    cs.dropWhile (isDigitOf base))

/-- `strtoul(cp, &endp, 0)` of a text that starts with a digit. -/
def strtoul : Str → Nat × Str
  | '0' :: x :: h :: cs =>
      if (x = 'x' ∨ x = 'X') ∧ isDigitOf 16 h then number 16 (h :: cs)
      else number 8 ('0' :: x :: h :: cs)
  | '0' :: cs => number 8 ('0' :: cs)
  | cs => number 10 cs

/-- `isspace(c)` -/
def isSpace (c : Char) : Bool := c ∈ [' ', '\t', '\n', '\x0b', '\x0c', '\r']

/-- The bytes of an address from one of its parts on, where `left` further parts may
    follow: a part before a dot is one byte, the last part fills the rest. -/
def inetParts (left : Nat) (cp : Str) : Option Bytes :=
  if cp.head?.elim false Char.isDigit = false then none
  else
    match strtoul cp, left with
    | (_, '.' :: _), 0 => none
    | (val, '.' :: rest), left + 1 =>
        if val > 0xff then none
        else (inetParts left rest).map (UInt8.ofNat val :: ·)
    | (val, rest), left =>
        if rest.head?.elim true isSpace ∧ val < 256 ^ (left + 1) then
          some ((List.range (left + 1)).map fun i => UInt8.ofNat (val / 256 ^ (left - i)))
        else none

/-- `socket.inet_aton(ip_string)` -/
def inetAton (s : Str) : Except Exn Bytes :=
  if '\x00' ∈ s then .error .valueError
  else
    match inetParts 3 s with
    | some packed => .ok packed
    | none => .error .osError

-- ============================================================================
-- Reading back what inet_ntoa wrote
-- ============================================================================

/-- The digits of a byte, whether the C library takes them as decimal or, when they
    start with a zero, as octal. -/
theorem strtoul_decimal_aux : ∀ n < 256,
    (decimal n).all (fun c => c.isDigit && isDigitOf 10 c && !isSpace c) = true ∧
    (decimal n).foldl (fun n c => 10 * n + (digitOf c).getD 0) 0 = n ∧
    (n ≠ 0 → (decimal n).head? ≠ some '0') := by decide +kernel

theorem number_append {base : Nat} {ds rest : Str} (hds : ∀ c ∈ ds, isDigitOf base c = true)
    (hrest : rest.head?.elim true (fun c => !isDigitOf base c) = true) :
    number base (ds ++ rest) =
      (ds.foldl (fun n c => base * n + (digitOf c).getD 0) 0, rest) := by
  have hstop : rest.takeWhile (isDigitOf base) = [] ∧ rest.dropWhile (isDigitOf base) = rest := by
    cases rest with
    | nil => exact ⟨rfl, rfl⟩
    | cons c cs =>
        have hc : isDigitOf base c = false := by simpa using hrest
        simp [hc]
  obtain ⟨htake, hdrop⟩ := hstop
  rw [number, List.takeWhile_append_of_pos hds, List.dropWhile_append_of_pos hds, htake, hdrop,
    List.append_nil]

/-- What follows a part of a dotted quad. -/
def PartEnd (rest : Str) : Prop := rest = [] ∨ ∃ tail, rest = '.' :: tail

theorem strtoul_decimal (b : UInt8) {rest : Str} (h : PartEnd rest) :
    strtoul (decimal b.toNat ++ rest) = (b.toNat, rest) := by
  obtain ⟨hdigits, hvalue, hzero⟩ := strtoul_decimal_aux b.toNat b.toNat_lt
  rw [List.all_eq_true] at hdigits
  have hends : ∀ base, rest.head?.elim true (fun c => !isDigitOf base c) = true := by
    intro base
    rcases h with rfl | ⟨tail, rfl⟩
    · rfl
    · rfl
  by_cases hb : b.toNat = 0
  · rw [hb]
    rcases h with rfl | ⟨tail, rfl⟩
    · rfl
    · cases tail with
      | nil => rfl
      | cons c cs => rfl
  · have hten : strtoul (decimal b.toNat ++ rest) = number 10 (decimal b.toNat ++ rest) := by
      cases hd : decimal b.toNat with
      | nil => exact absurd hd (decimal_ne_nil _)
      | cons c cs =>
          have hc : c ≠ '0' := by
            have := hzero hb
            rw [hd] at this
            simpa using this
          rw [List.cons_append, strtoul]
          · intro x y zs heq
            rw [List.cons.injEq] at heq
            exact hc heq.1
          · intro ys heq
            rw [List.cons.injEq] at heq
            exact hc heq.1
    rw [hten, number_append _ (hends 10), hvalue]
    intro c hc
    have := hdigits c hc
    simp only [Bool.and_eq_true] at this
    exact this.1.2

theorem head?_decimal_append (n : Nat) (rest : Str) :
    (decimal n ++ rest).head?.elim false Char.isDigit = true := by
  cases hd : decimal n with
  | nil => exact absurd hd (decimal_ne_nil n)
  | cons c cs =>
      have hc : c ∈ decimal n := by
        rw [hd]
        exact List.mem_cons_self
      show c.isDigit = true
      exact isDigit_of_mem_decimal hc

theorem inetParts_dot (left : Nat) (b : UInt8) (rest : Str) :
    inetParts (left + 1) (decimal b.toNat ++ '.' :: rest) =
      (inetParts left rest).map (b :: ·) := by
  have hb : ¬ b.toNat > 0xff := by
    have := b.toNat_lt
    omega
  rw [inetParts.eq_def (left + 1), head?_decimal_append, strtoul_decimal b (Or.inr ⟨rest, rfl⟩)]
  simp only [if_neg hb, Bool.true_eq_false, if_false, UInt8.ofNat_toNat]

theorem inetParts_last (b : UInt8) : inetParts 0 (decimal b.toNat) = some [b] := by
  have hb : b.toNat < 256 := b.toNat_lt
  have h := strtoul_decimal b (Or.inl rfl)
  have hhead := head?_decimal_append b.toNat []
  rw [List.append_nil] at h hhead
  unfold inetParts
  rw [hhead, h]
  simp [hb]

/-- `inet_aton` reads what `inet_ntoa` wrote. -/
theorem inetAton_inetNtoa {packed : Bytes} {s : Str} (h : inetNtoa packed = .ok s) :
    inetAton s = .ok packed := by
  match packed, h with
  | [a, b, c, d], h =>
      rw [inetNtoa, Except.ok.injEq] at h
      subst h
      have hnul : ∀ n : Nat, '\x00' ∉ decimal n := by
        intro n hn
        have := isDigit_of_mem_decimal hn
        contradiction
      have hdot : '\x00' ≠ '.' := by decide
      rw [inetAton, if_neg (by simp [hnul, hdot]), inetParts_dot, inetParts_dot, inetParts_dot,
        inetParts_last]
      rfl

theorem length_of_inetParts {left : Nat} {cp : Str} {packed : Bytes}
    (h : inetParts left cp = some packed) : packed.length = left + 1 := by
  induction left generalizing cp packed with
  | zero =>
      unfold inetParts at h
      split at h
      · cases h
      · split at h
        · cases h
        · next hzero => cases hzero
        · split at h
          · cases h
            rfl
          · cases h
  | succ left ih =>
      unfold inetParts at h
      split at h
      · cases h
      · split at h
        · next hzero => cases hzero
        · next hleft =>
            obtain rfl := Nat.succ.inj hleft
            split at h
            · cases h
            · obtain ⟨rest, hrest, rfl⟩ := Option.map_eq_some_iff.mp h
              rw [List.length_cons, ih hrest]
        · split at h
          · cases h
            rw [List.length_map, List.length_range]
          · cases h

/-- An address has four bytes. -/
theorem length_of_inetAton {s : Str} {packed : Bytes} (h : inetAton s = .ok packed) :
    packed.length = 4 := by
  unfold inetAton at h
  split at h
  · cases h
  · split at h
    · next hparts =>
        cases h
        exact length_of_inetParts hparts
    · cases h

example : inetAton "127.1".toList = .ok [127, 0, 0, 1] := by decide +kernel
example : inetAton "0x7f.010.65535 x".toList = .ok [127, 8, 255, 255] := by decide +kernel

end Py
end NetworkingFinal
