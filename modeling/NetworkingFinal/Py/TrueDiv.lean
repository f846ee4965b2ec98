/-
  NetworkingFinal.Py.TrueDiv

  `int(a / b)` on non-negative integers.  Python's `a / b` is the binary64
  number nearest to the quotient, ties to the even significand; `int` drops its
  fraction.  Nothing is lost while the quotient has at most 53 bits:

  - `div_le_trueDivInt`: with at most `2 ^ 53` in the quotient the result is not
    below the floor of the exact quotient;
  - `trueDivInt_eq_div`: with a dividend below `2 ^ 53` it is the floor;
  - `le_trueDivInt_succ_mul`: with at most `2 ^ 54` in the quotient the result is
    at most one below it.

  Neither overflow nor subnormal quotients occur for the 64-bit sizes the code
  divides, so the exponent range is left unbounded.
-/
import Mathlib.Data.Nat.Log
import Mathlib.Tactic.Ring
import Mathlib.Tactic.Linarith

namespace NetworkingFinal
namespace Py

/-- `n / d` rounded to an integer, ties to even. -/
def roundHalfEven (n d : Nat) : Nat :=
  let q := n / d
  let r := n % d
  if 2 * r < d ∨ (2 * r = d ∧ q % 2 = 0) then q else q + 1

/-- `int(a / b)`: the quotient is scaled to a 53-bit significand, rounded
    there, and cut to an integer. -/
def trueDivInt (a b : Nat) : Nat :=
  if a < b then roundHalfEven (a * 2 ^ 53) b / 2 ^ 53
  else
    let e := Nat.log2 (a / b)
    if e ≤ 52 then roundHalfEven (a * 2 ^ (52 - e)) b / 2 ^ (52 - e)
    else roundHalfEven a (b * 2 ^ (e - 52)) * 2 ^ (e - 52)

-- ============================================================================
-- Rounding
-- ============================================================================

theorem div_le_roundHalfEven (n d : Nat) : n / d ≤ roundHalfEven n d := by
  unfold roundHalfEven
  dsimp only
  split <;> omega

/-- Rounding loses at most half a unit. -/
theorem le_roundHalfEven {n d : Nat} (hd : 0 < d) : 2 * n ≤ 2 * (roundHalfEven n d * d) + d := by
  have hdm := Nat.div_add_mod n d
  have hmod := Nat.mod_lt n hd
  have hmul : n / d * d = d * (n / d) := Nat.mul_comm _ _
  unfold roundHalfEven
  dsimp only
  split
  · next h =>
    rw [hmul]
    omega
  · rw [Nat.add_mul, hmul]
    omega

/-- A quotient more than half a unit below `m` is rounded below `m`. -/
theorem roundHalfEven_lt {n d m : Nat} (hd : 0 < d) (h : 2 * n + d < 2 * (m * d)) :
    roundHalfEven n d < m := by
  have hdm := Nat.div_add_mod n d
  have hr := Nat.mod_lt n hd
  have hq : n / d < m := Nat.div_lt_of_lt_mul (by rw [Nat.mul_comm]; omega)
  unfold roundHalfEven
  dsimp only
  split
  · exact hq
  · next hr' =>
    have hhalf : d ≤ 2 * (n % d) := by omega
    have hne : n / d + 1 ≠ m := by
      intro hm
      rw [← hm] at h
      have hexp : (n / d + 1) * d = d * (n / d) + d := by ring
      omega
    omega

-- ============================================================================
-- The quotient
-- ============================================================================

/-- The scaled quotient never rounds below the exact floor. -/
theorem div_le_roundHalfEven_scaled (a b s : Nat) :
    a / b ≤ roundHalfEven (a * 2 ^ s) b / 2 ^ s := by
  have hpos : 0 < 2 ^ s := Nat.two_pow_pos s
  rw [Nat.le_div_iff_mul_le hpos]
  refine le_trans ?_ (div_le_roundHalfEven _ _)
  rcases Nat.eq_zero_or_pos b with rfl | hb
  · simp
  · rw [Nat.le_div_iff_mul_le hb]
    calc a / b * 2 ^ s * b = a / b * b * 2 ^ s := by ring
      _ ≤ a * 2 ^ s := Nat.mul_le_mul_right _ (Nat.div_mul_le_self a b)

/-- A quotient with more than 53 bits exceeds `2 ^ 53`. -/
theorem eq_of_log2_gt {a b : Nat} (hb : 0 < b) (hab : b ≤ a) (hle : a ≤ 2 ^ 53 * b)
    (he : 52 < Nat.log2 (a / b)) : a = 2 ^ 53 * b ∧ Nat.log2 (a / b) = 53 := by
  have hq : a / b ≠ 0 := by
    have := Nat.div_pos hab hb
    omega
  have h53 : 2 ^ 53 ≤ a / b :=
    le_trans (Nat.pow_le_pow_right (by decide) he) (Nat.log2_self_le hq)
  have ha : a = 2 ^ 53 * b := le_antisymm hle ((Nat.le_div_iff_mul_le hb).mp h53)
  refine ⟨ha, ?_⟩
  rw [ha, Nat.mul_div_cancel _ hb, Nat.log2_two_pow]

/-- With at most `2 ^ 53` in the quotient, the result is not below the floor. -/
theorem div_le_trueDivInt {a b : Nat} (hb : 0 < b) (hle : a ≤ 2 ^ 53 * b) :
    a / b ≤ trueDivInt a b := by
  unfold trueDivInt
  split
  · exact div_le_roundHalfEven_scaled a b 53
  · next hab =>
    dsimp only
    split
    · exact div_le_roundHalfEven_scaled a b _
    · next he =>
      obtain ⟨ha, hlog⟩ := eq_of_log2_gt hb (by omega) hle (by omega)
      rw [hlog, ha, Nat.mul_div_cancel _ hb]
      have hround : 2 ^ 52 ≤ roundHalfEven (2 ^ 53 * b) (b * 2 ^ (53 - 52)) := by
        refine le_trans ?_ (div_le_roundHalfEven _ _)
        rw [Nat.le_div_iff_mul_le (by positivity)]
        exact le_of_eq (by ring)
      calc 2 ^ 53 = 2 ^ 52 * 2 ^ (53 - 52) := by norm_num
        _ ≤ _ := Nat.mul_le_mul_right _ hround

/-- With at most `2 ^ 54` in the quotient, the result is not more than one below it. -/
theorem le_trueDivInt_succ_mul {a b : Nat} (hb : 0 < b) (hle : a ≤ 2 ^ 54 * b) :
    a ≤ (trueDivInt a b + 1) * b := by
  have hfloor : ∀ t, a / b ≤ t → a ≤ (t + 1) * b := by
    intro t ht
    have hlt : a < (a / b + 1) * b := Nat.lt_mul_of_div_lt (Nat.lt_succ_self _) hb
    have hmul : (a / b + 1) * b ≤ (t + 1) * b := Nat.mul_le_mul_right _ (by omega)
    omega
  rcases Nat.lt_or_ge (2 ^ 53 * b) a with hbig | hsmall
  · -- the quotient has 54 bits, so the result is rounded to an even number
    have hab : ¬ a < b := by omega
    have hq : 2 ^ 53 ≤ a / b := (Nat.le_div_iff_mul_le hb).mpr hbig.le
    have hq' : a / b ≤ 2 ^ 54 := Nat.div_le_of_le_mul (by rw [Nat.mul_comm]; exact hle)
    have hlog : 53 ≤ Nat.log2 (a / b) := (Nat.le_log2 (by omega)).mpr hq
    rcases Nat.lt_or_ge (a / b) (2 ^ 54) with hlt | hge
    · have hlog' : Nat.log2 (a / b) = 53 := by
        have := (Nat.log2_lt (by omega)).mpr hlt
        omega
      have hround := le_roundHalfEven (n := a) (d := b * 2 ^ 1) (by omega)
      simp only [trueDivInt, if_neg hab, hlog']
      rw [if_neg (by omega)]
      have hexpand : (roundHalfEven a (b * 2 ^ 1) * 2 ^ 1 + 1) * b =
          roundHalfEven a (b * 2 ^ 1) * (b * 2 ^ 1) + b := by ring
      rw [show 53 - 52 = 1 from rfl, hexpand]
      omega
    · have ha : a = 2 ^ 54 * b := le_antisymm hle ((Nat.le_div_iff_mul_le hb).mp hge)
      have hq54 : a / b = 2 ^ 54 := by rw [ha, Nat.mul_div_cancel _ hb]
      simp only [trueDivInt, if_neg hab, hq54, Nat.log2_two_pow]
      rw [if_neg (by omega), ha]
      have hround := div_le_roundHalfEven (2 ^ 54 * b) (b * 2 ^ (54 - 52))
      have hexact : 2 ^ 54 * b / (b * 2 ^ (54 - 52)) = 2 ^ 52 := by
        rw [show 2 ^ 54 * b = 2 ^ 52 * (b * 2 ^ (54 - 52)) by ring]
        exact Nat.mul_div_cancel _ (by positivity)
      have hmul : 2 ^ 54 ≤ roundHalfEven (2 ^ 54 * b) (b * 2 ^ (54 - 52)) * 2 ^ (54 - 52) := by
        omega
      calc 2 ^ 54 * b ≤ _ * b := Nat.mul_le_mul_right _ hmul
        _ ≤ _ := Nat.mul_le_mul_right _ (Nat.le_succ _)
  · exact hfloor _ (div_le_trueDivInt hb hsmall)
/-- A dividend below `2 ^ 53` divides exactly: `int(a / b) = a // b`. -/
theorem trueDivInt_eq_div {a b : Nat} (hb : 0 < b) (ha : a < 2 ^ 53) :
    trueDivInt a b = a / b := by
  have hle : a ≤ 2 ^ 53 * b := le_trans (le_of_lt ha) (Nat.le_mul_of_pos_right _ hb)
  refine le_antisymm ?_ (div_le_trueDivInt hb hle)
  -- the scale `2 ^ s` is large enough that a non-integer quotient stays more
  -- than half a unit of the significand below the next integer
  have key : ∀ s, b < 2 ^ (s + 1) → roundHalfEven (a * 2 ^ s) b / 2 ^ s ≤ a / b := by
    intro s hs
    have hlt : roundHalfEven (a * 2 ^ s) b < (a / b + 1) * 2 ^ s := by
      apply roundHalfEven_lt hb
      have hdm := Nat.div_add_mod a b
      have hr := Nat.mod_lt a hb
      have hgap : a + 1 ≤ (a / b + 1) * b := by
        have : (a / b + 1) * b = b * (a / b) + b := by ring
        omega
      have hscaled : (a + 1) * 2 ^ s ≤ (a / b + 1) * b * 2 ^ s :=
        Nat.mul_le_mul_right _ hgap
      calc 2 * (a * 2 ^ s) + b < 2 * (a * 2 ^ s) + 2 ^ (s + 1) := by omega
        _ = 2 * ((a + 1) * 2 ^ s) := by ring
        _ ≤ 2 * ((a / b + 1) * b * 2 ^ s) := by omega
        _ = 2 * ((a / b + 1) * 2 ^ s * b) := by ring
    rw [Nat.mul_comm (a / b + 1)] at hlt
    exact Nat.lt_succ_iff.mp (Nat.div_lt_of_lt_mul hlt)
  unfold trueDivInt
  split
  · next hab =>
    -- the exact quotient is 0 and rounds up to 1 only from `1 - 2 ^ -54` on
    rcases Nat.lt_or_ge b (2 ^ 54) with hb54 | hb54
    · exact key 53 hb54
    · have hlt : roundHalfEven (a * 2 ^ 53) b < 1 * 2 ^ 53 := by
        apply roundHalfEven_lt hb
        have : a * 2 ^ 53 < 2 ^ 53 * 2 ^ 53 := by
          exact Nat.mul_lt_mul_of_pos_right ha (by positivity)
        omega
      have : roundHalfEven (a * 2 ^ 53) b / 2 ^ 53 = 0 := Nat.div_eq_of_lt (by omega)
      rw [this]
      exact Nat.zero_le _
  · next hab =>
    have hq : a / b ≠ 0 := by
      have := Nat.div_pos (show b ≤ a by omega) hb
      omega
    have hpow : 2 ^ Nat.log2 (a / b) * b ≤ a :=
      (Nat.le_div_iff_mul_le hb).mp (Nat.log2_self_le hq)
    dsimp only
    split
    · next he =>
      apply key
      have h1 : 2 ^ Nat.log2 (a / b) * b < 2 ^ Nat.log2 (a / b) * 2 ^ (52 - Nat.log2 (a / b) + 1) := by
        calc 2 ^ Nat.log2 (a / b) * b ≤ a := hpow
          _ < 2 ^ 53 := ha
          _ = 2 ^ Nat.log2 (a / b) * 2 ^ (52 - Nat.log2 (a / b) + 1) := by
              rw [← Nat.pow_add]
              congr 1
              omega
      exact Nat.lt_of_mul_lt_mul_left h1
    · next he =>
      exfalso
      have : 2 ^ 53 ≤ 2 ^ Nat.log2 (a / b) * b :=
        le_trans (Nat.pow_le_pow_right (by decide) (by omega)) (Nat.le_mul_of_pos_right _ hb)
      omega

example : trueDivInt 3001 1500 = 2 := by decide

end Py
end NetworkingFinal
