import Mathlib.Data.List.Induction
import Mathlib.Tactic.Linarith
import Mathlib.Tactic.Ring
import TexFormula.Decimal

/-! Rounding and digits. The integer nearest to a quotient is off by half a unit at most, and no
other integer is off by less; so the decimals of a quotient stay the same if something near to it is
rounded in its place, as long as it is not half way between two of them. An eighteenth of a number
of 32 bits never is, and its binary number is near enough (`fixed_of_nearest`). -/
namespace TexFormula.Decimal

variable {num den m n places : Nat}

/-! ### Nearest integers -/

/-- The nearest integer is at most half a unit away. -/
theorem roundHalfEven_near (positive : 0 < den) :
    2 * num ≤ 2 * (roundHalfEven num den * den) + den ∧
      2 * (roundHalfEven num den * den) ≤ 2 * num + den := by
  have parts : num / den * den + num % den = num := Nat.div_add_mod' num den
  have small : num % den < den := Nat.mod_lt num positive
  have next : (num / den + 1) * den = num / den * den + den := Nat.succ_mul _ _
  unfold roundHalfEven
  simp only
  split
  · omega
  · split
    · omega
    · split <;> omega

/-- An integer that is less than half a unit away is the nearest one. -/
theorem roundHalfEven_eq (below : 2 * num < 2 * (m * den) + den)
    (above : 2 * (m * den) < 2 * num + den) : roundHalfEven num den = m := by
  have positive : 0 < den := by omega
  obtain ⟨low, high⟩ := @roundHalfEven_near num _ positive
  generalize roundHalfEven num den = r at low high ⊢
  rcases Nat.lt_trichotomy r m with less | same | more
  · have step := Nat.mul_le_mul_right den less
    rw [Nat.succ_mul] at step
    omega
  · exact same
  · have step := Nat.mul_le_mul_right den more
    rw [Nat.succ_mul] at step
    omega

/-- An integer is the nearest one to itself. -/
theorem roundHalfEven_one (n : Nat) : roundHalfEven n 1 = n :=
  roundHalfEven_eq (by omega) (by omega)

/-! ### Digits -/

theorem ofDigits_append (front back : List Char) :
    ofDigits (front ++ back) = ofDigits front * 10 ^ back.length + ofDigits back := by
  induction back using List.reverseRecOn with
  | nil => simp [ofDigits]
  | append_singleton back c ih =>
    have last : ∀ l : List Char, ofDigits (l ++ [c]) = 10 * ofDigits l + (c.toNat - '0'.toNat) :=
      fun l => by simp [ofDigits]
    rw [← List.append_assoc, last, last, ih, List.length_append, List.length_singleton]
    ring

theorem ofDigits_toDigits (n : Nat) : ofDigits (Nat.toDigits 10 n) = n :=
  Nat.ofDigitChars_toDigits (by decide) (by decide)

theorem ofDigits_replicate_zero (count : Nat) : ofDigits (List.replicate count '0') = 0 := by
  induction count with
  | zero => rfl
  | succ count ih =>
    rw [List.replicate_succ, ← List.singleton_append, ofDigits_append, ih]
    exact Nat.zero_mul _

theorem ofDigits_paddedDigits (length n : Nat) : ofDigits (paddedDigits length n) = n := by
  rw [paddedDigits, ofDigits_append, ofDigits_replicate_zero, ofDigits_toDigits, Nat.zero_mul,
    Nat.zero_add]

theorem length_paddedDigits (positive : 0 < places) (small : n < 10 ^ places) :
    (paddedDigits places n).length = places := by
  have fits := (Nat.length_toDigits_le_iff (by decide) positive).mpr small
  rw [paddedDigits, List.length_append, List.length_replicate, Nat.sub_add_cancel fits]

theorem isDigit_of_mem_toDigits {c : Char} (member : c ∈ Nat.toDigits 10 n) : c.isDigit = true :=
  Nat.isDigit_of_mem_toDigits (by decide) (by decide) member

theorem isDigit_of_mem_paddedDigits {c : Char} (member : c ∈ paddedDigits places n) :
    c.isDigit = true := by
  rcases List.mem_append.mp member with zero | digit
  · rw [List.eq_of_mem_replicate zero]
    rfl
  · exact isDigit_of_mem_toDigits digit

/-- The digits before and behind the point of a decimal spell the rounded quotient. -/
theorem ofDigits_fixed (positive : 0 < places) (scaled : Nat) :
    ofDigits (Nat.toDigits 10 (scaled / 10 ^ places) ++
      paddedDigits places (scaled % 10 ^ places)) = scaled := by
  have small : scaled % 10 ^ places < 10 ^ places := Nat.mod_lt _ (Nat.pow_pos (by decide))
  rw [ofDigits_append, ofDigits_toDigits, ofDigits_paddedDigits,
    length_paddedDigits positive small, Nat.div_add_mod']

/-! ### Binary numbers -/

namespace Binary64

/-- The exponent of a quotient is bounded by the sizes of its parts. -/
theorem exponent_le (num den : Nat) :
    exponent num den ≤ max ((num.log2 : Int) - den.log2 - 52) (-1074) := by
  unfold exponent
  simp only
  split <;> omega

/-- A quotient with a negative exponent is rounded to a multiple of a power of two. -/
theorem nearest_of_neg (some_num : num ≠ 0) (negative : exponent num den < 0) :
    nearest num den =
      some (roundHalfEven (num * 2 ^ (-exponent num den).toNat) den,
        2 ^ (-exponent num den).toNat) := by
  have scaled : ¬ 0 ≤ exponent num den := by omega
  simp only [nearest, scaleDown, some_num, scaled, if_false, Nat.shiftLeft_eq, Nat.one_mul]

/-- A number of 32 bits is a binary number. -/
theorem nearest_one (small : n < 2 ^ 32) : ∃ e, nearest n 1 = some (n * 2 ^ e, 2 ^ e) := by
  by_cases zero : n = 0
  · subst zero
    exact ⟨0, rfl⟩
  · have bits : n.log2 < 32 := (Nat.log2_lt zero).mpr small
    have negative : exponent n 1 < 0 := by
      have bound := exponent_le n 1
      rw [show Nat.log2 1 = 0 from rfl] at bound
      omega
    exact ⟨_, by rw [nearest_of_neg zero negative, roundHalfEven_one]⟩

/-- The binary number next to an eighteenth of a number of 32 bits has at least 20 binary places. -/
theorem nearest_eighteenth (some_n : n ≠ 0) (small : n < 2 ^ 32) (e : Nat) :
    ∃ places, 20 ≤ places ∧ nearest (n * 2 ^ e) (18 * 2 ^ e) =
      some (roundHalfEven (n * 2 ^ e * 2 ^ places) (18 * 2 ^ e), 2 ^ places) := by
  have positive : 0 < 2 ^ e := Nat.two_pow_pos e
  have product : n * 2 ^ e ≠ 0 := Nat.mul_ne_zero some_n (by omega)
  have upper : (n * 2 ^ e).log2 < 32 + e := by
    rw [Nat.log2_lt product, Nat.pow_add]
    exact Nat.mul_lt_mul_of_pos_right small positive
  have lower : e ≤ (18 * 2 ^ e).log2 := by
    rw [Nat.le_log2 (by omega)]
    omega
  have bound := exponent_le (n * 2 ^ e) (18 * 2 ^ e)
  exact ⟨_, by omega, nearest_of_neg product (by omega)⟩

end Binary64

/-- An eighteenth in units of an even part rounds like a quotient next to it. It is never half way
between two units: twice the distance to the nearest one is an even number of eighteenths. -/
theorem roundHalfEven_of_near {significand scale unit : Nat} (even : 2 ∣ unit)
    (accurate : 9 * unit < scale) (low : n * scale ≤ 18 * significand + 9)
    (high : 18 * significand ≤ n * scale + 9) :
    roundHalfEven (significand * unit) scale = roundHalfEven (n * unit) 18 := by
  obtain ⟨half, rfl⟩ := even
  obtain ⟨below, above⟩ := @roundHalfEven_near (n * (2 * half)) 18 (by decide)
  generalize roundHalfEven (n * (2 * half)) 18 = m at below above ⊢
  have parity : n * (2 * half) = 2 * (n * half) := by ring
  have lower : n * (2 * half) ≤ 18 * m + 8 := by omega
  have upper : 18 * m ≤ n * (2 * half) + 8 := by omega
  have lowerScaled := Nat.mul_le_mul_right scale lower
  have upperScaled := Nat.mul_le_mul_right scale upper
  have lowScaled := Nat.mul_le_mul_right (2 * half) low
  have highScaled := Nat.mul_le_mul_right (2 * half) high
  apply roundHalfEven_eq <;> linarith

/-- Five decimals of an eighteenth of a number of 32 bits come out the same where the number and
its eighteenth are first rounded to binary numbers. -/
theorem fixed_of_nearest (small : n < 2 ^ 32) :
    ∃ num den num' den', Binary64.nearest n 1 = some (num, den) ∧
      Binary64.nearest num (18 * den) = some (num', den') ∧ fixed 5 num' den' = fixed 5 n 18 := by
  obtain ⟨e, read⟩ := Binary64.nearest_one small
  by_cases zero : n = 0
  · subst zero
    exact ⟨_, _, 0, 1, read, by rw [Nat.zero_mul]; rfl, by decide⟩
  · obtain ⟨places, enough, near⟩ := Binary64.nearest_eighteenth zero small e
    refine ⟨_, _, _, _, read, near, ?_⟩
    obtain ⟨below, above⟩ := @roundHalfEven_near (n * 2 ^ e * 2 ^ places) _
      (Nat.mul_pos (by decide : 0 < 18) (Nat.two_pow_pos e))
    generalize roundHalfEven (n * 2 ^ e * 2 ^ places) (18 * 2 ^ e) = significand at below above ⊢
    have low : n * 2 ^ places ≤ 18 * significand + 9 := by
      refine Nat.le_of_mul_le_mul_right ?_ (Nat.two_pow_pos e)
      linarith
    have high : 18 * significand ≤ n * 2 ^ places + 9 := by
      refine Nat.le_of_mul_le_mul_right ?_ (Nat.two_pow_pos e)
      linarith
    have accurate : 9 * Nat.pow 10 5 < 2 ^ places :=
      calc 9 * Nat.pow 10 5 < 2 ^ 20 := by decide
        _ ≤ 2 ^ places := Nat.pow_le_pow_right (by decide) enough
    unfold fixed
    simp only
    rw [roundHalfEven_of_near (by decide) accurate low high]

end TexFormula.Decimal
