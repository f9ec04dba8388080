import Mathlib.Algebra.Order.Round
import Mathlib.Data.Rat.Floor
import TexFormula.Proofs.Decimal.Rounding
import TexFormula.Proofs.Length.Numeral

/-! Eighteenths of an em. A width is written with five decimals, of which the zeros at the end are
left out, and its point too if no decimal is left. That is always a length in em, its number is
closer to the width than to any other, and a number of math units comes out as the same text. -/
namespace TexFormula.Length
open Decimal

variable {sign whole decimals : List Char}

/-- The number of em that a length in em stands for. -/
def ems? (text : String) : Option ℚ :=
  match split? text with
  | some (n, ['e', 'm']) =>
    n.value?.map fun v => (if n.sign = ['-'] then -1 else 1) * (v.1 / v.2 : ℚ)
  | _ => none

/-! ### Trimmed decimals -/

/-- The numeral with the given digits before and behind the point, without the zeros at its end. -/
def Numeral.trimmed (sign whole decimals : List Char) : Numeral :=
  let kept := Text.dropTrailing (· == '0') decimals
  { sign, whole, fraction := if kept = [] then none else some kept }

/-- What is taken off the end of a text is a run of one character. -/
theorem exists_dropTrailing_append (c : Char) (cs : List Char) :
    ∃ count, Text.dropTrailing (· == c) cs ++ List.replicate count c = cs := by
  refine ⟨(cs.reverse.takeWhile (· == c)).length, ?_⟩
  have run : cs.reverse.takeWhile (· == c) =
      List.replicate (cs.reverse.takeWhile (· == c)).length c :=
    List.eq_replicate_iff.mpr ⟨rfl, fun d member => by
      simpa using Token.kept_takeWhile (· == c) cs.reverse d member⟩
  rw [← List.reverse_replicate, ← run, Text.dropTrailing, ← List.reverse_append,
    List.takeWhile_append_dropWhile, List.reverse_reverse]

theorem mem_of_mem_dropTrailing {p : Char → Bool} {c : Char}
    (member : c ∈ Text.dropTrailing p decimals) : c ∈ decimals :=
  List.mem_reverse.mp ((List.dropWhile_suffix p).mem (List.mem_reverse.mp member))

theorem ne_point_of_isDigit {c : Char} (digit : c.isDigit = true) : (c == '.') = false := by
  rw [beq_eq_false_iff_ne]
  rintro rfl
  cases digit

/-- Trimming a decimal leaves the spelling of a numeral. -/
theorem trimZeros_append (before : ∀ c ∈ whole, c.isDigit = true)
    (behind : ∀ c ∈ decimals, c.isDigit = true) :
    trimZeros (whole ++ '.' :: decimals) = (Numeral.trimmed [] whole decimals).spelling := by
  have kept : ∀ c ∈ Text.dropTrailing (· == '0') decimals, (c == '.') = false := fun c member =>
    ne_point_of_isDigit (behind c (mem_of_mem_dropTrailing member))
  rw [trimZeros, Text.dropTrailing_append_cons (by decide), Numeral.trimmed, Numeral.spelling]
  generalize Text.dropTrailing (· == '0') decimals = trimmed at kept ⊢
  by_cases none : trimmed = []
  · subst none
    have point : Text.dropTrailing (· == '.') (whole ++ ['.']) =
        Text.dropTrailing (· == '.') whole := by simp [Text.dropTrailing]
    rw [point, Text.dropTrailing_of_last fun c last =>
      ne_point_of_isDigit (before c (List.mem_of_getLast? last))]
    simp
  · rw [Text.dropTrailing_of_last]
    · simp [none]
    · intro c last
      rw [List.getLast?_append, List.getLast?_cons, List.getLast?_eq_some_getLast none] at last
      cases last
      exact kept _ (List.getLast_mem none)

theorem spelling_trimmed (sign whole decimals : List Char) :
    (Numeral.trimmed sign whole decimals).spelling =
      sign ++ (Numeral.trimmed [] whole decimals).spelling := by
  simp [Numeral.trimmed, Numeral.spelling]

theorem proper_trimmed (signed : sign ∈ signs) (some_digit : whole ≠ [])
    (before : ∀ c ∈ whole, c.isDigit = true) (behind : ∀ c ∈ decimals, c.isDigit = true) :
    (Numeral.trimmed sign whole decimals).Proper where
  sign := signed
  whole c member := Text.isDecimalDigit_of_isDigit (before c member)
  fraction digits found := by
    unfold Numeral.trimmed at found
    simp only at found
    split at found
    · cases found
    case isFalse some_kept =>
      cases found
      exact ⟨some_kept, fun c member =>
        Text.isDecimalDigit_of_isDigit (behind c (mem_of_mem_dropTrailing member))⟩
  some_digit _ := some_digit

/-- Trimming a decimal does not change its value. -/
theorem value?_trimmed (before : ∀ c ∈ whole, c.isDigit = true)
    (behind : ∀ c ∈ decimals, c.isDigit = true) :
    ∃ v, (Numeral.trimmed sign whole decimals).value? = some v ∧
      (v.1 / v.2 : ℚ) = ofDigits (whole ++ decimals) / 10 ^ decimals.length := by
  obtain ⟨zeros, whole_text⟩ := exists_dropTrailing_append '0' decimals
  have digits : ∀ c ∈ Text.dropTrailing (· == '0') decimals, c.isDigit = true :=
    fun c member => behind c (mem_of_mem_dropTrailing member)
  have fraction : (Numeral.trimmed sign whole decimals).fraction.getD [] =
      Text.dropTrailing (· == '0') decimals := by
    unfold Numeral.trimmed
    simp only
    split
    case isTrue none => rw [none]; rfl
    case isFalse => rfl
  have all : (whole ++ Text.dropTrailing (· == '0') decimals).all Char.isDigit = true := by
    rw [List.all_append, List.all_eq_true.mpr before, List.all_eq_true.mpr digits]
    rfl
  have read : (Numeral.trimmed sign whole decimals).value? =
      some (ofDigits (whole ++ Text.dropTrailing (· == '0') decimals),
        Nat.pow 10 (Text.dropTrailing (· == '0') decimals).length) := by
    rw [Numeral.value?, fraction]
    exact if_pos all
  refine ⟨_, read, ?_⟩
  generalize Text.dropTrailing (· == '0') decimals = kept at whole_text
  subst whole_text
  rw [← List.append_assoc, ofDigits_append _ (List.replicate zeros '0'), ofDigits_replicate_zero,
    List.length_append, List.length_replicate, Nat.add_zero, pow_add]
  have some_unit : (10 : ℚ) ^ zeros ≠ 0 := pow_ne_zero zeros (by norm_num)
  push_cast
  rw [mul_div_mul_right _ _ some_unit, Nat.pow_eq]
  push_cast
  rfl

/-! ### Widths -/

/-- The sign in front of a width. -/
def minus (n : Int) : List Char :=
  if n < 0 then ['-'] else []

/-- The digits of a width of `n` eighteenths of an em, as a whole number of the last decimal. -/
def hundredThousandths (n : Int) : Nat :=
  roundHalfEven (n.natAbs * 10 ^ 5) 18

/-- The numeral of a width of `n` eighteenths of an em. -/
def eighteenths (n : Int) : Numeral :=
  .trimmed (minus n) (Nat.toDigits 10 (hundredThousandths n / 10 ^ 5))
    (paddedDigits 5 (hundredThousandths n % 10 ^ 5))

theorem minus_mem_signs (n : Int) : minus n ∈ signs := by
  unfold minus
  split <;> decide

theorem proper_eighteenths (n : Int) : (eighteenths n).Proper :=
  proper_trimmed (minus_mem_signs n) Nat.toDigits_ne_nil (fun _ => isDigit_of_mem_toDigits)
    (fun _ => isDigit_of_mem_paddedDigits)

theorem trimZeros_fixed (n : Int) :
    minus n ++ trimZeros (fixed 5 n.natAbs 18) = (eighteenths n).spelling := by
  rw [eighteenths, spelling_trimmed, ← trimZeros_append (fun _ => isDigit_of_mem_toDigits)
    (fun _ => isDigit_of_mem_paddedDigits)]
  rfl

theorem ofEighteenths_eq (n : Int) :
    ofEighteenths n = String.ofList ((eighteenths n).spelling ++ ['e', 'm']) := by
  rw [← trimZeros_fixed]
  rfl

theorem hundredThousandths_near (n : Int) :
    (n.natAbs : ℚ) ≤ 18 * (hundredThousandths n / 10 ^ 5) + 9 / 10 ^ 5 ∧
      18 * (hundredThousandths n / 10 ^ 5) ≤ (n.natAbs + 9 / 10 ^ 5 : ℚ) := by
  have near := @roundHalfEven_near (n.natAbs * 10 ^ 5) 18 (by decide)
  rw [← hundredThousandths, ← Nat.cast_le (α := ℚ), ← Nat.cast_le (α := ℚ)] at near
  push_cast at near
  constructor <;> linarith

/-- The sign in front of a width is the sign of its number. -/
theorem sign_mul_natAbs (n : Int) : (if minus n = ['-'] then -1 else 1) * (n.natAbs : ℚ) = n := by
  unfold minus
  by_cases negative : n < 0
  · have size : (n.natAbs : ℤ) = -n := by omega
    rw [if_pos negative, if_pos rfl, ← Int.cast_natCast, size]
    push_cast
    ring
  · have size : (n.natAbs : ℤ) = n := by omega
    rw [if_neg negative, if_neg (by decide), ← Int.cast_natCast, size, one_mul]

/-- A width is a length in em, and its number of em is as near as five decimals can be. -/
theorem ems?_ofEighteenths (n : Int) :
    ∃ v, ems? (ofEighteenths n) = some v ∧ |18 * v - n| ≤ 9 / 10 ^ 5 := by
  obtain ⟨v, read, value⟩ := @value?_trimmed (minus n)
    (Nat.toDigits 10 (hundredThousandths n / 10 ^ 5))
    (paddedDigits 5 (hundredThousandths n % 10 ^ 5))
    (fun _ => isDigit_of_mem_toDigits) fun _ => isDigit_of_mem_paddedDigits
  have small : hundredThousandths n % 10 ^ 5 < 10 ^ 5 := Nat.mod_lt _ (by decide)
  rw [ofDigits_fixed (by decide), length_paddedDigits (by decide) small] at value
  have number : (eighteenths n).value? = some v := read
  obtain ⟨low, high⟩ := hundredThousandths_near n
  have number : (eighteenths n).value? = some v := read
  refine ⟨(if minus n = ['-'] then -1 else 1) * (v.1 / v.2), ?_, ?_⟩
  · rw [ems?, ofEighteenths_eq, split?_spelling (proper_eighteenths n) (by decide)]
    simp only [number, Option.map_some]
    rfl
  · rw [value, abs_le, ← sign_mul_natAbs n]
    constructor <;> split <;> linarith

/-- The number of eighteenths is the integer nearest to 18 times what a width prints. -/
theorem round_ems?_ofEighteenths (n : Int) :
    ∃ v, ems? (ofEighteenths n) = some v ∧ round (18 * v) = n := by
  obtain ⟨v, read, near⟩ := ems?_ofEighteenths n
  obtain ⟨low, high⟩ := abs_le.mp near
  refine ⟨v, read, round_eq_iff.mpr ⟨?_, ?_⟩⟩ <;> norm_num at low high ⊢ <;> linarith

theorem ofEighteenths_injective : Function.Injective ofEighteenths := by
  intro m n same
  obtain ⟨v, read, nearest⟩ := round_ems?_ofEighteenths m
  obtain ⟨w, read', nearest'⟩ := round_ems?_ofEighteenths n
  rw [same, read'] at read
  cases read
  exact nearest.symm.trans nearest'

/-- A width is a length, and in its output form already. -/
theorem parse?_ofEighteenths_self (n : Int) :
    parse? (ofEighteenths n) = some (ofEighteenths n) := by
  have read := split?_spelling (proper_eighteenths n) (by decide : ['e', 'm'] ∈ units)
  rw [ofEighteenths_eq, parse?, read]
  rfl

/-! ### Math units -/

theorem toList_toString (n : Int) : (toString n).toList = minus n ++ Nat.toDigits 10 n.natAbs := by
  unfold minus
  rw [Int.toString_eq_repr, Int.repr_eq_if]
  by_cases negative : n < 0
  · rw [if_neg (by omega), if_pos negative, String.toList_append, Nat.toList_repr,
      show (-n).toNat = n.natAbs by omega]
    rfl
  · rw [if_pos (by omega), if_neg negative, Nat.toList_repr, show n.toNat = n.natAbs by omega,
      List.nil_append]

/-- An eighteenth of a number of 32 bits is the same whether or not binary numbers come between. -/
theorem eighteenthOf_one {n : Nat} (small : n < 2 ^ 32) :
    eighteenthOf n 1 = trimZeros (fixed 5 n 18) := by
  obtain ⟨num, den, num', den', read, eighteenth, same⟩ := fixed_of_nearest small
  simp only [eighteenthOf, read, eighteenth, same]

/-- A whole number of math units becomes a width of as many eighteenths of an em. -/
theorem parse?_toString_mu {n : Int} (small : n.natAbs < 2 ^ 32) :
    parse? (toString n ++ "mu") = some (ofEighteenths n) := by
  have proper : Numeral.Proper ⟨minus n, Nat.toDigits 10 n.natAbs, none⟩ :=
    ⟨minus_mem_signs n, fun _ member =>
      Text.isDecimalDigit_of_isDigit (isDigit_of_mem_toDigits member), nofun,
      fun _ => Nat.toDigits_ne_nil⟩
  have text : toString n ++ "mu" =
      String.ofList (Numeral.spelling ⟨minus n, Nat.toDigits 10 n.natAbs, none⟩ ++ ['m', 'u']) := by
    rw [← String.toList_inj, String.toList_append, toList_toString, String.toList_ofList]
    simp [Numeral.spelling]
  have value : Numeral.value? ⟨minus n, Nat.toDigits 10 n.natAbs, none⟩ = some (n.natAbs, 1) := by
    have digits : (Nat.toDigits 10 n.natAbs ++ []).all Char.isDigit = true := by
      rw [List.append_nil]
      exact List.all_eq_true.mpr fun _ => isDigit_of_mem_toDigits
    rw [Numeral.value?]
    simp only [Option.getD_none, digits, if_true]
    rw [List.append_nil, ofDigits_toDigits]
    rfl
  have signed : (if minus n = ['-'] then ['-'] else []) = minus n := by
    unfold minus
    split <;> rfl
  rw [text, parse?, split?_spelling proper (by decide)]
  simp only [value, if_true, Option.map_some, signed, eighteenthOf_one small]
  rfl

/-- Widths are canonical lengths. A number of 32 bits, written with the math unit behind it, is read
as its width; the width is read as itself; the number is the integer nearest to 18 times what the
width prints; and no two numbers have the same width. -/
theorem ofEighteenths_canonical :
    (∀ n : Int32, parse? (toString n ++ "mu") = some (ofEighteenths n.toInt) ∧
      parse? (ofEighteenths n.toInt) = some (ofEighteenths n.toInt) ∧
      ∃ v, ems? (ofEighteenths n.toInt) = some v ∧ round (18 * v) = n.toInt) ∧
    Function.Injective fun n : Int32 => ofEighteenths n.toInt := by
  refine ⟨fun n => ⟨?_, parse?_ofEighteenths_self n.toInt, round_ems?_ofEighteenths n.toInt⟩,
    fun m n same => Int32.toInt_inj.mp (ofEighteenths_injective same)⟩
  have upper := n.toInt_lt
  have lower := n.le_toInt
  exact parse?_toString_mu (n := n.toInt) (by omega)

end TexFormula.Length
