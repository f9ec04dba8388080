import TexFormula.Length
import TexFormula.Proofs.Token.Respelling

/-! Lengths as they are written. A text without blanks is a length if and only if it is a numeral
and a unit, and it says which numeral and which unit: a sign and a point are no digits, and no unit
begins with a digit or a point. -/

/-! ### Ends of a text -/

namespace TexFormula.Text

variable {p : Char → Bool} {front back cs : List Char} {c : Char}

theorem dropTrailing_of_last (stops : ∀ c ∈ cs.getLast?, p c = false) :
    dropTrailing p cs = cs := by
  unfold dropTrailing
  cases turned : cs.reverse with
  | nil => rw [List.dropWhile_nil, List.reverse_nil, ← List.reverse_eq_nil_iff.mp turned]
  | cons c rest =>
    have stop := stops c (by rw [← List.head?_reverse, turned]; rfl)
    rw [List.dropWhile_cons_of_neg (by simp [stop]), ← turned, List.reverse_reverse]

/-- Nothing is taken off in front of a character that stays. -/
theorem dropTrailing_append_cons (stops : p c = false) :
    dropTrailing p (front ++ c :: back) = front ++ c :: dropTrailing p back := by
  have turned : (front ++ c :: back).reverse = back.reverse ++ (c :: front.reverse) := by simp
  unfold dropTrailing
  rw [turned, List.dropWhile_append]
  split
  case isTrue all =>
    rw [List.isEmpty_iff] at all
    rw [all, List.dropWhile_cons_of_neg (by simp [stops])]
    simp
  case isFalse => simp

theorem trim_of_solid {text : String} (solid : ∀ c ∈ text.toList, isBlank c = false) :
    trim text = text := by
  have front : text.toList.dropWhile isBlank = text.toList := by
    cases spelled : text.toList with
    | nil => rfl
    | cons c rest =>
      have stop := solid c (spelled ▸ List.mem_cons_self)
      exact List.dropWhile_cons_of_neg (by simp [stop])
  rw [trim, front, dropTrailing_of_last fun c last => solid c (List.mem_of_getLast? last),
    String.ofList_toList]

/-! ### Digits -/

theorem not_isBlank_of_isDecimalDigit (digit : isDecimalDigit c = true) : isBlank c = false := by
  have apart : decimalDigitRanges.isDisjoint blankRanges = true := by decide +kernel
  exact CharSet.not_contains_of_isDisjoint apart digit

/-- A code point in a range of a set is in the set, since the ranges are in order. -/
theorem CharSet.containsCode_of_range {n : Nat} {s : CharSet} {a : Nat × Nat}
    (ordered : s.Pairwise fun a b => a.2 < b.1) (member : a ∈ s) (low : a.1 ≤ n) (high : n ≤ a.2) :
    s.containsCode n = true := by
  induction s with
  | nil => cases member
  | cons b rest ih =>
    obtain ⟨first, later⟩ := List.pairwise_cons.mp ordered
    unfold containsCode
    rcases List.mem_cons.mp member with rfl | member
    · rw [if_pos high]
      exact decide_eq_true low
    · have behind := first a member
      rw [if_neg (by omega)]
      exact ih later member

theorem isNumeric_of_isDecimalDigit (digit : isDecimalDigit c = true) : isNumeric c = true := by
  have ordered : numericRanges.Pairwise fun a b => a.2 < b.1 := by decide +kernel
  have inside : ∀ a ∈ decimalDigitRanges, ∃ b ∈ numericRanges, b.1 ≤ a.1 ∧ a.2 ≤ b.2 := by
    decide +kernel
  obtain ⟨a, member, low, high⟩ := CharSet.range_of_containsCode digit
  obtain ⟨b, member', low', high'⟩ := inside a member
  exact CharSet.containsCode_of_range ordered member' (by omega) (by omega)

theorem isDecimalDigit_of_isDigit (digit : c.isDigit = true) : isDecimalDigit c = true := by
  have bounds : 48 ≤ c.val ∧ c.val ≤ 57 := by simpa [Char.isDigit] using digit
  have first : 48 ≤ c.toNat := UInt32.le_iff_toNat_le.mp bounds.1
  have last : c.toNat ≤ 57 := UInt32.le_iff_toNat_le.mp bounds.2
  unfold isDecimalDigit CharSet.contains decimalDigitRanges CharSet.containsCode
  rw [if_pos last]
  exact decide_eq_true first

end TexFormula.Text

namespace TexFormula.Length
open Text (isDecimalDigit isBlank)

variable {cs rest sign unit : List Char} {n : Numeral} {text : String} {c : Char}

/-! ### Numerals -/

/-- A sign, or none. -/
def signs : List (List Char) :=
  [[], ['+'], ['-']]

/-- A numeral that can be written: a sign, and decimal digits that are only missing before a
point. -/
structure Numeral.Proper (n : Numeral) : Prop where
  sign : n.sign ∈ signs
  whole : ∀ c ∈ n.whole, isDecimalDigit c = true
  fraction : ∀ digits ∈ n.fraction, digits ≠ [] ∧ ∀ c ∈ digits, isDecimalDigit c = true
  some_digit : n.fraction = none → n.whole ≠ []

/-- The characters of a numeral that are no digits. -/
def marks : List Char :=
  ['+', '-', '.']

/-- A sign or point is no digit and no blank. -/
theorem not_of_mem_marks (member : c ∈ marks) : isDecimalDigit c = false ∧ isBlank c = false := by
  have all : marks.all (fun c => !isDecimalDigit c && !isBlank c) = true := rfl
  simpa using List.all_eq_true.mp all c member

/-- The letters of units. -/
def isUnitLetter (c : Char) : Bool :=
  units.flatten.contains c

/-- The letters of units stand neither in a numeral nor for a blank. -/
theorem apart_of_isUnitLetter (letter : isUnitLetter c = true) :
    Text.isAlphabetic c = true ∧ isDecimalDigit c = false ∧ isBlank c = false ∧ c ∉ marks := by
  have all : units.flatten.all (fun c => Text.isAlphabetic c && !isDecimalDigit c && !isBlank c &&
      !marks.contains c) = true := rfl
  simpa [and_assoc] using List.all_eq_true.mp all c (List.contains_iff_mem.mp letter)

/-- A unit has two letters. -/
theorem letters_unit (member : unit ∈ units) :
    unit.length = 2 ∧ ∀ c ∈ unit, isUnitLetter c = true := by
  have two : ∀ unit ∈ units, unit.length = 2 := by decide
  exact ⟨two unit member, fun c inside =>
    List.contains_iff_mem.mpr (List.mem_flatten_of_mem member inside)⟩

/-- No unit begins with a character of a numeral. -/
theorem unit_stops (member : unit ∈ units) :
    ∀ c ∈ unit.head?, isDecimalDigit c = false ∧ c ≠ '.' := by
  intro c first
  obtain ⟨-, digit, -, other⟩ :=
    apart_of_isUnitLetter ((letters_unit member).2 c (List.mem_of_mem_head? first))
  refine ⟨digit, ?_⟩
  rintro rfl
  exact other (by decide)

theorem takeSign_append (member : sign ∈ signs) (stops : ∀ c ∈ rest.head?, c ≠ '+' ∧ c ≠ '-') :
    takeSign (sign ++ rest) = (sign, rest) := by
  simp only [signs, List.mem_cons, List.not_mem_nil, or_false] at member
  obtain rfl | rfl | rfl := member
  · rw [List.nil_append]
    unfold takeSign
    split
    case h_1 => exact absurd rfl (stops '+' rfl).1
    case h_2 => exact absurd rfl (stops '-' rfl).2
    case h_3 => rfl
  · rfl
  · rfl

theorem append_takeSign (cs : List Char) :
    (takeSign cs).1 ∈ signs ∧ (takeSign cs).1 ++ (takeSign cs).2 = cs := by
  unfold takeSign
  split <;> exact ⟨by simp [signs], rfl⟩

theorem ne_sign_of_isDecimalDigit (digit : isDecimalDigit c = true ∨ c = '.') :
    c ≠ '+' ∧ c ≠ '-' := by
  constructor <;>
  · rintro rfl
    rcases digit with digit | point
    · cases digit.symm.trans (not_of_mem_marks (by decide)).1
    · cases point

/-- A numeral is read off its spelling, if what follows does not go on with it. -/
theorem takeNumeral_spelling (proper : n.Proper)
    (stops : ∀ c ∈ rest.head?, isDecimalDigit c = false ∧ c ≠ '.') :
    takeNumeral (n.spelling ++ rest) = some (n, rest) := by
  obtain ⟨sign, whole, fraction⟩ := n
  obtain ⟨signed, digits, decimals, some_digit⟩ := proper
  cases fraction with
  | none =>
    have first : ∀ c ∈ (whole ++ rest).head?, c ≠ '+' ∧ c ≠ '-' := by
      obtain ⟨d, ds, rfl⟩ := List.exists_cons_of_ne_nil (some_digit rfl)
      rintro c ⟨⟩
      exact ne_sign_of_isDecimalDigit (.inl (digits d List.mem_cons_self))
    obtain ⟨taken, dropped⟩ := Token.takeWhile_of_stops digits fun c head => (stops c head).1
    simp only [Numeral.spelling, List.append_nil, takeNumeral, List.append_assoc,
      takeSign_append signed first, taken, dropped]
    split
    case h_1 => exact absurd rfl (stops '.' rfl).2
    case h_2 => rw [if_neg (some_digit rfl)]
  | some decimal =>
    obtain ⟨some_decimal, decimals⟩ := decimals decimal rfl
    have point : ∀ c ∈ ('.' :: (decimal ++ rest)).head?, isDecimalDigit c = false := by
      rintro c ⟨⟩
      exact (not_of_mem_marks (by decide)).1
    have first : ∀ c ∈ (whole ++ '.' :: (decimal ++ rest)).head?, c ≠ '+' ∧ c ≠ '-' := by
      cases whole with
      | nil => rintro c ⟨⟩; exact ne_sign_of_isDecimalDigit (.inr rfl)
      | cons d ds =>
        rintro c ⟨⟩
        exact ne_sign_of_isDecimalDigit (.inl (digits d List.mem_cons_self))
    obtain ⟨taken, dropped⟩ := Token.takeWhile_of_stops digits point
    obtain ⟨taken', dropped'⟩ := Token.takeWhile_of_stops decimals fun c head => (stops c head).1
    simp only [Numeral.spelling, takeNumeral, List.append_assoc, List.cons_append,
      takeSign_append signed first, taken, dropped, taken', dropped', some_decimal, if_false]

/-- What is read off a text is a numeral, and the text begins with it. -/
theorem spelling_of_takeNumeral (read : takeNumeral cs = some (n, rest)) :
    n.Proper ∧ cs = n.spelling ++ rest := by
  obtain ⟨signed, split⟩ := append_takeSign cs
  have whole := Token.kept_takeWhile isDecimalDigit (takeSign cs).2
  have cut : (takeSign cs).2.takeWhile isDecimalDigit ++ (takeSign cs).2.dropWhile isDecimalDigit =
    (takeSign cs).2 := List.takeWhile_append_dropWhile
  unfold takeNumeral at read
  simp only at read
  split at read
  case h_1 behind after =>
    split at read
    · cases read
    case isFalse some_decimal =>
      cases read
      refine ⟨⟨signed, whole, ?_, nofun⟩, ?_⟩
      · rintro digits ⟨⟩
        exact ⟨some_decimal, Token.kept_takeWhile isDecimalDigit behind⟩
      · simp only [Numeral.spelling, List.append_assoc, List.cons_append,
          List.takeWhile_append_dropWhile, ← after, cut, split]
  case h_2 =>
    split at read
    · cases read
    case isFalse some_digit =>
      cases read
      refine ⟨⟨signed, whole, nofun, fun _ => some_digit⟩, ?_⟩
      rw [Numeral.spelling, List.append_nil, List.append_assoc, cut, split]

/-! ### Numerals with a unit -/

/-- The characters of a numeral are digits, signs and points. -/
theorem Numeral.Proper.char (proper : n.Proper) (member : c ∈ n.spelling) :
    isDecimalDigit c = true ∨ c ∈ marks := by
  have signed : ∀ sign ∈ signs, sign ⊆ marks := by decide
  rcases List.mem_append.mp member with front | behind
  · rcases List.mem_append.mp front with sign | whole
    · exact .inr (signed _ proper.sign sign)
    · exact .inl (proper.whole c whole)
  · cases decimal : n.fraction with
    | none => rw [decimal] at behind; cases behind
    | some digits =>
      rw [decimal] at behind
      rcases List.mem_cons.mp behind with rfl | digit
      · exact .inr (by decide)
      · exact .inl ((proper.fraction digits decimal).2 c digit)

/-- There is no blank in a numeral and its unit. -/
theorem solid_spelling (proper : n.Proper) (member : unit ∈ units) :
    ∀ c ∈ n.spelling ++ unit, isBlank c = false := by
  intro c inside
  rcases List.mem_append.mp inside with number | letter
  · rcases proper.char number with digit | sign
    · exact Text.not_isBlank_of_isDecimalDigit digit
    · exact (not_of_mem_marks sign).2
  · exact (apart_of_isUnitLetter ((letters_unit member).2 c letter)).2.2.1

/-- The text of a numeral and a unit is read as that. -/
theorem split?_spelling (proper : n.Proper) (member : unit ∈ units) :
    split? (String.ofList (n.spelling ++ unit)) = some (n, unit) := by
  have solid := solid_spelling proper member
  have alone : unit.dropWhile isBlank = unit := by
    have all : ∀ unit ∈ units, unit.dropWhile isBlank = unit := by decide +kernel
    exact all unit member
  rw [split?, Text.trim_of_solid (by rwa [String.toList_ofList]), String.toList_ofList,
    takeNumeral_spelling proper (unit_stops member)]
  simp only [alone, member, if_true]

/-- A text without blanks that is read as a numeral and a unit is spelled like that. -/
theorem spelling_of_split? (solid : ∀ c ∈ text.toList, isBlank c = false)
    (read : split? text = some (n, unit)) :
    n.Proper ∧ unit ∈ units ∧ text = String.ofList (n.spelling ++ unit) := by
  unfold split? at read
  rw [Text.trim_of_solid solid] at read
  split at read
  case h_1 => cases read
  case h_2 n' rest taken =>
    obtain ⟨proper, spelled⟩ := spelling_of_takeNumeral taken
    have alone : rest.dropWhile isBlank = rest := by
      cases rest with
      | nil => rfl
      | cons c cs =>
        have stop := solid c (by rw [spelled]; simp)
        exact List.dropWhile_cons_of_neg (by simp [stop])
    simp only [alone] at read
    split at read
    case isTrue member =>
      cases read
      exact ⟨proper, member, by rw [← spelled, String.ofList_toList]⟩
    case isFalse => cases read

/-! ### Letters

The only letters of units in a length are the two of its unit, at its end. So nothing that a length
begins with is a length itself. -/

theorem countP_isUnitLetter_spelling (proper : n.Proper) : n.spelling.countP isUnitLetter = 0 := by
  refine List.countP_eq_zero.mpr fun c inside letter => ?_
  obtain ⟨-, other, -, unmarked⟩ := apart_of_isUnitLetter letter
  rcases proper.char inside with digit | sign
  · cases other.symm.trans digit
  · exact unmarked sign

/-- A length without blanks has two letters of units, and the last one at its end. -/
theorem letters_of_split? {cs : List Char} (solid : ∀ c ∈ cs, isBlank c = false)
    (length : (split? (String.ofList cs)).isSome) :
    cs.countP isUnitLetter = 2 ∧ ∀ c ∈ cs.getLast?, isUnitLetter c = true := by
  obtain ⟨⟨n, unit⟩, read⟩ := Option.isSome_iff_exists.mp length
  obtain ⟨proper, member, spelled⟩ :=
    spelling_of_split? (by rwa [String.toList_ofList]) read
  obtain ⟨two, letters⟩ := letters_unit member
  obtain rfl : cs = n.spelling ++ unit := String.ofList_injective spelled
  have some_unit : unit ≠ [] := List.ne_nil_of_length_pos (by omega)
  constructor
  · rw [List.countP_append, countP_isUnitLetter_spelling proper, List.countP_eq_length.mpr letters,
      two]
  · rw [List.getLast?_append, List.getLast?_eq_some_getLast some_unit]
    rintro c ⟨⟩
    exact letters _ (List.getLast_mem some_unit)

/-- No proper prefix of a length is a length. -/
theorem split?_prefix {front back : List Char} (solid : ∀ c ∈ front ++ back, isBlank c = false)
    (length : (split? (String.ofList (front ++ back))).isSome) (proper : back ≠ []) :
    split? (String.ofList front) = none := by
  refine Option.eq_none_iff_forall_ne_some.mpr fun parts read => ?_
  obtain ⟨two, last⟩ := letters_of_split? solid length
  obtain ⟨two', _⟩ := letters_of_split? (fun c member => solid c (List.mem_append_left back member))
    (Option.isSome_iff_exists.mpr ⟨parts, read⟩)
  rw [List.countP_append, two'] at two
  have none := List.countP_eq_zero.mp (show back.countP isUnitLetter = 0 by omega)
  rw [List.getLast?_append, List.getLast?_eq_some_getLast proper, Option.some_or] at last
  exact none _ (List.getLast_mem proper) (last _ rfl)

/-- What has an output form is a length. -/
theorem isSome_split?_of_parse? (length : (parse? text).isSome) : (split? text).isSome := by
  unfold parse? at length
  cases read : split? text with
  | none => rw [read] at length; cases length
  | some parts => rfl

theorem parse?_eq_none (unread : split? text = none) : parse? text = none := by
  rw [parse?, unread]

end TexFormula.Length
