import TexFormula.Proofs.Table.Spacing

/-! The rules between the columns of a table. A specification is cut at its letters into what is in
front of the first, the gaps, and what is behind the last. Each gap should have one entry in the
list of rules, but it has one for each of its rules, and so has the text in front of the first
letter (`read_rules`). So the entries of a gap come later than they should by the rules too many in
front of it (`surplus`), and the first of them is right for the gap where there are none
(`rule_between_letters`). -/
namespace TexFormula.ColumnSpec

open Table (IsWord repeatedAt?_map)

variable {c : Char} {before gap after chars : List Char} {gaps : List (List Char)} {k : Nat}

/-! ### Letters and rules -/

/-- Whether a character is the letter of a column. -/
def isLetter (c : Char) : Bool :=
  (Alignment.ofLetter? c).isSome

/-- The rules among some characters. -/
def rulesOf (chars : List Char) : List Rule :=
  chars.filterMap Rule.ofChar?

/-- What belongs into a gap with the given characters. -/
def ruleOf (gap : List Char) : Rule :=
  (rulesOf gap).headD .none

/-- What a gap adds to the list of rules. -/
def entriesOf (gap : List Char) : List Rule :=
  if rulesOf gap = [] then [.none] else rulesOf gap

/-- What the texts behind the first letter add to the list of rules. Only the last of them is no
gap. -/
def listed : List (List Char) → List Rule
  | [] => []
  | [last] => rulesOf last
  | gap :: next :: more => entriesOf gap ++ listed (next :: more)

/-- The text without a rule at its very start. -/
def withoutFirstRule : List Char → List Char
  | [] => []
  | c :: rest => if (Rule.ofChar? c).isSome then rest else c :: rest

/-- How many rules too many there are in a text up to the letter in front of a gap. None is needed
in front of the first letter, and at most one in each gap. -/
def surplus (before : List Char) : Nat :=
  match (withoutFirstRule before).splitOnP isLetter with
  | [] => 0
  | lead :: gaps => (rulesOf lead).length + (gaps.map fun gap => (rulesOf gap).length - 1).sum

theorem parse_rules (text : String) :
    (parse text).rules = trimRepeats (read true (withoutFirstRule text.toList)).2 := by
  unfold parse withoutFirstRule
  cases text.toList <;> rfl

theorem not_isLetter_of_rule {rule : Rule} (rules : Rule.ofChar? c = some rule) :
    isLetter c = false := by
  rw [isLetter, ofLetter?_of_rule rules]
  rfl

theorem ofChar?_of_isLetter (letter : isLetter c = true) : Rule.ofChar? c = none := by
  cases rules : Rule.ofChar? c with
  | none => rfl
  | some rule => exact absurd letter (Bool.eq_false_iff.mp (not_isLetter_of_rule rules))

theorem rulesOf_cons_of_rule {rule : Rule} (rules : Rule.ofChar? c = some rule)
    (chars : List Char) : rulesOf (c :: chars) = rule :: rulesOf chars :=
  List.filterMap_cons_some rules

theorem rulesOf_cons_of_none (none : Rule.ofChar? c = none) (chars : List Char) :
    rulesOf (c :: chars) = rulesOf chars :=
  List.filterMap_cons_none none

theorem entriesOf_cons_of_none (none : Rule.ofChar? c = none) (gap : List Char) :
    entriesOf (c :: gap) = entriesOf gap := by
  rw [entriesOf, entriesOf, rulesOf_cons_of_none none]

theorem head?_entriesOf (gap : List Char) : (entriesOf gap).head? = some (ruleOf gap) := by
  unfold entriesOf ruleOf
  cases rulesOf gap <;> rfl

theorem length_entriesOf (gap : List Char) :
    (entriesOf gap).length = 1 + ((rulesOf gap).length - 1) := by
  unfold entriesOf
  cases rulesOf gap with
  | nil => rfl
  | cons rule more => rw [if_neg (List.cons_ne_nil _ _), List.length_cons]; omega

/-! ### The list of rules -/

theorem listed_cons_of_rule {rule : Rule} (rules : Rule.ofChar? c = some rule) (gap : List Char)
    (more : List (List Char)) :
    listed ((c :: gap) :: more) = rule :: (rulesOf gap ++ listed more) := by
  have first := rulesOf_cons_of_rule rules gap
  cases more with
  | nil => exact first.trans (congrArg _ (List.append_nil _).symm)
  | cons next more =>
    rw [listed, entriesOf, first, if_neg (List.cons_ne_nil _ _), List.cons_append]

theorem listed_cons_of_none (none : Rule.ofChar? c = none) (gap : List Char)
    (more : List (List Char)) : listed ((c :: gap) :: more) = listed (gap :: more) := by
  cases more with
  | nil => exact rulesOf_cons_of_none none gap
  | cons next more => rw [listed, listed, entriesOf_cons_of_none none]

/-- What is read from a text are the rules of its parts, with an entry for a gap without rules. In
front of the first letter a gap is not needed, or there is one already. -/
theorem read_rules (chars : List Char) :
    (read false chars).2 = listed (chars.splitOnP isLetter) ∧
      ∃ lead more, chars.splitOnP isLetter = lead :: more ∧
        (read true chars).2 = rulesOf lead ++ listed more := by
  induction chars with
  | nil => exact ⟨rfl, [], [], rfl, rfl⟩
  | cons c rest ih =>
    obtain ⟨behind, lead, more, cut, start⟩ := ih
    cases rules : Rule.ofChar? c with
    | some rule =>
      have other : isLetter c = false := not_isLetter_of_rule rules
      have cut : (c :: rest).splitOnP isLetter = (c :: lead) :: more := by
        rw [List.splitOnP_cons_eq_if_modifyHead, other, cut]
        rfl
      have first (afterRule : Bool) :
          (read afterRule (c :: rest)).2 = rule :: (read true rest).2 := by
        rw [read, rules]
      rw [cut, first, first, start]
      exact ⟨(listed_cons_of_rule rules lead more).symm, _, _, rfl,
        by rw [rulesOf_cons_of_rule rules, List.cons_append]⟩
    | none =>
      cases letter : Alignment.ofLetter? c with
      | none =>
        have cut : (c :: rest).splitOnP isLetter = (c :: lead) :: more := by
          rw [List.splitOnP_cons_eq_if_modifyHead, isLetter, letter, cut]
          rfl
        have skip (afterRule : Bool) : read afterRule (c :: rest) = read afterRule rest := by
          rw [read, rules]
          simp only [letter]
        rw [cut, skip, skip, start, behind, ‹rest.splitOnP isLetter = _›]
        exact ⟨(listed_cons_of_none rules lead more).symm, _, _, rfl,
          by rw [rulesOf_cons_of_none rules]⟩
      | some alignment =>
        have cut' : (c :: rest).splitOnP isLetter = [] :: lead :: more := by
          rw [List.splitOnP_cons_eq_if_modifyHead, isLetter, letter, cut]
          rfl
        rw [cut']
        refine ⟨?_, _, _, rfl, ?_⟩
        · rw [read, rules]
          simp only [letter, Bool.false_eq_true, if_false]
          rw [behind, cut]
          rfl
        · rw [read, rules]
          simp only [letter, if_true]
          rw [behind, cut]
          rfl

/-- The first entry of a gap stands behind those of the gaps in front of it. -/
theorem getElem?_listed (front : List (List Char)) (gap next : List Char)
    (more : List (List Char)) : (listed (front ++ gap :: next :: more))[front.length +
      (front.map fun gap => (rulesOf gap).length - 1).sum]? = some (ruleOf gap) := by
  induction front with
  | nil =>
    have first := head?_entriesOf gap
    cases entries : entriesOf gap with
    | nil =>
      rw [entries] at first
      cases first
    | cons rule rules =>
      rw [entries] at first
      rw [List.nil_append, listed, entries]
      exact first
  | cons earlier front ih =>
    have some : front ++ gap :: next :: more ≠ [] := by simp
    obtain ⟨second, others, rest⟩ := List.exists_cons_of_ne_nil some
    rw [rest] at ih
    have place : (earlier :: front).length +
          ((earlier :: front).map fun gap => (rulesOf gap).length - 1).sum =
        (entriesOf earlier).length +
          (front.length + (front.map fun gap => (rulesOf gap).length - 1).sum) := by
      rw [length_entriesOf, List.length_cons, List.map_cons, List.sum_cons]
      omega
    rw [List.cons_append, rest, listed, place, List.getElem?_append_right (Nat.le_add_right _ _),
      Nat.add_sub_cancel_left, ih]

/-! ### Gaps -/

theorem length_splitOnP (chars : List Char) :
    (chars.splitOnP isLetter).length = chars.countP isLetter + 1 := by
  induction chars with
  | nil => rfl
  | cons c chars ih =>
    rw [List.splitOnP_cons_eq_if_modifyHead, List.countP_cons]
    split
    · rw [List.length_cons, ih]
    · rw [List.length_modifyHead, ih, Nat.add_zero]

theorem withoutFirstRule_append {a : Char} (letter : isLetter a = true) (before rest : List Char) :
    withoutFirstRule (before ++ a :: rest) = withoutFirstRule before ++ a :: rest := by
  cases before with
  | nil =>
    have none := ofChar?_of_isLetter letter
    simp [withoutFirstRule, none]
  | cons c before =>
    rw [List.cons_append, withoutFirstRule, withoutFirstRule]
    split <;> rfl

theorem countP_withoutFirstRule (chars : List Char) :
    (withoutFirstRule chars).countP isLetter = chars.countP isLetter := by
  cases chars with
  | nil => rfl
  | cons c rest =>
    rw [withoutFirstRule]
    split
    case isTrue rules =>
      obtain ⟨rule, rules⟩ := Option.isSome_iff_exists.mp rules
      rw [List.countP_cons_of_neg (Bool.eq_false_iff.mp (not_isLetter_of_rule rules))]
    case isFalse => rfl

/-- There is no rule too many where only the very first character is a rule in front of the first
letter, and where no gap has two. -/
theorem surplus_eq_zero_iff {lead : List Char}
    (cut : (withoutFirstRule before).splitOnP isLetter = lead :: gaps) :
    surplus before = 0 ↔ rulesOf lead = [] ∧ ∀ gap ∈ gaps, (rulesOf gap).length ≤ 1 := by
  rw [surplus, cut, Nat.add_eq_zero_iff, List.length_eq_zero_iff, List.sum_eq_zero_iff]
  simp only [List.forall_mem_map, Nat.sub_eq_zero_iff_le]

theorem isWord_name (rule : Rule) : IsWord rule.name := by
  refine ⟨by cases rule <;> decide, ?_⟩
  cases rule <;> simp only [Rule.name, String.reduceToList, List.forall_mem_cons]
  case solid => exact ⟨rfl, rfl, rfl, rfl, rfl, List.forall_mem_nil _⟩
  case dashed => exact ⟨rfl, rfl, rfl, rfl, rfl, rfl, List.forall_mem_nil _⟩
  case none => exact ⟨rfl, rfl, rfl, rfl, List.forall_mem_nil _⟩

theorem words_rulesText {spec : ColumnSpec} (given : spec.rules ≠ []) :
    ∃ said, spec.rulesText? = some said ∧
      Text.words said = spec.rules.map Rule.name := by
  refine ⟨_, if_neg (by simpa using given), Table.words_intercalate fun word member => ?_⟩
  obtain ⟨rule, -, rfl⟩ := List.mem_map.mp member
  exact isWord_name rule

/-! ### Main result -/

/-- The rule of a gap. It is read off the list of rules at the place of the gap, but as much later
as there are rules too many in front of it. Rules in the gap itself or behind it do not matter. -/
theorem rule_between_letters {text : String} {a b : Char}
    (spelled : text.toList = before ++ a :: (gap ++ b :: after)) (first : isLetter a = true)
    (inside : ∀ c ∈ gap, isLetter c = false) (second : isLetter b = true) :
    ∃ said lead gaps, (parse text).rulesText? = some said ∧
      (withoutFirstRule before).splitOnP isLetter = lead :: gaps ∧
      gaps.length = before.countP isLetter ∧
      repeatedAt? (Text.words said) (before.countP isLetter + surplus before) =
        some (ruleOf gap).name ∧
      (surplus before = 0 ↔ rulesOf lead = [] ∧ ∀ gap ∈ gaps, (rulesOf gap).length ≤ 1) := by
  have cut : (withoutFirstRule text.toList).splitOnP isLetter =
      (withoutFirstRule before).splitOnP isLetter ++ gap :: after.splitOnP isLetter := by
    rw [spelled, withoutFirstRule_append first, List.splitOnP_append_cons _ _ first,
      List.splitOnP_append_cons_of_forall_mem inside _ second]
  obtain ⟨lead, gaps, front⟩ :=
    List.exists_cons_of_ne_nil (List.splitOnP_ne_nil isLetter (withoutFirstRule before))
  obtain ⟨next, more, back⟩ :=
    List.exists_cons_of_ne_nil (List.splitOnP_ne_nil isLetter after)
  have count : gaps.length = before.countP isLetter := by
    have length := length_splitOnP (withoutFirstRule before)
    rw [front, countP_withoutFirstRule, List.length_cons] at length
    exact Nat.succ.inj length
  obtain ⟨lead', behind, whole, rules⟩ := (read_rules (withoutFirstRule text.toList)).2
  rw [cut, front, back, List.cons_append, List.cons.injEq] at whole
  obtain ⟨rfl, rfl⟩ := whole
  have entry : (read true (withoutFirstRule text.toList)).2[gaps.length + surplus before]? =
      some (ruleOf gap) := by
    rw [rules, surplus, front, Nat.add_left_comm, List.getElem?_append_right (Nat.le_add_right _ _),
      Nat.add_sub_cancel_left, getElem?_listed]
  have read : repeatedAt? (parse text).rules (gaps.length + surplus before) =
      some (ruleOf gap) := by
    rw [parse_rules, Table.repeatedAt?_trimRepeats, repeatedAt?, entry]
    rfl
  have given : (parse text).rules ≠ [] := fun none => by
    rw [none] at read
    cases read
  obtain ⟨said, text, words⟩ := words_rulesText given
  refine ⟨said, lead, gaps, text, front, count, ?_, surplus_eq_zero_iff front⟩
  rw [words, repeatedAt?_map, ← count, read, Option.map_some]

/-- The rule of the second gap, with the rule at the start and one in the first gap. -/
theorem rule_between_letters_second : ∃ said lead gaps,
    (parse "|l:c|r").rulesText? = some said ∧
      (withoutFirstRule "|l:".toList).splitOnP isLetter = lead :: gaps ∧
      gaps.length = "|l:".toList.countP isLetter ∧
      repeatedAt? (Text.words said) ("|l:".toList.countP isLetter + surplus "|l:".toList) =
        some (ruleOf ['|']).name ∧
      (surplus "|l:".toList = 0 ↔ rulesOf lead = [] ∧ ∀ gap ∈ gaps, (rulesOf gap).length ≤ 1) := by
  have spelled : "|l:c|r".toList = "|l:".toList ++ 'c' :: (['|'] ++ 'r' :: []) := by simp
  exact rule_between_letters spelled rfl (List.forall_mem_singleton.mpr rfl) rfl

/-- A second rule in front of the first letter takes the place of the first gap. -/
theorem rule_of_gap_shifted :
    ¬ ∀ (text : String) (before gap after : List Char) (a b : Char),
      text.toList = before ++ a :: (gap ++ b :: after) → isLetter a = true → isLetter b = true →
      (∀ c ∈ gap, isLetter c = false) →
      repeatedAt? (parse text).rules (before.countP isLetter) = some (ruleOf gap) := by
  intro reads
  have none := reads "||lc" ['|', '|'] [] [] 'l' 'c' (by simp) rfl rfl (List.forall_mem_nil _)
  have solid : repeatedAt? (parse "||lc").rules (['|', '|'].countP isLetter) = some .solid := by
    simp [parse]
    decide
  cases none.symm.trans solid

end TexFormula.ColumnSpec
