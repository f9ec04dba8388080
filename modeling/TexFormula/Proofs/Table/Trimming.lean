import Mathlib.Data.List.Induction
import TexFormula.Table.Alignment

/-! Lists that are read with their last value repeated for ever, as the alignments, the rules and the
spacings of a table are. Two equal values at the end of such a list say what one of them says
(`repeatedAt?_append_repeat`), and trimming takes them off one by one until the last two differ
(`trimming_induction`). So a trimmed list is read as before (`repeatedAt?_trimRepeats`), and whatever
tells the same begins with it (`isPrefix_trimRepeats_of_tells`). The columns of a specification get
the alignments of its letters that way (`alignAt?_parse`). -/
namespace TexFormula.Table

universe u

variable {α : Type u} {short l front : List α} {a b : α} {i : Nat}

/-! ### Reading -/

theorem repeatedAt?_singleton (a : α) (i : Nat) : repeatedAt? [a] i = some a := by
  cases i <;> rfl

theorem repeatedAt?_of_lt (inside : i < l.length) : repeatedAt? l i = some l[i] := by
  rw [repeatedAt?, List.getElem?_eq_getElem inside]
  rfl

/-- From the place of its last value on, a list is read alike everywhere. -/
theorem repeatedAt?_of_length_le (reached : l.length ≤ i + 1) :
    repeatedAt? l i = l.getLast? := by
  obtain beyond | last := Nat.le_or_eq_of_le_succ reached
  · rw [repeatedAt?, List.getElem?_eq_none beyond]
    rfl
  · have here : l[i]? = l.getLast? := by
      rw [List.getLast?_eq_getElem?, last, Nat.succ_eq_add_one, Nat.add_sub_cancel]
    rw [repeatedAt?, here]
    cases l.getLast? <;> rfl

theorem exists_repeatedAt? (given : l ≠ []) (i : Nat) : ∃ a, repeatedAt? l i = some a := by
  rw [repeatedAt?, List.getLast?_eq_some_getLast given]
  cases l[i]? with
  | none => exact ⟨_, rfl⟩
  | some a => exact ⟨a, rfl⟩

theorem repeatedAt?_map {β : Type} (f : α → β) (l : List α) (i : Nat) :
    repeatedAt? (l.map f) i = (repeatedAt? l i).map f := by
  rw [repeatedAt?, repeatedAt?, List.getElem?_map, List.getLast?_map]
  cases l[i]? <;> rfl

/-- The last value of a list need not be there twice. -/
theorem repeatedAt?_append_repeat (l : List α) (a : α) (i : Nat) :
    repeatedAt? (l ++ [a, a]) i = repeatedAt? (l ++ [a]) i := by
  have whole : l ++ [a, a] = l ++ [a] ++ [a] := List.append_cons l a [a]
  by_cases inside : i < (l ++ [a]).length
  · rw [whole, repeatedAt?_of_lt inside, repeatedAt?, List.getElem?_append_left inside,
      List.getElem?_eq_getElem inside]
    rfl
  · have reached : (l ++ [a] ++ [a]).length ≤ i + 1 := by
      rw [List.length_append, List.length_singleton]
      omega
    rw [whole, repeatedAt?_of_length_le reached, repeatedAt?_of_length_le (by omega),
      List.getLast?_concat, List.getLast?_concat]

/-- Whether a list tells everything that another one holds: with its last value repeated, it gives
the value at each index of the other one. -/
def Tells (short l : List α) : Prop :=
  ∀ i (inside : i < l.length), repeatedAt? short i = some l[i]

instance [DecidableEq α] (short l : List α) : Decidable (Tells short l) :=
  Nat.decidableBallLT l.length fun i inside => repeatedAt? short i = some l[i]

theorem Tells.of_beginning (tells : Tells short l) (begins : front <+: l) : Tells short front :=
  fun i inside => (begins.getElem inside).symm ▸
    tells i (Nat.lt_of_lt_of_le inside begins.length_le)

/-- A list that is long enough for everything it tells has it as its beginning. -/
theorem Tells.prefix_of_length_le (tells : Tells short l) (long : l.length ≤ short.length) :
    l <+: short := by
  refine List.prefix_iff_getElem?.mpr fun i inside => ?_
  have within : i < short.length := Nat.lt_of_lt_of_le inside long
  rw [← tells i inside, repeatedAt?_of_lt within, List.getElem?_eq_getElem within]

/-- To tell two different values one after the other, a list has to be as long as they are. -/
theorem Tells.length_le_of_ne (different : a ≠ b) (tells : Tells short (l ++ [a, b])) :
    (l ++ [a, b]).length ≤ short.length := by
  by_contra shorter
  have length : (l ++ [a, b]).length = l.length + 2 := List.length_append
  -- a shorter list gives its last value in both places
  have first : repeatedAt? short l.length = some a :=
    (tells l.length (by omega)).trans (by simp)
  have second : repeatedAt? short (l.length + 1) = some b :=
    (tells (l.length + 1) (by omega)).trans (by simp)
  rw [repeatedAt?_of_length_le (by omega)] at first second
  exact different (Option.some.inj (first.symm.trans second))

/-! ### Trimming -/

section Trimming

variable [DecidableEq α]

/-- Where the last two values are equal, the last one is taken off. -/
theorem trimRepeats_append_repeat (l : List α) (a : α) :
    trimRepeats (l ++ [a, a]) = trimRepeats (l ++ [a]) := by
  induction l with
  | nil => exact if_pos rfl
  | cons c l ih => rw [List.cons_append, List.cons_append, trimRepeats, trimRepeats, ih]

/-- Where the last two values differ, nothing is taken off. -/
theorem trimRepeats_append_of_ne (different : a ≠ b) (l : List α) :
    trimRepeats (l ++ [a, b]) = l ++ [a, b] := by
  induction l with
  | nil => exact if_neg different
  | cons c l ih =>
    rw [List.cons_append, trimRepeats, ih]
    cases l with
    | nil => rfl
    | cons d l => cases l <;> rfl

/-- Induction on the values that trimming takes off the end of a list. -/
theorem trimming_induction {motive : List α → Prop} (nil : motive [])
    (singleton : ∀ a, motive [a])
    (differ : ∀ l a b, a ≠ b → motive (l ++ [a, b]))
    (repeated : ∀ l a, motive (l ++ [a]) → motive (l ++ [a, a])) (l : List α) : motive l := by
  induction l using List.reverseRecOn with
  | nil => exact nil
  | append_singleton front b ih =>
    cases front using List.reverseRecOn with
    | nil => exact singleton b
    | append_singleton l a =>
      rw [List.append_assoc]
      by_cases same : a = b
      · exact same ▸ repeated l a ih
      · exact differ l a b same

/-- A list without the repeats at its end is read as the list with them. -/
theorem repeatedAt?_trimRepeats (l : List α) (i : Nat) :
    repeatedAt? (trimRepeats l) i = repeatedAt? l i := by
  induction l using trimming_induction with
  | nil => rfl
  | singleton a => rfl
  | differ l a b different => rw [trimRepeats_append_of_ne different]
  | repeated l a ih => rw [trimRepeats_append_repeat, ih, repeatedAt?_append_repeat]

theorem isPrefix_trimRepeats (l : List α) : trimRepeats l <+: l := by
  induction l using trimming_induction with
  | nil => exact List.prefix_rfl
  | singleton a => exact List.prefix_rfl
  | differ l a b different =>
    have kept := trimRepeats_append_of_ne different l
    exact ⟨[], by rw [kept, List.append_nil]⟩
  | repeated l a ih =>
    rw [trimRepeats_append_repeat]
    exact ih.trans ⟨[a], List.append_assoc l [a] [a]⟩

theorem mem_of_mem_trimRepeats (member : a ∈ trimRepeats l) : a ∈ l :=
  (isPrefix_trimRepeats l).subset member

theorem tells_trimRepeats (l : List α) : Tells (trimRepeats l) l :=
  fun i inside => (repeatedAt?_trimRepeats l i).trans (repeatedAt?_of_lt inside)

/-- What tells everything in a list begins with what trimming leaves of it. -/
theorem isPrefix_trimRepeats_of_tells (tells : Tells short l) : trimRepeats l <+: short := by
  induction l using trimming_induction with
  | nil => exact ⟨short, rfl⟩
  | singleton a =>
    refine tells.prefix_of_length_le (Nat.one_le_iff_ne_zero.mpr fun empty => ?_)
    obtain rfl := List.eq_nil_of_length_eq_zero empty
    cases tells 0 (Nat.lt_succ_self 0)
  | differ l a b different =>
    rw [trimRepeats_append_of_ne different]
    exact tells.prefix_of_length_le (tells.length_le_of_ne different)
  | repeated l a ih =>
    rw [trimRepeats_append_repeat]
    exact ih (tells.of_beginning ⟨[a], List.append_assoc l [a] [a]⟩)

end Trimming

end TexFormula.Table

namespace TexFormula.ColumnSpec

open Table (Tells)

universe u

variable {c : Char}

/-! ### Columns -/

/-- The alignments that the letters of a text stand for. -/
def alignments (text : String) : List Alignment :=
  text.toList.filterMap Alignment.ofLetter?

theorem ofLetter?_of_rule {rule : Rule} (rules : Rule.ofChar? c = some rule) :
    Alignment.ofLetter? c = none := by
  unfold Rule.ofChar? at rules
  split at rules
  · rfl
  · rfl
  · cases rules

theorem read_alignments (afterRule : Bool) (chars : List Char) :
    (read afterRule chars).1 = chars.filterMap Alignment.ofLetter? := by
  induction chars generalizing afterRule with
  | nil => rfl
  | cons c rest ih =>
    rw [read]
    split
    case h_1 rule rules =>
      rw [List.filterMap_cons_none (ofLetter?_of_rule rules)]
      exact ih true
    case h_2 =>
      split
      case h_1 none =>
        rw [List.filterMap_cons_none none]
        exact ih afterRule
      case h_2 alignment letter =>
        rw [List.filterMap_cons_some letter]
        exact congrArg (alignment :: ·) (ih false)

/-- A specification aligns its columns by its letters. A rule at its very start is not among them.
-/
theorem parse_align (text : String) : (parse text).align = trimRepeats (alignments text) := by
  unfold parse alignments
  dsimp only
  rw [read_alignments]
  cases text.toList with
  | nil => rfl
  | cons c rest =>
    dsimp only
    split
    case isTrue rules =>
      obtain ⟨rule, rules⟩ := Option.isSome_iff_exists.mp rules
      rw [List.filterMap_cons_none (ofLetter?_of_rule rules)]
    case isFalse => rfl

theorem alignAt?_parse (text : String) (column : Nat) :
    (parse text).alignAt? column = repeatedAt? (alignments text) column := by
  rw [alignAt?, parse_align, Table.repeatedAt?_trimRepeats]

/-! ### Main result -/

/-- Trimming loses nothing, and nothing more could be left out. A trimmed list is a beginning of the
list that tells everything in it, and every list that does begins with the trimmed one. So a
specification with letters aligns each column by its own letter, and those behind by the last. -/
theorem trimming_loses_nothing :
    (∀ {α : Type u} [DecidableEq α] (l : List α), Tells (trimRepeats l) l ∧ trimRepeats l <+: l ∧
      ∀ short, Tells short l → trimRepeats l <+: short) ∧
    ∀ (text : String) (given : alignments text ≠ []) (column : Nat),
      (parse text).alignAt? column = some (if inside : column < (alignments text).length then
        (alignments text)[column] else (alignments text).getLast given) := by
  refine ⟨fun l => ⟨Table.tells_trimRepeats l, Table.isPrefix_trimRepeats l,
    fun _ => Table.isPrefix_trimRepeats_of_tells⟩, fun text given column => ?_⟩
  rw [alignAt?_parse]
  split
  case isTrue inside => exact Table.repeatedAt?_of_lt inside
  case isFalse beyond =>
    rw [Table.repeatedAt?_of_length_le (by omega), List.getLast?_eq_some_getLast given]

/-- A specification with a rule at its start and two equal letters at its end. Its alignments are
also told by a list that says something else behind them. -/
theorem trimming_loses_nothing_repeated :
    alignments "|l:cc" ≠ [] ∧ Tells [.left, .center, .center, .right] (alignments "|l:cc") ∧
      trimRepeats (alignments "|l:cc") <+: [.left, .center, .center, .right] ∧
      (parse "|l:cc").alignAt? 0 = some .left ∧ (parse "|l:cc").alignAt? 2 = some .center ∧
      (parse "|l:cc").alignAt? 7 = some .center := by
  have are : alignments "|l:cc" = [.left, .center, .center] := by cbv
  have given : alignments "|l:cc" ≠ [] := are ▸ List.cons_ne_nil _ _
  have tells : Tells [.left, .center, .center, .right] (alignments "|l:cc") := by
    rw [are]
    decide
  obtain ⟨lists, columns⟩ := trimming_loses_nothing.{0}
  refine ⟨given, tells, (lists _).2.2 _ tells, ?_, ?_, ?_⟩
  · exact (columns _ given 0).trans (by simp [are])
  · exact (columns _ given 2).trans (by simp [are])
  · exact (columns _ given 7).trans (by simp [are])

end TexFormula.ColumnSpec
