import TexFormula.Proofs.Pairing.Mixed
import TexFormula.Token.Stream

/-! Collapsed environments. A begin or end takes the group that follows it, up to the brace that
closes the group, and the tokens in between spell the name. This is said here by the shape of the
list and without offsets; a list whose braces are linked is collapsed in this way. -/
namespace TexFormula.Token
open Pairing

/-- A begin or end with a group behind it. -/
def TakesGroup (t : Token) (rest : List Token) : Prop :=
  t.delimitsEnvironment = true ∧
    ∃ brace after, rest.dropWhile isBlank = brace :: after ∧ Family.curly.Opens brace

/-- A token list and the same list with every begin and end that takes a group collapsed. -/
inductive Collapsed : List Token → List Token → Prop
  | nil : Collapsed [] []
  | keep {t rest out} (plain : ¬ TakesGroup t rest) (more : Collapsed rest out) :
    Collapsed (t :: rest) (t.unpaired :: out)
  | delimiter {t rest brace name close after out} (delimits : t.delimitsEnvironment = true)
    (group : rest.dropWhile isBlank = brace :: (name ++ close :: after))
    (opens : Family.curly.Opens brace) (nested : Nested (wordOf Family.curly.mark? name))
    (closes : Family.curly.Closes close) (more : Collapsed after out) :
    Collapsed (t :: rest)
      (environmentDelimiter (t.value == "begin") (spellingAll name).toList :: out)

/-- Every opening brace knows how far away the brace is that closes its group. -/
def Spanned (tokens : List Token) : Prop :=
  ∀ before brace after, tokens = before ++ brace :: after → Family.curly.Opens brace →
    ∃ name close behind, after = name ++ close :: behind ∧
      Nested (wordOf Family.curly.mark? name) ∧ Family.curly.Closes close ∧
      brace.offset = name.length + 1

variable {tokens out : List Token}

theorem Spanned.suffix {front : List Token} (spanned : Spanned (front ++ tokens)) :
    Spanned tokens := by
  intro before brace after split opens
  exact spanned (front ++ before) brace after (by rw [split, List.append_assoc]) opens

/-- The group behind a begin or end in a list that knows its groups. -/
theorem Spanned.group {t brace : Token} {rest after : List Token} (spanned : Spanned (t :: rest))
    (found : rest.dropWhile isBlank = brace :: after) (opens : Family.curly.Opens brace) :
    ∃ name close behind, after = name ++ close :: behind ∧
      Nested (wordOf Family.curly.mark? name) ∧ Family.curly.Closes close ∧
      brace.offset = name.length + 1 := by
  refine spanned (t :: rest.takeWhile isBlank) brace after ?_ opens
  rw [List.cons_append, ← found, List.takeWhile_append_dropWhile]

theorem collapsed_collapseEnvironments (spanned : Spanned tokens) :
    Collapsed tokens (collapseEnvironments tokens) := by
  fun_induction collapseEnvironments tokens with
  | case1 => exact .nil
  | case2 t rest delimits atEnd ih =>
    refine .keep ?_ (ih (@Spanned.suffix rest [t] spanned))
    rintro ⟨_, brace, after, found, _⟩
    rw [atEnd] at found
    cases found
  | case3 t rest delimits brace after found opens length name ih =>
    have curly : Family.curly.Opens brace := by simpa [Family.Opens, Family.has] using opens
    obtain ⟨inner, close, behind, rfl, nested, closes, offset⟩ := spanned.group found curly
    have size : length = inner.length + 1 := by
      show brace.offset.toNat = inner.length + 1
      omega
    have spelled : name = (spellingAll inner).toList := by
      show (spellingAll ((inner ++ close :: behind).take (length - 1))).toList = _
      rw [size, Nat.add_sub_cancel, List.take_left]
    have skipped : (inner ++ close :: behind).drop length = behind := by
      rw [size, ← List.drop_drop, List.drop_left, List.drop_one, List.tail_cons]
    rw [skipped] at ih ⊢
    rw [spelled]
    have front : t :: rest =
        (t :: rest.takeWhile isBlank ++ brace :: inner ++ [close]) ++ behind := by
      have whole : rest.takeWhile isBlank ++ rest.dropWhile isBlank = rest :=
        List.takeWhile_append_dropWhile
      rw [found] at whole
      simp [whole]
    rw [front] at spanned
    exact .delimiter delimits found curly nested closes (ih spanned.suffix)
  | case4 t rest delimits brace after found plain ih =>
    refine .keep ?_ (ih (@Spanned.suffix rest [t] spanned))
    rintro ⟨_, other, behind, found', opens⟩
    cases found.symm.trans found'
    exact plain (by simpa [Family.Opens, Family.has] using opens)
  | case5 t rest plain ih =>
    refine .keep ?_ (ih (@Spanned.suffix rest [t] spanned))
    rintro ⟨delimits, _⟩
    exact plain delimits

/-- There is one way to collapse a list. -/
theorem Collapsed.unique {other : List Token} (one : Collapsed tokens out)
    (two : Collapsed tokens other) : other = out := by
  induction one generalizing other with
  | nil => cases two; rfl
  | keep plain _ ih =>
    cases two with
    | keep _ more => rw [ih more]
    | delimiter delimits group opens _ _ _ => exact absurd ⟨delimits, _, _, group, opens⟩ plain
  | delimiter delimits group opens nested closes _ ih =>
    cases two with
    | keep plain _ => exact absurd ⟨delimits, _, _, group, opens⟩ plain
    | delimiter _ group' opens' nested' closes' more =>
      obtain ⟨rfl, same⟩ := List.cons.inj (group.symm.trans group')
      obtain ⟨rfl, rfl, rfl⟩ := append_closer_unique same nested nested'
        (Family.mark?_eq_closes.mpr ⟨closes, rfl⟩) (Family.mark?_eq_closes.mpr ⟨closes', rfl⟩)
      rw [ih more]

/-- Offsets do not matter to collapsing. -/
theorem Collapsed.map_unpaired (collapsed : Collapsed tokens out) :
    Collapsed (tokens.map unpaired) out := by
  have blanks : ∀ rest : List Token,
      (rest.map unpaired).dropWhile isBlank = (rest.dropWhile isBlank).map unpaired := by
    intro rest
    rw [List.dropWhile_map]
    rfl
  have spelled : ∀ name : List Token, spellingAll (name.map unpaired) = spellingAll name := by
    intro name
    rw [spellingAll, List.filter_map, List.map_map]
    rfl
  induction collapsed with
  | nil => exact .nil
  | @keep t rest out plain _ ih =>
    refine .keep ?_ ih
    rintro ⟨delimits, brace, after, found, opens⟩
    rw [blanks] at found
    obtain ⟨first, behind, found', rfl, rfl⟩ := List.map_eq_cons_iff.mp found
    exact plain ⟨delimits, first, behind, found', opens⟩
  | @delimiter t rest brace name close after out delimits group opens nested closes _ ih =>
    have word : wordOf Family.curly.mark? (name.map unpaired) = wordOf Family.curly.mark? name := by
      rw [wordOf, List.filterMap_map]
      rfl
    have group' : (rest.map unpaired).dropWhile isBlank =
        brace.unpaired :: (name.map unpaired ++ close.unpaired :: after.map unpaired) := by
      rw [blanks, group]
      simp
    rw [← spelled name]
    exact .delimiter delimits group' opens (by rwa [word]) closes ih

/-- What holds of all tokens, and of the delimiter of an environment if it holds of the tokens of the
name, holds of all tokens of a collapsed list. -/
theorem forall_mem_collapsed {P : Token → Prop} (collapsed : Collapsed tokens out)
    (bare : ∀ t, P t → P t.unpaired)
    (delimiter : ∀ opens name, (∀ t ∈ name, P t) →
      P (environmentDelimiter opens (spellingAll name).toList))
    (holds : ∀ t ∈ tokens, P t) : ∀ t ∈ out, P t := by
  induction collapsed with
  | nil => simp
  | keep _ _ ih =>
    obtain ⟨here, later⟩ := List.forall_mem_cons.mp holds
    exact List.forall_mem_cons.mpr ⟨bare _ here, ih later⟩
  | @delimiter t rest brace name close after out _ group _ _ _ _ ih =>
    have inside : ∀ u ∈ name ++ close :: after, P u := fun u member =>
      holds u (List.mem_cons_of_mem t ((List.dropWhile_suffix isBlank).mem
        (group ▸ List.mem_cons_of_mem brace member)))
    refine List.forall_mem_cons.mpr ⟨delimiter _ name fun u member => ?_, ih fun u member => ?_⟩
    · exact inside u (List.mem_append_left _ member)
    · exact inside u (List.mem_append_right _ (List.mem_cons_of_mem close member))

theorem mark?_of_isBlank {t : Token} (coherent : t.kind.Coherent) (blank : t.isBlank = true) :
    Family.curly.mark? t = none := by
  cases curly : t.kind.curly with
  | false => simp [Family.mark?, Family.has, curly]
  | true =>
    have bare := coherent.plainBrace curly
    simp [isBlank, bare.2.2] at blank

theorem mark?_of_command {t : Token} (coherent : t.kind.Coherent)
    (command : t.kind.command = true) : Family.curly.mark? t = none := by
  cases curly : t.kind.curly with
  | false => simp [Family.mark?, Family.has, curly]
  | true => cases (coherent.plainBrace curly).2.1.symm.trans command

/-- Blanks are no braces. -/
theorem wordOf_dropWhile_isBlank (coherent : ∀ t ∈ tokens, t.kind.Coherent) :
    wordOf Family.curly.mark? (tokens.dropWhile isBlank) = wordOf Family.curly.mark? tokens := by
  induction tokens with
  | nil => rfl
  | cons t rest ih =>
    obtain ⟨here, later⟩ := List.forall_mem_cons.mp coherent
    cases blank : t.isBlank with
    | false => rw [List.dropWhile_cons_of_neg (by simp [blank])]
    | true =>
      rw [List.dropWhile_cons_of_pos blank, ih later,
        wordOf_cons_of_none (mark?_of_isBlank here blank)]

/-- The braces that collapsing takes away are nested, so that the others are nested as before. -/
theorem Collapsed.settles_iff (collapsed : Collapsed tokens out)
    (coherent : ∀ t ∈ tokens, t.kind.Coherent) (waiting : List Bracket) :
    Settles waiting (wordOf Family.curly.mark? out) ↔
      Settles waiting (wordOf Family.curly.mark? tokens) := by
  induction collapsed generalizing waiting with
  | nil => rfl
  | @keep t rest out _ _ ih =>
    obtain ⟨_, later⟩ := List.forall_mem_cons.mp coherent
    cases marked : Family.curly.mark? t with
    | none =>
      rw [wordOf_cons_of_none marked,
        wordOf_cons_of_none ((Family.mark?_unpaired t).trans marked), ih later]
    | some m =>
      rw [wordOf_cons_of_some marked,
        wordOf_cons_of_some ((Family.mark?_unpaired t).trans marked)]
      cases m with
      | opens b => rw [settles_opens, settles_opens, ih later]
      | closes b => simp only [settles_closes, ih later]
  | @delimiter t rest brace name close after out delimits group opens nested closes _ ih =>
    obtain ⟨here, later⟩ := List.forall_mem_cons.mp coherent
    have command : t.kind.command = true := by
      simp only [delimitsEnvironment, isNamed, Bool.or_eq_true, Bool.and_eq_true] at delimits
      exact delimits.elim And.left And.left
    have plain := mark?_of_command here command
    have inside : ∀ u ∈ after, u.kind.Coherent := fun u member =>
      later u ((List.dropWhile_suffix isBlank).subset (by simp [group, member]))
    have bare : Family.curly.mark? (environmentDelimiter (t.value == "begin")
        (spellingAll name).toList) = none := rfl
    rw [wordOf_cons_of_none bare, wordOf_cons_of_none plain, ← wordOf_dropWhile_isBlank later,
      group, wordOf_cons_of_some (Family.mark?_eq_opens.mpr ⟨opens, rfl⟩), wordOf_append,
      wordOf_cons_of_some (Family.mark?_eq_closes.mpr ⟨closes, rfl⟩), settles_opens,
      settles_append nested, ih inside]
    simp [Family.bracket, Settles]

end TexFormula.Token
