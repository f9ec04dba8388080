import TexFormula.Proofs.Token.Acceptance
import TexFormula.Proofs.Token.Respelling
import TexFormula.Proofs.Token.Texts

/-! Two readings of a formula. They are compared step by step, and what they may differ in is said
once: comments that are in the tokens of the first reading may be missing in those of the second
one, and the known macros may differ in names that no token mentions. This module is about the
tokens: what is done to a list before delimiters are paired is done to both lists in the same way,
and at most the missing comments tell the results apart. -/
namespace TexFormula
open Token Pairing

/-- What two readings of a formula may differ in, and what their tokens have in common. -/
structure Difference where
  /-- Comments may be missing in the second reading. -/
  comments : Prop
  /-- The known macros may differ. -/
  macros : Prop
  /-- What is true of all tokens. -/
  holds : Token → Prop
  lasts : Persistent holds
  coherent : comments → ∀ t, holds t → t.kind.Coherent
  stored : comments → macros

/-- Readings of the same tokens with the same macros. -/
def Difference.nothing : Difference where
  comments := False
  macros := False
  holds _ := True
  lasts := Token.persistent_true
  coherent := False.elim
  stored := False.elim

/-- Tokens that differ in their partners at most. -/
structure Token.SameMarks (D : Difference) (t t' : Token) : Prop where
  holds : D.holds t
  same : t.unpaired = t'.unpaired

/-- A token of one reading and the token of the other reading in its place. Only where comments are
missing a partner can be at another distance. -/
structure Token.Alike (D : Difference) (t t' : Token) : Prop extends Token.SameMarks D t t' where
  alone : t.offset = 0 ↔ t'.offset = 0
  exact : D.comments ∨ t = t'

/-- Whether a comment may be missing in front of a list. It takes no part in anything if a blank
follows it, as the end of its line does in a source. -/
def Gap (ends : Prop) : List Token → Prop
  | [] => ends
  | next :: _ => next.kind = { whitespace := true }

/-- A token list, and the same list with some of the comments missing. -/
inductive Thins (D : Difference) (ends : Prop) : List Token → List Token → Prop
  | nil : Thins D ends [] []
  | drop {c l l'} (allowed : D.comments) (comment : c.kind = { comment := true })
    (gap : Gap ends l) (more : Thins D ends l l') : Thins D ends (c :: l) l'
  | keep {t t' l l'} (alike : Token.Alike D t t') (more : Thins D ends l l') :
    Thins D ends (t :: l) (t' :: l')

variable {D : Difference} {ends : Prop} {t t' : Token} {l l' m m' : List Token}

namespace Token

theorem alike_self (holds : D.holds t) : Token.Alike D t t :=
  ⟨⟨holds, rfl⟩, .rfl, .inr rfl⟩

namespace SameMarks

theorem kind (marks : Token.SameMarks D t t') : t.kind = t'.kind := by
  rw [← kind_unpaired t, marks.same, kind_unpaired]

theorem value (marks : Token.SameMarks D t t') : t.value = t'.value := by
  rw [← value_unpaired t, marks.same, value_unpaired]

theorem other (marks : Token.SameMarks D t t') : D.holds t' :=
  D.lasts.unpaired marks.same marks.holds

/-- What does not depend on the partner is the same in both readings. -/
theorem eq_of_blind {α : Type} {f : Token → α} (marks : Token.SameMarks D t t')
    (blind : ∀ t, f t = f t.unpaired) : f t = f t' := by
  rw [blind t, blind t', marks.same]

theorem isBlank (marks : Token.SameMarks D t t') : t.isBlank = t'.isBlank :=
  marks.eq_of_blind (f := Token.isBlank) fun _ => rfl

end SameMarks

namespace Alike

theorem unpaired (alike : Token.Alike D t t') : Token.Alike D t.unpaired t'.unpaired :=
  ⟨⟨D.lasts.unpaired (t := t) rfl alike.holds, alike.same⟩, .rfl, .inr alike.same⟩

theorem apply (alike : Token.Alike D t t') (s : Sizing) :
    Token.Alike D (s.apply t) (s.apply t') := by
  have blind : ∀ t : Token, (s.apply t).unpaired = s.apply t.unpaired := by
    intro t
    have value : t.unpaired.value = t.value := rfl
    have kind : t.unpaired.kind = t.kind := rfl
    unfold Sizing.apply
    rw [value, kind]
    split <;> rfl
  refine ⟨⟨D.lasts.sized s alike.holds, ?_⟩, ?_, alike.exact.imp_right (congrArg s.apply)⟩
  · rw [blind, blind, alike.same]
  · rw [offset_apply, offset_apply]
    exact alike.alone

end Alike

end Token

/-! ### Missing comments -/

/-- A list that starts with a blank still does when the kinds in front are the same. -/
theorem Gap.cons {rest : List Token} (gap : Gap ends (t :: l)) (kind : t'.kind = t.kind) :
    Gap ends (t' :: rest) :=
  kind.trans gap

namespace Thins

theorem refl (holds : ∀ t ∈ l, D.holds t) : Thins D ends l l := by
  induction l with
  | nil => exact .nil
  | cons t l ih =>
    obtain ⟨here, later⟩ := List.forall_mem_cons.mp holds
    exact .keep (alike_self here) (ih later)

/-- The lists are the same if no comments may be missing. -/
theorem eq (thins : Thins D ends l l') (complete : ¬ D.comments) : l = l' := by
  induction thins with
  | nil => rfl
  | drop allowed => exact absurd allowed complete
  | keep alike _ ih => rw [alike.exact.resolve_left complete, ih]

theorem holds (thins : Thins D ends l l') : ∀ t ∈ l', D.holds t := by
  induction thins with
  | nil => simp
  | drop _ _ _ _ ih => exact ih
  | keep alike _ ih => exact List.forall_mem_cons.mpr ⟨alike.other, ih⟩

theorem append (thins : Thins D False l l') (more : Thins D ends m m') :
    Thins D ends (l ++ m) (l' ++ m') := by
  induction thins with
  | nil => exact more
  | @drop c l l' allowed comment gap _ ih =>
    refine .drop allowed comment ?_ ih
    cases l with
    | nil => exact gap.elim
    | cons t l => exact gap
  | keep alike _ ih => exact .keep alike ih

/-- Both parts of a list are thinned. Where the second part starts with a blank, a comment may be
missing at the end of the first one. -/
theorem split (thins : Thins D ends (l ++ m) l') :
    ∃ first second, l' = first ++ second ∧ Thins D (Gap ends m) l first ∧
      Thins D ends m second := by
  induction l generalizing l' with
  | nil => exact ⟨[], l', rfl, .nil, thins⟩
  | cons t l ih =>
    cases thins with
    | drop allowed comment gap more =>
      obtain ⟨first, second, rfl, here, later⟩ := ih more
      refine ⟨first, second, rfl, .drop allowed comment ?_ here, later⟩
      cases l with
      | nil => exact gap
      | cons t l => exact gap
    | keep alike more =>
      obtain ⟨first, second, rfl, here, later⟩ := ih more
      exact ⟨_ :: first, second, rfl, .keep alike here, later⟩

/-- Only a comment is ever missing. -/
theorem cons_kept (thins : Thins D ends (t :: l) l') (kept : t.kind ≠ { comment := true }) :
    ∃ t' rest, l' = t' :: rest ∧ Token.Alike D t t' ∧ Thins D ends l rest := by
  cases thins with
  | drop _ comment => exact absurd comment kept
  | keep alike more => exact ⟨_, _, rfl, alike, more⟩

theorem map_unpaired (thins : Thins D ends l l') :
    Thins D ends (l.map unpaired) (l'.map unpaired) := by
  induction thins with
  | nil => exact .nil
  | @drop c l l' allowed comment gap _ ih =>
    refine .drop allowed comment ?_ ih
    cases l with
    | nil => exact gap
    | cons t l => exact gap
  | keep alike _ ih => exact .keep alike.unpaired ih

/-- What is gathered from a list without looking at comments and partners is the same. -/
theorem filterMap_eq {α : Type} {f : Token → Option α} (thins : Thins D ends l l')
    (blind : ∀ t, f t = f t.unpaired)
    (deaf : ∀ t : Token, t.kind = { comment := true } → f t = none) :
    l.filterMap f = l'.filterMap f := by
  induction thins with
  | nil => rfl
  | drop _ comment _ _ ih => rw [List.filterMap_cons_none (deaf _ comment), ih]
  | keep alike _ ih => rw [List.filterMap_cons, List.filterMap_cons, alike.eq_of_blind blind, ih]

/-- What passes over comments passes over the same tokens. -/
theorem filter_eq {p : Token → Bool} (thins : Thins D ends l l')
    (blind : ∀ t : Token, p t = p t.unpaired)
    (deaf : ∀ t : Token, t.kind = { comment := true } → p t = false) :
    (l.filter p).map unpaired = (l'.filter p).map unpaired := by
  have through : ∀ l : List Token, (l.filter p).map unpaired =
      l.filterMap fun t => if p t then some t.unpaired else none := by
    intro l
    rw [← List.filterMap_eq_map, List.filterMap_filter]
    rfl
  rw [through, through]
  refine thins.filterMap_eq (fun t => ?_) fun t comment => ?_
  · rw [blind t]
    rfl
  · rw [deaf t comment]
    rfl

theorem spellingAll_eq (thins : Thins D ends l l') : spellingAll l = spellingAll l' := by
  have spelled : ∀ l : List Token, (l.filter (!·.kind.comment)).map spelling =
      ((l.filter (!·.kind.comment)).map unpaired).map spelling := by
    intro l
    rw [List.map_map]
    rfl
  have same := thins.filter_eq (p := (!·.kind.comment)) (fun _ => rfl)
    fun t comment => by rw [comment]; rfl
  rw [spellingAll, spellingAll, spelled l, spelled l', same]

theorem wordOf_eq {f : Family} (thins : Thins D ends l l') :
    wordOf f.mark? l = wordOf f.mark? l' := by
  refine thins.filterMap_eq (fun t => (Family.mark?_unpaired t).symm) fun t comment => ?_
  cases f <;> simp [Family.mark?, Family.has, comment]

theorem dropWhile (thins : Thins D ends l l') :
    Thins D ends (l.dropWhile isBlank) (l'.dropWhile isBlank) := by
  induction thins with
  | nil => exact .nil
  | drop _ comment _ _ ih =>
    rwa [List.dropWhile_cons_of_pos (by simp [isBlank, comment])]
  | @keep t t' l l' alike more ih =>
    cases blank : t.isBlank with
    | true =>
      rwa [List.dropWhile_cons_of_pos blank,
        List.dropWhile_cons_of_pos (alike.isBlank.symm.trans blank)]
    | false =>
      rw [List.dropWhile_cons_of_neg (by simp [blank]),
        List.dropWhile_cons_of_neg (by simp [← alike.isBlank, blank])]
      exact .keep alike more

/-- Behind the blanks in front of it the first token of a list is the same in both readings. -/
theorem dropWhile_cons {first : Token} {after : List Token} (thins : Thins D ends l l')
    (found : l.dropWhile Token.isBlank = first :: after) :
    ∃ first' after', l'.dropWhile Token.isBlank = first' :: after' ∧
      Token.Alike D first first' ∧ Thins D ends after after' := by
  have dropped := thins.dropWhile
  rw [found] at dropped
  have solid : first.isBlank = false := by
    have kept := List.head_dropWhile_not Token.isBlank (l := l) (by simp [found])
    simpa [found] using kept
  refine dropped.cons_kept fun comment => ?_
  simp [Token.isBlank, comment] at solid

end Thins

/-! ### Preparation -/

/-- Comments in front of a blank stay there when sizing commands are absorbed. -/
theorem Gap.absorbSizing (gap : Gap ends l) : Gap ends (absorbSizing l) := by
  cases l with
  | nil => rwa [Token.absorbSizing]
  | cons t l =>
    have blank : t.kind = { whitespace := true } := gap
    have unsized : Sizing.ofToken? t = none := by simp [Sizing.ofToken?, isCommand, blank]
    rw [absorbSizing_of_unsized unsized]
    exact gap

theorem Thins.absorbSizing (thins : Thins D ends l l') :
    Thins D ends (absorbSizing l) (absorbSizing l') := by
  fun_induction Token.absorbSizing l generalizing l' with
  | case1 =>
    cases thins
    rw [Token.absorbSizing]
    exact .nil
  | case2 t rest unsized ih =>
    cases thins with
    | drop allowed comment gap more => exact .drop allowed comment gap.absorbSizing (ih more)
    | keep alike more =>
      have blind : ∀ t, Sizing.ofToken? t = Sizing.ofToken? t.unpaired := fun _ => rfl
      rw [absorbSizing_of_unsized ((alike.eq_of_blind blind).symm.trans unsized)]
      exact .keep alike (ih more)
  | case3 t rest sizing sized atEnd =>
    obtain ⟨t', rest', rfl, alike, more⟩ := thins.cons_kept fun comment => by
      simp [Sizing.ofToken?, isCommand, comment] at sized
    have blind : ∀ t, Sizing.ofToken? t = Sizing.ofToken? t.unpaired := fun _ => rfl
    have atEnd' : rest'.dropWhile isBlank = [] := by
      have none := more.dropWhile
      rw [atEnd] at none
      generalize rest'.dropWhile isBlank = dropped at none
      cases none
      rfl
    rw [absorbSizing_of_end ((alike.eq_of_blind blind).symm.trans sized) atEnd']
    exact .keep alike .nil
  | case4 t rest sizing sized delimiter after found ih =>
    obtain ⟨t', rest', rfl, alike, more⟩ := thins.cons_kept fun comment => by
      simp [Sizing.ofToken?, isCommand, comment] at sized
    have blind : ∀ t, Sizing.ofToken? t = Sizing.ofToken? t.unpaired := fun _ => rfl
    obtain ⟨first', after', found', first, behind⟩ := more.dropWhile_cons found
    rw [absorbSizing_of_sized ((alike.eq_of_blind blind).symm.trans sized) found']
    exact .keep (first.apply sizing) (ih behind)

theorem Thins.unlinked (thins : Thins D ends l l') : Thins D ends (unlinked l) (unlinked l') :=
  thins.absorbSizing.map_unpaired

/-- A begin or end takes a group in both readings or in none. -/
theorem takesGroup_of_thins {rest rest' : List Token} (alike : Token.Alike D t t')
    (more : Thins D ends rest rest') (takes : TakesGroup t' rest') : TakesGroup t rest := by
  obtain ⟨delimits, brace, after, found, opens⟩ := takes
  refine ⟨?_, ?_⟩
  · rwa [alike.eq_of_blind (f := delimitsEnvironment) fun _ => rfl]
  · have dropped := more.dropWhile
    rw [found] at dropped
    cases behind : rest.dropWhile isBlank with
    | nil => rw [behind] at dropped; cases dropped
    | cons first others =>
      obtain ⟨first', others', found', same, -⟩ := more.dropWhile_cons behind
      cases found.symm.trans found'
      refine ⟨first, others, rfl, ?_⟩
      simpa [Family.Opens, Family.has, same.kind] using opens

theorem Gap.collapsed (collapsed : Collapsed l m) (gap : Gap ends l) : Gap ends m := by
  cases collapsed with
  | nil => exact gap
  | keep => exact gap
  | delimiter delimits =>
    have blank : Token.kind _ = _ := gap
    simp [delimitsEnvironment, isNamed, blank] at delimits

/-- Environments are collapsed in the same places. -/
theorem Thins.collapsed (thins : Thins D ends l l') (collapsed : Collapsed l m) :
    ∃ m', Collapsed l' m' ∧ Thins D ends m m' := by
  induction collapsed generalizing l' with
  | nil =>
    cases thins
    exact ⟨[], .nil, .nil⟩
  | @keep t rest out plain rests ih =>
    cases thins with
    | drop allowed comment gap more =>
      obtain ⟨out', collapsed, result⟩ := ih more
      exact ⟨out', collapsed, .drop allowed comment (gap.collapsed rests) result⟩
    | keep alike more =>
      obtain ⟨out', collapsed, result⟩ := ih more
      exact ⟨_, .keep (fun takes => plain (takesGroup_of_thins alike more takes)) collapsed,
        .keep alike.unpaired result⟩
  | @delimiter t rest brace name close after out delimits group opens nested closes _ ih =>
    obtain ⟨t', rest', rfl, alike, more⟩ := thins.cons_kept fun comment => by
      simp [delimitsEnvironment, isNamed, comment] at delimits
    obtain ⟨brace', behind, group', braces, inside⟩ := more.dropWhile_cons group
    obtain ⟨name', tail, rfl, names, tails⟩ := inside.split
    obtain ⟨close', after', rfl, closers, afters⟩ := tails.cons_kept fun comment => by
      simp [Family.Closes, Family.has, comment] at closes
    obtain ⟨out', collapsed, result⟩ := ih afters
    have spelled := names.spellingAll_eq
    have begins : (t.value == "begin") = (t'.value == "begin") := by rw [alike.value]
    have nested' : Nested (wordOf Family.curly.mark? name') := names.wordOf_eq ▸ nested
    refine ⟨_, .delimiter ?_ group' ?_ nested' ?_ collapsed, ?_⟩
    · rwa [← alike.eq_of_blind (f := delimitsEnvironment) fun _ => rfl]
    · simpa [Family.Opens, Family.has, ← braces.kind] using opens
    · simpa [Family.Closes, Family.has, ← closers.kind] using closes
    · rw [begins, spelled]
      exact .keep (alike_self (D.lasts.delimiter _ _)) result

/-! ### Sources -/

/-- A comment ends where its line ends. -/
theorem gap_lexChars {cs : List Char} (stops : ∀ c ∈ cs.head?, c = '\n') :
    Gap True (lexChars cs) := by
  cases cs with
  | nil =>
    rw [lexChars]
    trivial
  | cons c cs =>
    obtain rfl := stops c rfl
    rw [lexChars, nextFrom_of_isBlank (by decide)]
    rfl

theorem thins_lexChars (allowed : D.comments) (cs : List Char)
    (holds : ∀ t ∈ lexChars cs, D.holds t) :
    Thins D True (lexChars cs) ((lexChars cs).filter (!·.kind.comment)) := by
  fun_induction lexChars cs with
  | case1 => exact .nil
  | case2 c cs ih =>
    obtain ⟨here, later⟩ := List.forall_mem_cons.mp holds
    have kept : (nextFrom c cs).1.kind.comment = false → Thins D True
        ((nextFrom c cs).1 :: lexChars (nextFrom c cs).2)
        (((nextFrom c cs).1 :: lexChars (nextFrom c cs).2).filter (!·.kind.comment)) := by
      intro heard
      rw [List.filter_cons_of_pos (by simp [heard])]
      exact .keep (alike_self here) (ih later)
    rcases nextFrom_cases c cs with
      ⟨-, read⟩ | ⟨-, read⟩ | ⟨b, rest, -, -, -, read⟩ | ⟨-, respells⟩
    · have ends : ∀ c ∈ (cs.dropWhile (· != '\n')).head?, c = '\n' := fun c first => by
        have stops := List.head?_dropWhile_not (· != '\n') cs
        rw [first] at stops
        simpa using stops
      rw [read] at ih later ⊢
      rw [List.filter_cons_of_neg (by simp [remark])]
      exact .drop allowed rfl (gap_lexChars ends) (ih later)
    · exact kept (by rw [read]; rfl)
    · exact kept (by rw [read]; rfl)
    · obtain ⟨_, _, _, heard, _⟩ := respells
      exact kept heard

/-- A source without its comments. -/
theorem thins_lex (allowed : D.comments) (source : String)
    (holds : ∀ t ∈ lex source, D.holds t) :
    Thins D True (lex source) ((lex source).filter (!·.kind.comment)) :=
  thins_lexChars allowed source.toList holds

end TexFormula
