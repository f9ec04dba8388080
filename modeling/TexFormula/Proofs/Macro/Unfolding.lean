import TexFormula.Proofs.Macro.Completeness

/-! Unfolding. What a complete list stands for can be said without rounds and without pairs: a call
stands for what its filled body stands for, and what is behind it stands for itself. There is at
most one such list. It does not matter whether the calls in a body are unfolded before the
placeholders are filled or afterwards. -/
namespace TexFormula.Macro
open Token Pairing

/-- A token list, and the list without calls that it stands for. -/
inductive Unfolds (table : Table) : List Token → List Token → Prop
  | nil : Unfolds table [] []
  | token {t rest out} (uncalled : table.callee? t = none) (plain : t.kind.curly = false)
    (more : Unfolds table rest out) : Unfolds table (t :: rest) (t.unpaired :: out)
  | group {opener inner closer rest within out} (braces : Braces opener closer)
    (inside : Unfolds table inner within) (more : Unfolds table rest out) :
    Unfolds table (opener :: (inner ++ closer :: rest))
      (opener.unpaired :: (within ++ closer.unpaired :: out))
  | call {t m rest arguments after here out} (called : table.callee? t = some m)
    (plain : t.kind.curly = false) (takes : Takes m.arity rest arguments after)
    (body : Unfolds table (fill arguments m.body) here) (more : Unfolds table after out) :
    Unfolds table (t :: rest) (here ++ out)

variable {table other : Table} {t opener closer : Token} {m : Macro} {n : Nat}
  {tokens body flat front inner rest after out : List Token} {arguments : List (List Token)}

theorem Unfolds.nested (unfolds : Unfolds table tokens out) :
    Nested (wordOf Family.curly.mark? tokens) := by
  induction unfolds with
  | nil => exact .nil
  | token _ plain _ ih => rwa [wordOf_cons_of_none (mark?_of_plain plain)]
  | group braces _ _ inside more =>
    rw [wordOf_cons_of_some braces.mark?_opener, wordOf_append,
      wordOf_cons_of_some braces.mark?_closer]
    exact .group _ inside more
  | call _ plain takes _ _ _ more =>
    rw [wordOf_cons_of_none (mark?_of_plain plain)]
    exact takes.nested more

/-! ### One step -/

theorem Braces.callee?_eq_none (braces : Braces opener closer) :
    table.callee? opener = none ∧ table.callee? closer = none := by
  simp [Table.callee?, braces.uncalled.1, braces.uncalled.2]

theorem Braces.curly (braces : Braces opener closer) : opener.kind.curly = true :=
  braces.opens.1

theorem unfolds_nil : Unfolds table [] out ↔ out = [] := by
  constructor
  · intro unfolds
    cases unfolds
    rfl
  · rintro rfl
    exact .nil

theorem unfolds_token (uncalled : table.callee? t = none) (plain : t.kind.curly = false) :
    Unfolds table (t :: rest) out ↔ ∃ more, out = t.unpaired :: more ∧ Unfolds table rest more := by
  constructor
  · intro unfolds
    cases unfolds with
    | token _ _ more => exact ⟨_, rfl, more⟩
    | group braces => exact absurd (plain.symm.trans braces.curly) Bool.false_ne_true
    | call called => exact absurd (uncalled.symm.trans called) (by simp)
  · rintro ⟨more, rfl, unfolds⟩
    exact .token uncalled plain unfolds

theorem unfolds_group (braces : Braces opener closer)
    (nested : Nested (wordOf Family.curly.mark? inner)) :
    Unfolds table (opener :: (inner ++ closer :: rest)) out ↔
      ∃ within more, out = opener.unpaired :: (within ++ closer.unpaired :: more) ∧
        Unfolds table inner within ∧ Unfolds table rest more := by
  constructor
  · intro unfolds
    generalize same : opener :: (inner ++ closer :: rest) = whole at unfolds
    cases unfolds with
    | nil => cases same
    | token _ plain =>
      cases same
      exact absurd (plain.symm.trans braces.curly) Bool.false_ne_true
    | group braces' inside more =>
      obtain ⟨rfl, behind⟩ := List.cons.inj same
      obtain ⟨rfl, rfl, rfl⟩ := group_unique behind braces braces' nested inside.nested
      exact ⟨_, _, rfl, inside, more⟩
    | call _ plain =>
      cases same
      exact absurd (plain.symm.trans braces.curly) Bool.false_ne_true
  · rintro ⟨within, more, rfl, inside, unfolds⟩
    exact .group braces inside unfolds

theorem unfolds_call (called : table.callee? t = some m) (plain : t.kind.curly = false)
    (takes : Takes m.arity rest arguments after) :
    Unfolds table (t :: rest) out ↔ ∃ here more, out = here ++ more ∧
      Unfolds table (fill arguments m.body) here ∧ Unfolds table after more := by
  constructor
  · intro unfolds
    cases unfolds with
    | token uncalled => exact absurd (uncalled.symm.trans called) (by simp)
    | group braces => exact absurd (plain.symm.trans braces.curly) Bool.false_ne_true
    | call called' _ takes' body more =>
      cases called.symm.trans called'
      obtain ⟨rfl, rfl⟩ := takes.unique takes'
      exact ⟨_, _, rfl, body, more⟩
  · rintro ⟨here, more, rfl, body, unfolds⟩
    exact .call called plain takes body unfolds

/-! ### Runs -/

/-- A list stands for one list only. -/
theorem Unfolds.unique {others : List Token} (unfolds : Unfolds table tokens out)
    (again : Unfolds table tokens others) : out = others := by
  induction unfolds generalizing others with
  | nil => exact (unfolds_nil.mp again).symm
  | token uncalled plain _ ih =>
    obtain ⟨more, rfl, later⟩ := (unfolds_token uncalled plain).mp again
    rw [ih later]
  | group braces inside _ inside_ih ih =>
    obtain ⟨within, more, rfl, first, later⟩ := (unfolds_group braces inside.nested).mp again
    rw [inside_ih first, ih later]
  | call called plain takes _ _ body_ih ih =>
    obtain ⟨here, more, rfl, first, later⟩ := (unfolds_call called plain takes).mp again
    rw [body_ih first, ih later]

theorem Unfolds.append {more : List Token} (unfolds : Unfolds table front out)
    (behind : Unfolds table rest more) : Unfolds table (front ++ rest) (out ++ more) := by
  induction unfolds with
  | nil => exact behind
  | token uncalled plain _ ih => exact .token uncalled plain ih
  | group braces inside _ _ ih =>
    simp only [List.cons_append, List.append_assoc]
    exact .group braces inside ih
  | call called plain takes body _ _ ih =>
    rw [List.append_assoc]
    exact .call called plain (takes.append rest) body ih

/-- What stands behind a complete list has no part in what that list stands for. -/
theorem Unfolds.split (complete : Complete table front)
    (unfolds : Unfolds table (front ++ rest) out) :
    ∃ first more, out = first ++ more ∧ Unfolds table front first ∧ Unfolds table rest more := by
  induction complete generalizing out with
  | nil => exact ⟨[], out, rfl, .nil, unfolds⟩
  | token uncalled plain _ ih =>
    obtain ⟨_, rfl, later⟩ := (unfolds_token uncalled plain).mp unfolds
    obtain ⟨first, more, rfl, front, behind⟩ := ih later
    exact ⟨_ :: first, more, rfl, .token uncalled plain front, behind⟩
  | group braces inside _ _ ih =>
    rw [List.cons_append, List.append_assoc, List.cons_append] at unfolds
    obtain ⟨within, _, rfl, first, later⟩ := (unfolds_group braces inside.nested).mp unfolds
    obtain ⟨last, more, rfl, front, behind⟩ := ih later
    exact ⟨_, more, by simp, .group braces first front, behind⟩
  | call called plain _ takes _ _ _ ih =>
    obtain ⟨here, _, rfl, body, later⟩ :=
      (unfolds_call called plain (takes.append rest)).mp unfolds
    obtain ⟨last, more, rfl, front, behind⟩ := ih later
    exact ⟨here ++ last, more, by simp, .call called plain takes body front, behind⟩

/-- A complete list without calls stands for itself. -/
theorem Complete.unfolds (complete : Complete table tokens)
    (uncalled : ∀ t ∈ tokens, table.callee? t = none) :
    Unfolds table tokens (tokens.map unpaired) := by
  induction complete with
  | nil => exact .nil
  | token absent plain _ ih =>
    exact .token absent plain (ih fun u member => uncalled u (List.mem_cons_of_mem _ member))
  | group braces _ _ inside ih =>
    obtain ⟨_, later⟩ := List.forall_mem_cons.mp uncalled
    obtain ⟨within, behind⟩ := List.forall_mem_append.mp later
    rw [List.map_cons, List.map_append, List.map_cons]
    exact .group braces (inside within) (ih (List.forall_mem_cons.mp behind).2)
  | call called =>
    have absent := uncalled _ List.mem_cons_self
    rw [called] at absent
    cases absent

theorem Unfolds.uncalled (unfolds : Unfolds table tokens out) :
    ∀ t ∈ out, table.callee? t = none := by
  induction unfolds with
  | nil => simp
  | token absent _ _ ih => exact List.forall_mem_cons.mpr ⟨absent, ih⟩
  | group braces _ _ inside ih =>
    exact List.forall_mem_cons.mpr ⟨braces.callee?_eq_none.1,
      List.forall_mem_append.mpr ⟨inside, List.forall_mem_cons.mpr ⟨braces.callee?_eq_none.2, ih⟩⟩⟩
  | call _ _ _ _ _ body ih => exact List.forall_mem_append.mpr ⟨body, ih⟩

/-- Offsets do not matter to what a list stands for. -/
theorem Unfolds.map_unpaired (unfolds : Unfolds table tokens out) :
    Unfolds table (tokens.map unpaired) out := by
  induction unfolds with
  | nil => exact .nil
  | @token t rest out uncalled plain _ ih => exact .token (t := t.unpaired) uncalled plain ih
  | group braces _ _ inside ih =>
    rw [List.map_cons, List.map_append, List.map_cons]
    exact .group (braces_unpaired.mpr braces) inside ih
  | @call t m rest arguments after here out called plain takes body _ _ ih =>
    rw [List.map_cons]
    exact .call (t := t.unpaired) called plain takes.map_unpaired (by rwa [fill_arguments_unpaired])
      ih

/-- What a list stands for is complete. -/
theorem Unfolds.complete (unfolds : Unfolds table tokens out) : Complete table out := by
  induction unfolds with
  | nil => exact .nil
  | token absent plain _ ih => exact .token absent plain ih
  | group braces _ _ inside ih => exact .group (braces_unpaired.mpr braces) inside ih
  | call _ _ _ _ _ body ih => exact body.append ih

/-! ### Filling -/

/-- A table whose bodies are complete. -/
def Table.Complete (table : Table) : Prop :=
  ∀ t m, table.callee? t = some m → Macro.Complete table m.body

/-- A table whose calls have an argument for every placeholder. -/
def Table.Bounded (table : Table) : Prop :=
  ∀ t m, table.callee? t = some m → ∀ u ∈ m.body, ∀ k, placeholder? u = some k → k ≤ m.arity

/-- The arguments that the first call of a complete list takes are complete. -/
theorem Complete.of_call (complete : Complete table (t :: rest)) (called : table.callee? t = some m)
    (takes : Takes m.arity rest arguments after) :
    t.kind.argument = false ∧ (∀ a ∈ arguments, Complete table a) ∧ Complete table after := by
  cases complete with
  | token uncalled => exact absurd (uncalled.symm.trans called) (by simp)
  | group braces => exact absurd (called.symm.trans braces.callee?_eq_none.1) (by simp)
  | call called' _ fixed takes' inside more =>
    cases called.symm.trans called'
    obtain ⟨rfl, rfl⟩ := takes.unique takes'
    exact ⟨fixed, inside, more⟩

theorem Complete.of_token (complete : Complete table (t :: rest))
    (uncalled : table.callee? t = none) (plain : t.kind.curly = false) : Complete table rest := by
  cases complete with
  | token _ _ more => exact more
  | group braces => exact absurd (plain.symm.trans braces.curly) Bool.false_ne_true
  | call called => exact absurd (uncalled.symm.trans called) (by simp)

theorem Complete.of_group (complete : Complete table (opener :: (inner ++ closer :: rest)))
    (braces : Braces opener closer) (nested : Nested (wordOf Family.curly.mark? inner)) :
    Complete table inner ∧ Complete table rest := by
  generalize same : opener :: (inner ++ closer :: rest) = whole at complete
  cases complete with
  | nil => cases same
  | token _ plain =>
    cases same
    exact absurd (plain.symm.trans braces.curly) Bool.false_ne_true
  | group braces' inside more =>
    obtain ⟨rfl, behind⟩ := List.cons.inj same
    obtain ⟨rfl, rfl, rfl⟩ := group_unique behind braces braces' nested inside.nested
    exact ⟨inside, more⟩
  | call _ plain =>
    cases same
    exact absurd (plain.symm.trans braces.curly) Bool.false_ne_true

/-- A body whose calls are unfolded, filled with arguments, stands for what the body itself stands
for with these arguments. -/
theorem Unfolds.fill (bodies : table.Complete) (bounded : table.Bounded)
    (unfolds : Unfolds table body flat) (complete : Complete table body)
    (given : ∀ a ∈ arguments, Complete table a) (filled : Unfolds table (fill arguments flat) out) :
    Unfolds table (fill arguments body) out := by
  have unpaired_given : ∀ a ∈ arguments, Complete table (a.map unpaired) := fun a member =>
    (given a member).map_unpaired
  induction unfolds generalizing out with
  | nil => exact filled
  | @token t rest more uncalled plain unfolds ih =>
    rw [fill_cons, fillToken_unpaired] at filled
    have token : Complete table (fillToken arguments t) := by
      have alone : Complete table (Macro.fill arguments [t]) :=
        Complete.fill (.token uncalled plain .nil) unpaired_given
      rwa [fill_cons, fill_nil, List.append_nil] at alone
    obtain ⟨first, last, rfl, front, behind⟩ := filled.split token
    rw [fill_cons]
    exact front.append (ih (complete.of_token uncalled plain) behind)
  | @group opener inner closer rest within more braces inside unfolds inside_ih ih =>
    obtain ⟨complete_inner, complete_rest⟩ := complete.of_group braces inside.nested
    simp only [fill_cons, fill_append, fillToken_unpaired, fillToken_of_fixed braces.fixed.1,
      fillToken_of_fixed braces.fixed.2, List.singleton_append] at filled ⊢
    have nested := (inside.complete.fill unpaired_given).nested
    obtain ⟨first, last, rfl, front, behind⟩ :=
      (unfolds_group (braces_unpaired.mpr braces) nested).mp filled
    exact .group (braces_unpaired.mpr braces) (inside_ih complete_inner front)
      (ih complete_rest behind)
  | @call t m rest taken after here more called plain takes unfolds_body unfolds body_ih ih =>
    obtain ⟨fixed, complete_taken, complete_after⟩ := complete.of_call called takes
    rw [fill_append] at filled
    obtain ⟨first, last, rfl, front, behind⟩ :=
      filled.split (unfolds_body.complete.fill unpaired_given)
    have complete_body := (bodies t m called).fill fun a member =>
      (complete_taken a member).map_unpaired
    have unfolded := body_ih complete_body front
    rw [fill_fill (takes.length ▸ bounded t m called)] at unfolded
    rw [fill_cons, fillToken_of_fixed fixed, List.singleton_append]
    exact .call (t := t.unpaired) called plain
      (takes.fill fun a member => ((complete_taken a member).fill unpaired_given).nested) unfolded
      (ih complete_after behind)

end TexFormula.Macro
