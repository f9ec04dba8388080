import TexFormula.Proofs.Token.Settled
import TexFormula.Proofs.Token.Texts

/-! Texts before the passes and behind them. A command that stands for a text can be replaced by the
tokens of the text as they are read, or by the tokens that the passes make of the text. Both come to
the same where the text is whole, so that nothing in it waits for what stands behind it, and where
the passes leave the commands as they were read. -/
namespace TexFormula.Token
open Pairing

/-- The tokens of a text, ready for parsing but for the pairs. -/
def bodyOf (text : String) : List Token :=
  match tokenize text with
  | .ok body => body.map unpaired
  | .error _ => []

/-- A text that can be made ready for parsing by itself, with nothing left to complete in it. -/
def Whole (text : String) : Prop :=
  ∃ body, tokenize text = .ok body ∧ ∀ t ∈ body, t.Settled

variable {text? : String → Option String} {read : String → List Token} {text : String} {t : Token}
  {tokens front rest out : List Token}

/-! ### Environments -/

section Group
variable {brace close : Token} {name after : List Token}
  (coherent : ∀ u ∈ t :: rest, u.kind.Coherent)
  (group : rest.dropWhile isBlank = brace :: (name ++ close :: after))
include coherent group

theorem coherent_group :
    brace.kind.Coherent ∧ close.kind.Coherent ∧ ∀ u ∈ after, u.kind.Coherent := by
  have inside : ∀ u ∈ brace :: (name ++ close :: after), u.kind.Coherent := fun u member =>
    coherent u (List.mem_cons_of_mem _ ((List.dropWhile_suffix isBlank).subset (group ▸ member)))
  exact ⟨inside brace (by simp), inside close (by simp),
    fun u member => inside u (by simp [member])⟩

variable (opens : Family.curly.Opens brace) (closes : Family.curly.Closes close)
include opens closes

/-- The texts of a list that starts with an environment are those in its name and behind it. -/
theorem countP_group :
    (t :: rest).countP (hasText text?) = (if hasText text? t = true then 1 else 0) +
      name.countP (hasText text?) + after.countP (hasText text?) := by
  obtain ⟨coherent_brace, coherent_close, _⟩ := coherent_group coherent group
  rw [List.countP_cons, ← countP_dropWhile_isBlank, group, List.countP_cons, List.countP_append,
    List.countP_cons, hasText_of_curly coherent_brace opens.1,
    hasText_of_curly coherent_close closes.1]
  simp only [Bool.false_eq_true, if_false]
  omega

end Group

/-- Collapsing takes tokens away and puts no command in their place. -/
theorem Collapsed.countP_le (collapsed : Collapsed tokens out)
    (coherent : ∀ t ∈ tokens, t.kind.Coherent) :
    out.countP (hasText text?) ≤ tokens.countP (hasText text?) := by
  induction collapsed with
  | nil => exact Nat.le_refl _
  | keep plain _ ih =>
    rw [List.countP_cons, List.countP_cons, hasText_unpaired]
    exact Nat.add_le_add_right (ih (List.forall_mem_cons.mp coherent).2) _
  | @delimiter t rest brace name close after out _ group opens _ closes _ ih =>
    have fewer := ih (coherent_group coherent group).2.2
    rw [countP_group coherent group opens closes, List.countP_cons_of_neg Bool.false_ne_true]
    omega

/-- Where every text is left, none of them stood in the name of an environment. -/
theorem bare_of_counted {brace close : Token} {name after : List Token} {opened : Bool}
    {spelled : List Char} (coherent : ∀ u ∈ t :: rest, u.kind.Coherent)
    (group : rest.dropWhile isBlank = brace :: (name ++ close :: after))
    (opens : Family.curly.Opens brace) (closes : Family.curly.Closes close)
    (more : Collapsed after out)
    (counted : (environmentDelimiter opened spelled :: out).countP (hasText text?) =
      (t :: rest).countP (hasText text?)) :
    hasText text? t = false ∧ (∀ u ∈ name, hasText text? u = false) ∧
      out.countP (hasText text?) = after.countP (hasText text?) := by
  have fewer : out.countP (hasText text?) ≤ after.countP (hasText text?) :=
    more.countP_le (coherent_group coherent group).2.2
  rw [countP_group coherent group opens closes, List.countP_cons_of_neg Bool.false_ne_true]
    at counted
  refine ⟨?_, ?_, by omega⟩
  · refine Bool.eq_false_iff.mpr fun stands => ?_
    rw [if_pos stands] at counted
    omega
  · have none : name.countP (hasText text?) = 0 := by omega
    simpa [List.countP_eq_zero] using none

/-- Where every text is left, each token with a text is. -/
theorem Collapsed.mem_of_counted (collapsed : Collapsed tokens out)
    (coherent : ∀ t ∈ tokens, t.kind.Coherent)
    (counted : out.countP (hasText text?) = tokens.countP (hasText text?)) :
    ∀ t ∈ tokens, hasText text? t = true → t.unpaired ∈ out := by
  induction collapsed with
  | nil => simp
  | keep plain _ ih =>
    rw [List.countP_cons, List.countP_cons, hasText_unpaired, Nat.add_right_cancel_iff] at counted
    intro u member stands
    rcases List.mem_cons.mp member with rfl | member
    · exact List.mem_cons_self
    · exact List.mem_cons_of_mem _ (ih (List.forall_mem_cons.mp coherent).2 counted u member stands)
  | @delimiter t rest brace name close after out _ group opens _ closes more ih =>
    obtain ⟨bare, bare_name, counted_after⟩ :=
      bare_of_counted coherent group opens closes more counted
    obtain ⟨coherent_brace, coherent_close, later⟩ := coherent_group coherent group
    intro u member stands
    have absurd_of_bare : hasText text? u = false → False := fun none => by
      rw [none] at stands
      cases stands
    rcases List.mem_cons.mp member with rfl | member
    · exact (absurd_of_bare bare).elim
    · rw [← List.takeWhile_append_dropWhile (p := isBlank) (l := rest), group] at member
      simp only [List.mem_append, List.mem_cons] at member
      rcases member with blank | rfl | inside | rfl | behind
      · exact (absurd_of_bare (hasText_of_isBlank (List.mem_takeWhile_imp blank))).elim
      · exact (absurd_of_bare (hasText_of_curly coherent_brace opens.1)).elim
      · exact (absurd_of_bare (bare_name u inside)).elim
      · exact (absurd_of_bare (hasText_of_curly coherent_close closes.1)).elim
      · exact List.mem_cons_of_mem _ (ih later counted_after u behind stands)

/-- In front of collapsed tokens, collapsed tokens stay as they are if nothing in them is left to
complete. -/
theorem Collapsed.append {more : List Token} (collapsed : Collapsed front out)
    (settled : ∀ t ∈ out, t.Settled) (behind : Collapsed rest more) :
    Collapsed (front ++ rest) (out ++ more) := by
  induction collapsed with
  | nil => exact behind
  | @keep t tail out plain _ ih =>
    obtain ⟨here, later⟩ := List.forall_mem_cons.mp settled
    exact .keep (not_takesGroup here) (ih later)
  | @delimiter t tail brace name close after out delimits group opens nested closes _ ih =>
    have group' : (tail ++ rest).dropWhile isBlank =
        brace :: (name ++ close :: (after ++ rest)) := by
      rw [List.dropWhile_append, group]
      simp
    exact .delimiter delimits group' opens nested closes (ih (List.forall_mem_cons.mp settled).2)

/-- A command at the end of a list is never part of an environment. -/
theorem Collapsed.mem_of_suffix (collapsed : Collapsed tokens out)
    (coherent : ∀ t ∈ tokens, t.kind.Coherent) (last : [t] <:+ tokens)
    (command : t.isCommand = true) : t.unpaired ∈ out := by
  induction collapsed with
  | nil => simp at last
  | @keep u rest out plain _ ih =>
    rcases List.suffix_cons_iff.mp last with same | last
    · cases same
      exact List.mem_cons_self
    · exact List.mem_cons_of_mem _ (ih (List.forall_mem_cons.mp coherent).2 last)
  | @delimiter u rest brace name close after out _ group _ _ closes _ ih =>
    obtain ⟨_, coherent_close, later⟩ := coherent_group coherent group
    have last_rest : [t] <:+ rest := by
      rcases List.suffix_cons_iff.mp last with same | last
      · cases same
        cases group
      · exact last
    have closing : close :: after <:+ rest :=
      (List.suffix_append (brace :: name) _).trans
        ((List.cons_append ▸ group) ▸ List.dropWhile_suffix isBlank)
    have short : [t].length ≤ (close :: after).length := Nat.succ_le_succ (Nat.zero_le _)
    rcases List.suffix_cons_iff.mp (List.suffix_of_suffix_length_le last_rest closing short) with
      same | behind
    · cases same
      cases (isCommand_of_curly coherent_close closes.1).symm.trans command
    · exact List.mem_cons_of_mem _ (ih later behind)

/-! ### Whole texts -/

/-- The tokens of a prepared source, without the pairs. -/
theorem collapsed_of_tokenize {source : String} (done : tokenize source = .ok tokens) :
    Nested (wordOf Family.curly.mark? (absorbSizing (lex source))) ∧
      Collapsed (absorbSizing (lex source)) (tokens.map unpaired) := by
  obtain ⟨p⟩ := prepare_eq_ok_iff.mp done
  have nested := strictLinks_ok_iff_nested.mp ⟨p.braces, p.braces_found⟩
  have collapsed := collapsed_unlinked p.braces_found
  rw [← p.collapsed_eq] at collapsed
  rw [p.map_unpaired_prepared, map_unpaired_of_fresh (p.fresh_collapsed (coherent_lex source)),
    ← unlinked_lex]
  exact ⟨nested, collapsed⟩

/-- What the passes make of a whole text. -/
theorem Whole.collapsed (whole : Whole text) :
    Nested (wordOf Family.curly.mark? (absorbSizing (lex text))) ∧
      Collapsed (absorbSizing (lex text)) (bodyOf text) ∧ ∀ t ∈ bodyOf text, t.Settled := by
  obtain ⟨body, done, settled⟩ := whole
  obtain ⟨nested, collapsed⟩ := collapsed_of_tokenize done
  have same : bodyOf text = body.map unpaired := by rw [bodyOf, done]
  rw [same]
  exact ⟨nested, collapsed, persistent_settled.map_unpaired settled⟩

/-- A whole text does not end in a sizing command. -/
theorem Whole.ends (whole : Whole text) (last : [t] <:+ absorbSizing (lex text)) :
    Sizing.ofToken? t = none := by
  obtain ⟨_, collapsed, settled⟩ := whole.collapsed
  by_cases command : t.isCommand = true
  · have member := collapsed.mem_of_suffix (coherent_absorbSizing (coherent_lex text)) last command
    exact (settled t.unpaired member).1
  · simp [Sizing.ofToken?, command]

/-- Environments are collapsed in the text around and in the texts by themselves, if no command with
a text stands in the name of an environment. -/
theorem Collapsed.inlined (collapsed : Collapsed tokens out)
    (coherent : ∀ t ∈ tokens, t.kind.Coherent)
    (whole : ∀ t ∈ tokens, ∀ text, textOf? text? t = some text → Whole text)
    (settled : ∀ t ∈ out, t.Settled)
    (counted : out.countP (hasText text?) = tokens.countP (hasText text?)) :
    Collapsed (inline text? (fun text => absorbSizing (lex text)) tokens)
      (inline text? bodyOf out) := by
  induction collapsed with
  | nil => exact .nil
  | @keep t rest out plain _ ih =>
    obtain ⟨here, later⟩ := List.forall_mem_cons.mp settled
    obtain ⟨whole_here, whole_later⟩ := List.forall_mem_cons.mp whole
    rw [List.countP_cons, List.countP_cons, hasText_unpaired, Nat.add_right_cancel_iff] at counted
    have inside := ih (List.forall_mem_cons.mp coherent).2 whole_later later counted
    cases stands : textOf? text? t with
    | none =>
      rw [inline_cons_of_none stands, inline_cons_of_none (t := t.unpaired) stands]
      exact .keep (not_takesGroup here) inside
    | some text =>
      rw [inline_cons_of_some stands, inline_cons_of_some (t := t.unpaired) stands]
      obtain ⟨_, collapsed, settled_text⟩ := (whole_here text stands).collapsed
      exact collapsed.append settled_text inside
  | @delimiter t rest brace name close after out delimits group opens nested closes more ih =>
    obtain ⟨bare, bare_name, counted_after⟩ :=
      bare_of_counted coherent group opens closes more counted
    obtain ⟨coherent_brace, coherent_close, later⟩ := coherent_group coherent group
    have bare_brace : hasText text? brace = false := hasText_of_curly coherent_brace opens.1
    have bare_close : hasText text? close = false := hasText_of_curly coherent_close closes.1
    have group' :
        (inline text? (fun text => absorbSizing (lex text)) rest).dropWhile isBlank =
          brace :: (name ++ close :: inline text? (fun text => absorbSizing (lex text)) after) := by
      rw [dropWhile_inline group bare_brace, inline_append, inline_of_bare bare_name,
        inline_cons_of_none (hasText_eq_false.mp bare_close)]
    rw [inline_cons_of_none (hasText_eq_false.mp bare), inline_cons_of_none rfl]
    refine .delimiter delimits group' opens nested closes
      (ih later (fun u member => whole u ?_) (List.forall_mem_cons.mp settled).2 counted_after)
    exact List.mem_cons_of_mem _ ((List.dropWhile_suffix isBlank).subset (by simp [group, member]))

/-- Nested texts do not change how the braces around them are nested. -/
theorem settles_inline {waiting : List Bracket} (coherent : ∀ t ∈ tokens, t.kind.Coherent)
    (nested : ∀ t ∈ tokens, ∀ text, textOf? text? t = some text →
      Nested (wordOf Family.curly.mark? (read text))) :
    Settles waiting (wordOf Family.curly.mark? (inline text? read tokens)) ↔
      Settles waiting (wordOf Family.curly.mark? tokens) := by
  induction tokens generalizing waiting with
  | nil => rfl
  | cons t rest ih =>
    obtain ⟨here, later⟩ := List.forall_mem_cons.mp coherent
    obtain ⟨nested_here, nested_later⟩ := List.forall_mem_cons.mp nested
    have behind := fun waiting => @ih waiting later nested_later
    cases stands : textOf? text? t with
    | some text =>
      have command := isCommand_of_hasText (hasText_of_some stands)
      simp only [isCommand, Bool.and_eq_true] at command
      have plain := mark?_of_command here command.1
      rw [inline_cons_of_some stands, wordOf_append, settles_append (nested_here text stands),
        wordOf_cons_of_none plain, behind]
    | none =>
      rw [inline_cons_of_none stands]
      cases marked : Family.curly.mark? t with
      | none => rw [wordOf_cons_of_none marked, wordOf_cons_of_none marked, behind]
      | some m =>
        rw [wordOf_cons_of_some marked, wordOf_cons_of_some marked]
        cases m with
        | opens b => rw [settles_opens, settles_opens, behind]
        | closes b => simp only [settles_closes, behind]

theorem fresh_inline (source : String) : ∀ t ∈ inline text? lex (lex source), t.Fresh := by
  intro t member
  rcases mem_inline member with ⟨member, _⟩ | ⟨_, _, text, _, member⟩
  · exact fresh_lex source t member
  · exact fresh_lex text t member

section Inline
variable {source : String}
  (whole : ∀ t ∈ lex source, ∀ text, textOf? text? t = some text → Whole text)
  (done : tokenize source = .ok tokens) (settled : ∀ t ∈ tokens, t.Settled)
  (kept : (tokens.map unpaired).filter (hasText text?) = (lex source).filter (hasText text?))
include whole done settled kept

/-- What is left to pair when the texts were put in before the passes. -/
theorem collapsed_inline :
    Nested (wordOf Family.curly.mark? (unlinked (inline text? lex (lex source)))) ∧
      Collapsed (unlinked (inline text? lex (lex source)))
        (inline text? bodyOf (tokens.map unpaired)) := by
  obtain ⟨nested, collapsed⟩ := collapsed_of_tokenize done
  have coherent := coherent_absorbSizing (coherent_lex source)
  have settled := persistent_settled.map_unpaired settled
  -- No pass makes texts more, and in the end there are as many as at first.
  have same := congrArg List.length kept
  rw [← List.countP_eq_length_filter, ← List.countP_eq_length_filter] at same
  have fewer : (absorbSizing (lex source)).countP (hasText text?) ≤
      (lex source).countP (hasText text?) := countP_absorbSizing_le
  have fewer' : (tokens.map unpaired).countP (hasText text?) ≤
      (absorbSizing (lex source)).countP (hasText text?) := collapsed.countP_le coherent
  have counted := Nat.le_antisymm fewer (same ▸ fewer')
  have counted' := Nat.le_antisymm fewer' (same ▸ fewer)
  have left : ∀ t ∈ absorbSizing (lex source), hasText text? t = true →
      t.unpaired.Settled ∧ t.unpaired ∈ lex source := by
    intro t member stands
    have inside := collapsed.mem_of_counted coherent counted' t member stands
    have read : t.unpaired ∈ (lex source).filter (hasText text?) :=
      kept ▸ List.mem_filter.mpr ⟨inside, stands⟩
    exact ⟨settled _ inside, (List.mem_filter.mp read).1⟩
  have whole' : ∀ t ∈ absorbSizing (lex source), ∀ text, textOf? text? t = some text →
      Whole text := fun t member text stands =>
    whole _ (left t member (hasText_of_some stands)).2 text stands
  have ends := fun t member text stands u => (whole t member text stands).ends (t := u)
  have sized := absorbSizing_inline ends counted fun t member stands =>
    ⟨(left t member stands).1.1, (lexeme_lex source _ (left t member stands).2).kind⟩
  rw [unlinked, map_unpaired_of_fresh (fresh_absorbSizing (fresh_inline source)), sized]
  refine ⟨?_, collapsed.inlined coherent whole' settled counted'⟩
  rw [nested_iff_settles, settles_inline coherent fun t member text stands =>
    (whole' t member text stands).collapsed.1, ← nested_iff_settles]
  exact nested

/-- Whole texts can be put in place of commands before the passes or behind them, as long as
nothing in the tokens is left to complete and the passes leave every command that stands for a text
as it was read. -/
theorem prepare_inline :
    prepare (inline text? bodyOf (tokens.map unpaired)) =
      prepare (inline text? lex (lex source)) := by
  obtain ⟨nested, collapsed⟩ := collapsed_inline whole done settled kept
  have coherent : ∀ t ∈ inline text? lex (lex source), t.kind.Coherent := fun t member =>
    (fresh_inline source t member).1
  have nested' :
      Nested (wordOf Family.curly.mark? (inline text? bodyOf (tokens.map unpaired))) := by
    rw [nested_iff_settles, collapsed.settles_iff (coherent_unlinked coherent),
      ← nested_iff_settles]
    exact nested
  have left : ∀ t ∈ inline text? bodyOf (tokens.map unpaired), t.unpaired = t ∧ t.Settled := by
    intro t member
    rcases mem_inline member with ⟨member, _⟩ | ⟨u, member, text, stands, inside⟩
    · obtain ⟨u, inside, rfl⟩ := List.mem_map.mp member
      exact ⟨rfl, settled u inside⟩
    · have read : u ∈ (lex source).filter (hasText text?) :=
        kept ▸ List.mem_filter.mpr ⟨member, hasText_of_some stands⟩
      obtain ⟨body, prepared, settled⟩ := whole u (List.mem_filter.mp read).1 text stands
      simp only [bodyOf, prepared] at inside
      obtain ⟨v, within, rfl⟩ := List.mem_map.mp inside
      exact ⟨rfl, settled v within⟩
  have alone := (List.map_congr_left fun t member => (left t member).1).trans (List.map_id _)
  have bare := unlinked_of_settled alone fun t member => (left t member).2
  have stays := collapsed_of_settled fun t member => (left t member).2
  rw [alone] at stays
  exact prepare_eq_of_collapsed (bare.symm ▸ nested') nested (bare.symm ▸ stays) collapsed

end Inline

end TexFormula.Token
