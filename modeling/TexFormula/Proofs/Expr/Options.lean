import TexFormula.Plan.Step
import TexFormula.Proofs.Expr.Popping
import TexFormula.Proofs.Expr.Positions
import TexFormula.Proofs.Token.Fences
import TexFormula.Proofs.Token.Origins

/-! Optional arguments. What a command takes in square brackets starts at a bracket that opens and
is no fence, so a size command in front of the bracket does not keep it from being taken, and the
partner can be a bracket of any size, a fence or an escaped bracket. A pair of such brackets where
an optional argument is looked for is taken exactly if the first one encloses what is between them
(`option_brackets_of_any_size`). Where none is looked for, the brackets and what is between them are
content. -/
namespace TexFormula

namespace Token
open Pairing

/-! ### Brackets -/

/-- The size commands of a side. -/
def sizes (side : Side) : List Sizing :=
  (List.finRange 4).map fun level => .size level side

/-- The sizing commands of a side. -/
def sizings (side : Side) : List Sizing :=
  .fence side :: sizes side

/-- All sizing commands, and none. -/
def allSizings : List (Option Sizing) :=
  none :: ([.left, .right, .middle].flatMap sizings).map some

/-- The square brackets that open and are no fences, each with at most one size command in it. -/
def optionOpeners : List Token :=
  (none :: (sizes .left).map some).map fun sizing => sized sizing (single { opens := true } '[')

/-- The square brackets that close, escaped or not, each with at most one sizing command in it. -/
def optionClosers : List Token :=
  (none :: (sizings .right).map some).flatMap fun sizing =>
    [sized sizing (single { closes := true } ']'),
      sized sizing (single { closes := true, escaped := true, fence := true } ']')]

/-- A square bracket that opens and is no fence, of any size. -/
def OpensOption (t : Token) : Prop :=
  t.unpaired ∈ optionOpeners

/-- A square bracket that closes, of any size, a fence or not, escaped or not. -/
def ClosesOption (t : Token) : Prop :=
  t.unpaired ∈ optionClosers

variable {source : String} {tokens : List Token} {t closer : Token}

/-- A token stands behind a sizing command of one of the three sides, or behind none. -/
theorem mem_allSizings (sizing : Option Sizing) : sizing ∈ allSizings := by
  cases sizing with
  | none => exact List.mem_cons_self
  | some s =>
    refine List.mem_cons_of_mem _ (List.mem_map_of_mem (List.mem_flatMap.mpr ?_))
    have sides : ∀ side : Side, side ∈ [.left, .right, .middle] := fun side => by
      cases side <;> decide
    cases s with
    | fence side => exact ⟨side, sides side, List.mem_cons_self⟩
    | size level side =>
      exact ⟨side, sides side, List.mem_cons_of_mem _
        (List.mem_map_of_mem (f := fun level => Sizing.size level side) (List.mem_finRange level))⟩

/-- What is known of a bracket that opens, whatever its size is. -/
theorem OpensOption.facts (opens : t.OpensOption) :
    PlainOpens t ∧ t.isBlank = false ∧ Queue.compositeKind? t = some .options := by
  have each : ∀ t ∈ optionOpeners,
      PlainOpens t ∧ t.isBlank = false ∧ Queue.compositeKind? t = some .options := by decide
  exact each t.unpaired opens

/-- What is known of a bracket that closes, whatever its size is. -/
theorem ClosesOption.facts (closes : t.ClosesOption) : PlainCloses t ∧ t.value = "]" := by
  have each : ∀ t ∈ optionClosers, PlainCloses t ∧ t.value = "]" := by decide
  exact each t.unpaired closes

/-- An expression in square brackets starts with a square bracket that is neither escaped nor a
fence. -/
theorem compositeKind?_eq_options (shape : Queue.compositeKind? t = some .options) :
    t.value = "[" ∧ t.kind.escaped = false ∧ t.kind.fence = false ∧ t.kind.curly = false ∧
      t.kind.env = false := by
  unfold Queue.compositeKind? at shape
  grind

/-- The two brackets fit, of whatever size they are. -/
theorem pairsLoosely_of_options (opens : t.OpensOption) (closes : closer.ClosesOption) :
    pairsLoosely t closer = true := by
  obtain ⟨value, -⟩ := compositeKind?_eq_options opens.facts.2.2
  rw [pairsLoosely, value, closes.facts.2, opposite?]
  simp

/-- What is opened by a bracket of a source is opened by a square bracket of some size. -/
theorem opensOption_of_tokenize (done : tokenize source = .ok tokens) (member : t ∈ tokens)
    (opens : t.kind.opens = true) (shape : Queue.compositeKind? t = some .options) :
    t.OpensOption := by
  obtain ⟨value, bare, unfenced, -, plain⟩ := compositeKind?_eq_options shape
  obtain ⟨sizing, raw, written, same⟩ :=
    square_of_tokenize done member (.inl rfl) value plain (.inl opens)
  have each : ∀ sizing ∈ allSizings, ∀ raw ∈ [(nextFrom '[' []).1, (nextEscaped ['[']).1],
      (sized sizing raw).kind.opens = true → (sized sizing raw).kind.escaped = false →
        (sized sizing raw).kind.fence = false → sized sizing raw ∈ optionOpeners := by decide
  have known : t.unpaired ∈ optionOpeners := by
    rw [← kind_unpaired, same] at opens bare unfenced
    rw [same]
    exact each sizing (mem_allSizings sizing) raw (by simpa using written) opens bare unfenced
  exact known

/-- What is closed by a bracket of a source is closed by a square bracket of some size. -/
theorem closesOption_of_tokenize (done : tokenize source = .ok tokens) (member : t ∈ tokens)
    (closes : PlainCloses t) (value : t.value = "]") : t.ClosesOption := by
  obtain ⟨sizing, raw, written, same⟩ :=
    square_of_tokenize done member (.inr rfl) value closes.2.2.2 (.inr closes.2.1)
  have each : ∀ sizing ∈ allSizings, ∀ raw ∈ [(nextFrom ']' []).1, (nextEscaped [']']).1],
      (sized sizing raw).kind.closes = true → sized sizing raw ∈ optionClosers := by decide
  have known : t.unpaired ∈ optionClosers := by
    have side := closes.2.1
    rw [← kind_unpaired, same] at side
    rw [same]
    exact each sizing (mem_allSizings sizing) raw (by simpa using written) side
  exact known

end Token

/-! ### Expressions in brackets -/

namespace Queue
open Token Pairing

variable {source : String} {tokens part gap inner back : List Token} {opener closer : Token}
  {e : Expr}

/-- An expression with delimiters has the shape that its first token opens, and ends at the partner
of that token. -/
theorem composite_of_mem (member : e ∈ ofTokens part) (composite : e.isComposite = true) :
    compositeKind? e.first = some e.kind ∧ e.first.offset = e.rest.length ∧ e.rest ≠ [] := by
  fun_induction ofTokens part with
  | case1 => cases member
  | case2 t rest blank ih =>
    rcases List.mem_cons.mp member with rfl | later
    · cases composite
    · exact ih later
  | case3 t rest blank kind n found ih =>
    rcases List.mem_cons.mp member with rfl | later
    · unfold composite? at found
      split at found
      case isTrue within =>
        obtain ⟨shape, known, same⟩ := Option.map_eq_some_iff.mp found
        cases same
        refine ⟨known, ?_, ?_⟩
        · simp only [List.length_take]
          omega
        · rw [← List.length_pos_iff, List.length_take]
          omega
      case isFalse => cases found
    · exact ih later
  | case4 t rest blank alone ih =>
    rcases List.mem_cons.mp member with rfl | later
    · cases composite
    · exact ih later

/-- An expression in brackets starts with a bracket that opens and is no fence, and ends with one
that closes, each of some size. The first encloses what is between the two. -/
theorem options_of_mem (done : tokenize source = .ok tokens) (inside : part <:+: tokens)
    (member : e ∈ ofTokens part) (kind : e.kind = .options) :
    ∃ opener inner closer, e = ⟨.options, opener, inner ++ [closer]⟩ ∧ opener.OpensOption ∧
      closer.ClosesOption ∧ Encloses opener inner := by
  obtain ⟨shape, offset, nonempty⟩ := composite_of_mem member (by simp [Expr.isComposite, kind])
  obtain ⟨front, behind, rfl⟩ := (infix_of_mem_ofTokens member).trans inside
  obtain ⟨_, first, rest⟩ := e
  cases kind
  have spelled : front ++ Expr.tokens ⟨.options, first, rest⟩ ++ behind =
      front ++ first :: (rest ++ behind) := by simp [Expr.tokens]
  rw [spelled] at done
  obtain ⟨p⟩ := prepare_eq_ok_iff.mp done
  have length := List.length_pos_iff.mpr nonempty
  simp only at shape offset length
  obtain ⟨value, _, unfenced, plain⟩ := compositeKind?_eq_options shape
  obtain ⟨opens, inner, closer, back, split, reach, encloses, closes, fits⟩ :=
    p.partner_of_forward (coherent_lex source) (by omega) plain
  -- The partner is the last token of the expression.
  have whole : rest = inner ++ [closer] := by
    have cut : rest ++ behind = (inner ++ [closer]) ++ back := by simpa using split
    refine (List.append_inj cut ?_).1
    simp only [List.length_append, List.length_singleton]
    omega
  subst whole
  have counterpart : closer.value = "]" := by
    rw [pairsLoosely, unfenced, value] at fits
    exact (Option.some.inj (eq_of_beq fits)).symm
  refine ⟨first, inner, closer, rfl, ?_, ?_, encloses⟩
  · exact opensOption_of_tokenize done (by simp) opens.1 shape
  · exact closesOption_of_tokenize done (by simp) closes counterpart

/-- The argument at the front of a queue starts at the first token that is no blank, and reaches as
far as that token says. -/
theorem popArgument_splice {t : Token} {rest : List Token} (blank : ∀ t ∈ gap, t.isBlank = true)
    (solid : t.isBlank = false) (q : Queue) :
    (splice (gap ++ t :: rest) q).popArgument =
      (some ⟨(reach t rest).1, t, rest.take (reach t rest).2⟩,
        splice (rest.drop (reach t rest).2) q) := by
  induction gap with
  | nil =>
    have shape : (reach t rest).1 ≠ .whitespace := by
      rw [reach, if_neg (by simp [solid])]
      cases found : composite? t rest with
      | none => decide
      | some shape => exact kind_ne_whitespace found
    rw [splice, List.nil_append, ofTokens_cons, List.cons_append, popArgument, popWhile,
      if_neg (by simpa [Expr.isWhitespace] using shape), splice]
  | cons b gap ih =>
    obtain ⟨here, later⟩ := List.forall_mem_cons.mp blank
    rw [splice, List.cons_append, ofTokens_blank here]
    exact ih later

/-- Two brackets and what is between them are the next argument of a queue exactly if the first
bracket encloses what is between the two. -/
theorem popArgument_brackets_iff (done : tokenize source = .ok tokens)
    (inside : gap ++ opener :: (inner ++ closer :: back) <:+: tokens)
    (blank : ∀ t ∈ gap, t.isBlank = true) (opens : opener.OpensOption)
    (closes : closer.ClosesOption) (q : Queue) :
    (splice (gap ++ opener :: (inner ++ closer :: back)) q).popArgument =
      (some ⟨.options, opener, inner ++ [closer]⟩, splice back q) ↔ Encloses opener inner := by
  obtain ⟨front, behind, rfl⟩ := inside
  have split : front ++ (gap ++ opener :: (inner ++ closer :: back)) ++ behind =
      (front ++ gap) ++ opener :: (inner ++ closer :: (back ++ behind)) := by simp
  rw [split] at done
  obtain ⟨p⟩ := prepare_eq_ok_iff.mp done
  obtain ⟨plain, solid, shape⟩ := opens.facts
  have cut := ofTokens_cons opener (inner ++ closer :: back)
  rw [← p.offset_opener_iff (coherent_lex source) plain closes.facts.1
    (pairsLoosely_of_options opens closes), popArgument_splice blank solid]
  constructor
  · intro taken
    obtain ⟨first, -⟩ := Prod.mk.inj taken
    rw [Option.some.inj first] at cut
    have member : ⟨.options, opener, inner ++ [closer]⟩ ∈ ofTokens _ := cut ▸ List.mem_cons_self
    simpa using (composite_of_mem member rfl).2.1
  · intro offset
    obtain ⟨first, later⟩ := List.cons.inj (cut.symm.trans (ofTokens_composite solid shape offset))
    rw [first, splice, later, splice]

/-- What is in brackets is taken as an argument exactly if it is taken as an optional one. -/
theorem popOptions_eq_iff {q rest : Queue} (kind : e.kind = .options) :
    q.popOptions = (some e, rest) ↔ q.popArgument = (some e, rest) := by
  constructor
  · intro taken
    obtain ⟨_, same, -, found⟩ | ⟨none, -⟩ := popOptions_cases taken
    · cases same
      exact found
    · cases none
  · intro found
    rw [popOptions, found]
    exact if_pos kind

end Queue

/-! ### Brackets that nobody takes -/

namespace Step
open Token

variable {e : Expr}

/-- A bracket that opens is shown as a delimiter, whatever its size is. -/
theorem single_bracket {bound : Queue} {t : Token} (opens : t.OpensOption) (o : Options)
    (macros : Macro.Table) (c : Context) (q : Queue.Below bound) :
    single o macros t c q = (.add (pure (Node.delimiter? t c)), q) := by
  have each : ∀ t ∈ optionOpeners, t.kind.reserved = false ∧ t.kind.command = false ∧
      t.kind.script = false ∧ t.kind.cyclic = false ∧ t.kind.argument = false := by decide
  obtain ⟨reserved, command, script, cyclic, argument⟩ := each t.unpaired opens
  rw [kind_unpaired] at reserved command script cyclic argument
  obtain ⟨⟨opens, curly, env⟩, solid, -⟩ := opens.facts
  simp [single, plain, isCellBreak, isRowBreak, isNamed, pendingMarks?, operandMarks?, reserved,
    command, script, cyclic, argument, opens, curly, env, solid]

theorem delimiter?_bracket {t : Token} (opens : t.OpensOption) (c : Context) :
    ∃ n : Node, Node.delimiter? t c = some n ∧ n.text = "[" := by
  have each : ∀ t ∈ optionOpeners, t.kind.null = false ∧ t.kind.command = false := by decide
  obtain ⟨null, command⟩ := each t.unpaired opens
  rw [kind_unpaired] at null command
  obtain ⟨value, bare, unfenced, -⟩ := compositeKind?_eq_options opens.facts.2.2
  refine ⟨((Node.leaf "mo" "[").fromToken t).setAttribute "stretchy" "false", ?_, rfl⟩
  simp [Node.delimiter?, Node.delimiterText, null, command, value, bare, unfenced]

/-- An expression in brackets that is read and not taken is content: its first bracket is added to
the row, and what is behind that is left to be read. -/
theorem ofExpr_options (kind : e.kind = .options) (opens : e.first.OpensOption) (o : Options)
    (macros : Macro.Table) (c : Context) (rest : Queue) :
    ∃ n : Node, n.text = "[" ∧ (ofExpr o macros c e rest).action = .node n ∧
      (ofExpr o macros c e rest).rest.val = Queue.splice e.rest rest := by
  obtain ⟨n, shown, text⟩ := delimiter?_bracket opens c
  obtain ⟨_, first, more⟩ := e
  cases kind
  have step := single_bracket opens o macros c
    (⟨Queue.splice more rest, Queue.weight_splice_rest_lt ⟨.options, first, more⟩ rest⟩ :
      Queue.Below (⟨.options, first, more⟩ :: rest))
  refine ⟨n, text, ?_, ?_⟩
  · change (single o macros first c _).1 = _
    rw [step, shown]
    rfl
  · change (single o macros first c _).2.val = _
    rw [step]

end Step

/-! ### Optional arguments -/

namespace Queue
open Token Pairing

/-- What is taken from a source as an optional argument stands between a square bracket that opens
and is no fence and a square bracket that closes, and both can have a size; what nobody takes is
content, from the first bracket on. Where the next argument of a queue is to be in brackets, such a
pair of brackets is taken exactly if the first one encloses what is between them. -/
theorem option_brackets_of_any_size {source : String} {tokens : List Token}
    (done : tokenize source = .ok tokens) :
    (∀ part e, part <:+: tokens → e ∈ ofTokens part → e.kind = .options →
      (∃ opener inner closer, e = ⟨.options, opener, inner ++ [closer]⟩ ∧ opener.OpensOption ∧
        closer.ClosesOption ∧ Encloses opener inner) ∧
      ∀ o macros c rest, ∃ n : Node, n.text = "[" ∧
        (Step.ofExpr o macros c e rest).action = .node n ∧
        (Step.ofExpr o macros c e rest).rest.val = splice e.rest rest) ∧
    ∀ gap opener inner closer back q, gap ++ opener :: (inner ++ closer :: back) <:+: tokens →
      (∀ t ∈ gap, t.isBlank = true) → opener.OpensOption → closer.ClosesOption →
      let taken := (some ⟨.options, opener, inner ++ [closer]⟩, splice back q)
      let ahead := splice (gap ++ opener :: (inner ++ closer :: back)) q
      (ahead.popOptions = taken ↔ Encloses opener inner) ∧
        (ahead.popArgument = taken ↔ Encloses opener inner) := by
  constructor
  · intro part e inside member kind
    obtain ⟨opener, inner, closer, rfl, opens, brackets⟩ := options_of_mem done inside member kind
    exact ⟨⟨opener, inner, closer, rfl, opens, brackets⟩, Step.ofExpr_options rfl opens⟩
  · intro gap opener inner closer back q inside blank opens closes taken ahead
    have argument := popArgument_brackets_iff done inside blank opens closes q
    exact ⟨(popOptions_eq_iff rfl).trans argument, argument⟩

/-- The end of a row and brackets of the first size behind it, read from a source. -/
theorem tokenize_big_brackets : ∃ rowEnd opener symbol closer,
    tokenize "\\\\\\bigl[b\\bigr]" = .ok [rowEnd, opener, symbol, closer] ∧
      rowEnd.isRowBreak = true ∧ Encloses opener [symbol] ∧ opener.offset = 2 ∧
      opener.unpaired = sized (some (.size 0 .left)) (single { opens := true } '[') ∧
      closer.unpaired = sized (some (.size 0 .right)) (single { closes := true } ']') := by
  refine ⟨⟨{ command := true }, "\\", 0⟩, ⟨{ opens := true, size1 := true }, "[", 2⟩,
    ⟨{ letter := true }, "b", 0⟩, ⟨{ closes := true, size1 := true }, "]", -2⟩, by cbv, by decide,
    .pass (by decide) (by decide) .nil, rfl, rfl, rfl⟩

/-- Brackets of the first size are taken behind the end of a row. -/
theorem option_brackets_of_any_size_big :
    ∃ rowEnd opener symbol closer,
      tokenize "\\\\\\bigl[b\\bigr]" = .ok [rowEnd, opener, symbol, closer] ∧
      rowEnd.isRowBreak = true ∧
      opener.unpaired = sized (some (.size 0 .left)) (single { opens := true } '[') ∧
      closer.unpaired = sized (some (.size 0 .right)) (single { closes := true } ']') ∧
      (splice [opener, symbol, closer] []).popOptions =
        (some ⟨.options, opener, [symbol, closer]⟩, splice [] []) := by
  obtain ⟨rowEnd, opener, symbol, closer, done, ends, encloses, -, left, right⟩ :=
    tokenize_big_brackets
  have opens : opener.OpensOption := by rw [OpensOption, left]; decide
  have closes : closer.ClosesOption := by rw [ClosesOption, right]; decide
  have behind : [opener, symbol, closer] <:+: [rowEnd, opener, symbol, closer] :=
    (List.suffix_cons rowEnd _).isInfix
  have taken := ((option_brackets_of_any_size done).2 [] opener [symbol] closer [] [] behind
    (List.forall_mem_nil _) opens closes).1.mpr encloses
  exact ⟨rowEnd, opener, symbol, closer, done, ends, left, right, taken⟩

/-- Not everything that is taken as an optional argument stands between brackets without a size. -/
theorem option_between_sized_brackets :
    ¬ ∀ source tokens part e rest, tokenize source = .ok tokens → part <:+: tokens →
      (ofTokens part).popOptions = (some e, rest) →
      e.first.unpaired = single { opens := true } '[' ∧
        ∀ t ∈ e.closer?, t.unpaired = single { closes := true } ']' := by
  intro plain
  obtain ⟨rowEnd, opener, symbol, closer, done, -, -, offset, left, -⟩ := tokenize_big_brackets
  have opens : opener.OpensOption := by rw [OpensOption, left]; decide
  have cut : ofTokens [opener, symbol, closer] =
      ⟨.options, opener, [symbol, closer]⟩ :: ofTokens [] :=
    @ofTokens_composite opener closer [symbol] [] _ opens.facts.2.1 opens.facts.2.2 offset
  have taken : (ofTokens [opener, symbol, closer]).popOptions =
      (some ⟨.options, opener, [symbol, closer]⟩, ofTokens []) := by rw [cut]; rfl
  have bare := (plain _ _ _ _ _ done (List.suffix_cons rowEnd _).isInfix taken).1
  rw [left] at bare
  exact absurd bare (by decide)

end Queue

end TexFormula
