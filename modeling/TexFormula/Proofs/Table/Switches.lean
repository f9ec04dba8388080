import TexFormula.Proofs.Expr.Spans
import TexFormula.Proofs.Formula.Sealed

/-! Switches in a table. A style, size or color switch at the start of a cell acts on the
expressions up to the break behind the cell, and leaves the grid of the table as it is
(`Environment.grid_of_switched`). This needs that the delimiters in the cell have their partners
there: square brackets can be open where a cell ends, and then the switch takes them as one
expression with the break that is in them (`Environment.cells_joined_by_switch`). -/
namespace TexFormula
open Queue

/-- Whether every delimiter of an expression that starts in a token list has its partner there. -/
def Token.Closed : List Token → Prop
  | [] => True
  | t :: rest => ((compositeKind? t).isSome → t.offset ≤ rest.length) ∧ Closed rest

instance Token.decidableClosed : (tokens : List Token) → Decidable (Token.Closed tokens)
  | [] => inferInstanceAs (Decidable True)
  | t :: rest =>
    have := decidableClosed rest
    inferInstanceAs (Decidable
      (((compositeKind? t).isSome → t.offset ≤ rest.length) ∧ Token.Closed rest))

/-- A token that is a switch, and nothing but a command. -/
structure Token.Switches (macros : Macro.Table) (t : Token) (switch : Switch) : Prop where
  kind : t.kind = { command := true }
  alone : t.offset = 0
  means : Command.meaning? macros t.value = some (.switch switch)

/-- A break, as it is written: it ends a row or only a cell. -/
structure Expr.Ends (e : Expr) (row : Bool) : Prop where
  single : e.kind = .single
  ends : (if row then e.first.isRowBreak else e.first.isCellBreak) = true
  plain : e.first.isMeasure = false

/-- What a cell of a table can start behind, if `next` follows there: nothing or the argument that
the environment asks for, the end of a cell, or the end of a row with the spacing that it has. -/
inductive Queue.StartsCell (asks : Bool) (next : Queue) : Queue → Prop
  | first (bare : asks = true → ∀ e ∈ next.peekArgument?, Job.isOption e = false) :
    StartsCell asks next []
  | argument {gap : Queue} {e : Expr} (asked : asks = true)
    (blank : ∀ d ∈ gap, d.isWhitespace = true) (option : Job.isOption e = true) :
    StartsCell asks next (gap ++ [e])
  | cell {front : Queue} {b : Expr} (ends : b.Ends false) : StartsCell asks next (front ++ [b])
  | row {front : Queue} {b : Expr} (ends : b.Ends true)
    (bare : ∀ e ∈ next.peekArgument?, e.kind ≠ .options) : StartsCell asks next (front ++ [b])
  | spaced {front gap : Queue} {b e : Expr} (ends : b.Ends true)
    (blank : ∀ d ∈ gap, d.isWhitespace = true) (bracketed : e.kind = .options) :
    StartsCell asks next (front ++ b :: (gap ++ [e]))

variable {t : Token} {tokens rest : List Token} {e b : Expr} {p q : Queue} {row : Bool}
  {table : Macro.Table} {o : Options} {c : Context} {switch : Switch}

/-! ### Queues -/

/-- An expression ends where it did if there is more behind the list that its delimiters are in. -/
theorem Queue.reach_append {more : List Token}
    (closed : (compositeKind? t).isSome → t.offset ≤ more.length) (rest : List Token) :
    reach t (more ++ rest) = reach t more ∧ (reach t more).2 ≤ more.length := by
  unfold reach
  split
  · exact ⟨rfl, Nat.zero_le _⟩
  · cases opens : compositeKind? t with
    | none => simp [composite?, opens]
    | some kind =>
      have inside := closed (by rw [opens]; rfl)
      have within : (0 < t.offset ∧ t.offset ≤ (more ++ rest).length) ↔
          0 < t.offset ∧ t.offset ≤ more.length := by
        rw [List.length_append]
        omega
      have same : composite? t (more ++ rest) = composite? t more := by
        unfold composite?
        simp only [within]
      rw [same]
      refine ⟨rfl, ?_⟩
      rw [composite?, opens]
      split
      · simp only [Option.map_some, Option.getD_some]
        omega
      · exact Nat.zero_le _

theorem Token.Closed.drop (closed : Token.Closed tokens) (n : Nat) :
    Token.Closed (tokens.drop n) := by
  induction n generalizing tokens with
  | zero => exact closed
  | succ n ih =>
    cases tokens with
    | nil => exact closed
    | cons t rest => exact ih closed.2

/-- What is cut off a closed list does not depend on what comes behind it. -/
theorem Token.Closed.ofTokens_append {tokens : List Token} (closed : Token.Closed tokens)
    (rest : List Token) :
    ofTokens (tokens ++ rest) = ofTokens tokens ++ ofTokens rest := by
  match tokens with
  | [] => rw [ofTokens, List.nil_append, List.nil_append]
  | t :: more =>
    obtain ⟨same, short⟩ := reach_append closed.1 rest
    have later : Token.Closed (more.drop (reach t more).2) := closed.2.drop _
    rw [List.cons_append, ofTokens_cons, ofTokens_cons, same, List.take_append_of_le_length short,
      List.drop_append_of_le_length short, later.ofTokens_append rest, List.cons_append]
termination_by tokens.length

theorem Queue.popArgument_of_blank {gap : Queue} (blank : ∀ d ∈ gap, d.isWhitespace = true)
    (q : Queue) : (gap ++ q).popArgument = q.popArgument := by
  induction gap with
  | nil => rfl
  | cons d gap ih =>
    obtain ⟨here, later⟩ := List.forall_mem_cons.mp blank
    rw [Queue.popArgument, List.cons_append, popWhile, if_pos here]
    exact ih later

theorem Queue.popArgument_cons (shown : e.isWhitespace = false) (q : Queue) :
    Queue.popArgument (e :: q) = (some e, q) := by
  rw [Queue.popArgument, popWhile, if_neg (by simp [shown])]

theorem Queue.popOptions_of_spacing {gap : Queue} (blank : ∀ d ∈ gap, d.isWhitespace = true)
    (bracketed : e.kind = .options) (q : Queue) : popOptions (gap ++ e :: q) = (some e, q) := by
  have shown : e.isWhitespace = false := by rw [Expr.isWhitespace, bracketed]; rfl
  rw [popOptions, popArgument_of_blank blank, popArgument_cons shown]
  exact if_pos bracketed

namespace Expr.Ends

variable (ends : b.Ends row)
include ends

theorem isBreak : b.isBreak = true := by
  have either := ends.ends
  rw [Expr.isBreak, ends.single]
  cases row <;> simp_all

theorem wall (q : Queue) : Wall (b :: q) := by
  intro first same
  obtain rfl := Option.some.inj same
  exact ⟨ends.isBreak, ends.plain⟩

theorem break? (tabular : c.table = true) : Formula.break? c b = some row := by
  have either := ends.ends
  have apart : b.first.isRowBreak = true → b.first.isCellBreak = false := by
    intro named
    have value : b.first.value = "\\" ∨ b.first.value = "cr" := by
      simp only [Token.isRowBreak, Token.isNamed, Bool.or_eq_true, Bool.and_eq_true,
        beq_iff_eq] at named
      exact named.imp And.right And.right
    obtain value | value := value <;> simp [Token.isCellBreak, value]
  unfold Formula.break?
  rw [tabular, ends.single]
  cases row with
  | true =>
    have ended : b.first.isRowBreak = true := either
    rw [apart ended, ended]
    rfl
  | false =>
    have ended : b.first.isCellBreak = true := either
    rw [ended]
    rfl

end Expr.Ends

theorem Expr.exists_ends (isBreak : e.isBreak = true) (plain : e.first.isMeasure = false) :
    ∃ row, e.Ends row := by
  rw [Expr.isBreak, Bool.and_eq_true_iff, beq_iff_eq, Bool.or_eq_true] at isBreak
  obtain ⟨single, cell | ended⟩ := isBreak
  · exact ⟨false, single, cell, plain⟩
  · exact ⟨true, single, ended, plain⟩

theorem Queue.popWhile_append {skips : Expr → Bool} {rest : Queue}
    (found : q.popWhile skips = (some e, rest)) (more : Queue) :
    (q ++ more).popWhile skips = (some e, rest ++ more) := by
  induction q with
  | nil => cases found
  | cons d q ih =>
    rw [popWhile] at found
    rw [List.cons_append, popWhile]
    split at found
    case isTrue skipped =>
      rw [if_pos skipped]
      exact ih found
    case isFalse shown =>
      cases found
      rw [if_neg shown]

/-- Where a queue has no argument, the next one comes behind it. -/
theorem Queue.popWhile_append_none {skips : Expr → Bool} (none : (q.popWhile skips).1 = none)
    (more : Queue) : (q ++ more).popWhile skips = more.popWhile skips := by
  induction q with
  | nil => rfl
  | cons d q ih =>
    rw [popWhile] at none
    rw [List.cons_append, popWhile]
    split at none
    case isTrue skipped =>
      rw [if_pos skipped]
      exact ih none
    case isFalse => cases none

/-! ### Starts of cells -/

/-- The argument of a job is taken away. -/
theorem Job.start_of_argument {c : Context} {gap : Queue} (asked : c.takesArgument = true)
    (blank : ∀ d ∈ gap, d.isWhitespace = true) (option : Job.isOption e = true)
    (q : Queue) (parent : Option Node) :
    (Job.start (gap ++ e :: q) c parent).queue = q := by
  have shown : e.isWhitespace = false := by
    rw [Job.isOption, Bool.or_eq_true, beq_iff_eq, beq_iff_eq] at option
    rcases option with kind | kind <;> rw [Expr.isWhitespace, kind] <;> rfl
  unfold Job.start
  rw [popArgument_of_blank blank, popArgument_cons shown, asked]
  simp only [option, if_true]

/-- Whatever argument a job takes, what stands from a break on is left. -/
theorem Job.exists_start_of_break (ends : b.Ends row) (front : Queue) (c : Context)
    (parent : Option Node) :
    ∃ left, ∀ q, (Job.start (front ++ b :: q) c parent).queue = left ++ b :: q := by
  cases asks : c.takesArgument with
  | false =>
    refine ⟨front, fun q => Job.start_of_bare (fun asked => ?_) _⟩
    cases asks.symm.trans asked
  | true =>
    have shown : b.isWhitespace = false := Expr.isWhitespace_of_isBreak ends.isBreak
    cases found : front.popArgument with
    | mk first rest =>
      cases first with
      | none =>
        refine ⟨front, fun q => Job.start_of_bare (fun _ e next => ?_) _⟩
        rw [peekArgument?_eq, Queue.popArgument,
          popWhile_append_none (by rw [← popArgument, found]),
          ← popArgument, popArgument_cons shown] at next
        obtain rfl := Option.some.inj next
        rw [Job.isOption, ends.single]
        rfl
      | some e =>
        have taken (q : Queue) : Queue.popArgument (front ++ b :: q) = (some e, rest ++ b :: q) :=
          popWhile_append found _
        cases option : Job.isOption e with
        | true =>
          refine ⟨rest, fun q => ?_⟩
          unfold Job.start
          rw [asks, taken]
          simp only [option, if_true]
        | false =>
          refine ⟨front, fun q => Job.start_of_bare (fun _ d next => ?_) _⟩
          rw [peekArgument?_eq, taken] at next
          exact Option.some.inj next ▸ option

namespace Formula

variable {depth : Nat} {s : Scope}

/-! ### Steps of a table -/

/-- A part that a break comes behind is read with the same steps whatever is behind the break. -/
theorem trace_append {front back : Queue} (wall : Wall back)
    (idle : Idle s.macros (front ++ back)) (o : Options) (depth : Nat) (c : Context) :
    trace o depth c (front ++ back) s = trace o depth c front s ++ trace o depth c back s := by
  let W (p p' : Queue) := p = [] ∧ p' = back
  have beside : Queue.Beside W 0 (front ++ []) (front ++ back) :=
    Queue.Beside.prepend (.wall ⟨rfl, rfl⟩ wall_nil wall rfl) (Nat.zero_le _) front
  have first : Idle s.macros (front ++ []) := by
    rw [List.append_nil]
    exact fun e member => idle e (List.mem_append_left back member)
  obtain ⟨before, p, p', ⟨rfl, rfl⟩, alone, whole⟩ :=
    trace_beside o depth c s beside first idle
  have none : trace o depth c [] s = [] := by rw [trace]
  rw [none, List.append_nil, List.append_nil] at alone
  rw [whole, alone]

/-- Behind the end of a cell the next one comes. -/
theorem trace_cell (ends : b.Ends false) (tabular : c.table = true)
    (idle : Idle s.macros (b :: q)) (o : Options) (depth : Nat) :
    trace o depth c (b :: q) s =
      (some false, [Step.cellBreak]) :: trace o depth c q s := by
  have found := ends.break? tabular
  obtain ⟨kind, t, more⟩ := b
  obtain rfl : kind = .single := ends.single
  let behind := Below.tail ⟨.single, t, more⟩ q
  have single : Step.single o s.macros t c behind = (.place [Step.cellBreak], behind) := by
    have ended : t.isCellBreak = true := ends.ends
    rw [Step.single, if_pos (by rw [tabular, ended]; rfl)]
  have step : Step.ofExpr o s.macros c ⟨.single, t, more⟩ q =
      ⟨t, .place [Step.cellBreak], behind⟩ := by
    change (⟨t, (Step.single o s.macros t c behind).1, (Step.single o s.macros t c behind).2⟩ :
      Step (⟨.single, t, more⟩ :: q)) = _
    rw [single]
  rw [trace_cons idle, found, step]
  rfl

/-- Behind the end of a row comes its spacing, and then the next row. -/
theorem trace_row (ends : b.Ends true) (tabular : c.table = true)
    (idle : Idle s.macros (b :: q)) (o : Options) (depth : Nat) :
    trace o depth c (b :: q) s =
      (some true, endNodes q.popOptions.1) :: trace o depth c q.popOptions.2 s := by
  have found := ends.break? tabular
  obtain ⟨kind, t, more⟩ := b
  obtain rfl : kind = .single := ends.single
  let behind := Below.tail ⟨.single, t, more⟩ q
  have single : Step.single o s.macros t c behind = Step.endRow behind :=
    single_of_isRowBreak tabular ends.ends o s.macros behind
  have step : Step.ofExpr o s.macros c ⟨.single, t, more⟩ q =
      ⟨t, .place (endNodes q.popOptions.1), (Step.endRow behind).2⟩ := by
    change (⟨t, (Step.single o s.macros t c behind).1, (Step.single o s.macros t c behind).2⟩ :
      Step (⟨.single, t, more⟩ :: q)) = _
    rw [single, endRow_eq]
  have left : (Step.endRow behind).2.val = q.popOptions.2 := by
    rw [Step.snd_endRow, Queue.Below.popOptions, Queue.Below.snd_split]
  rw [trace_cons idle, found, step]
  dsimp only
  rw [left]
  rfl

/-- What comes behind a break does not matter to the steps up to there. -/
theorem exists_trace_of_break (ends : b.Ends row) (o : Options) (depth : Nat) (inner : Context)
    (s : Scope) (front tail : Queue) (c : Context) (parent : Option Node)
    (entry : Option Bool × List Node) :
    ∃ before, ∀ q, Idle s.macros (front ++ b :: (tail ++ q)) →
      (Idle s.macros (b :: (tail ++ q)) →
        trace o depth inner (b :: (tail ++ q)) s = entry :: trace o depth inner q s) →
      trace o depth inner (Job.start (front ++ b :: (tail ++ q)) c parent).queue s =
        before ++ trace o depth inner q s := by
  obtain ⟨left, starts⟩ := Job.exists_start_of_break ends front c parent
  refine ⟨trace o depth inner left s ++ [entry], fun q idle behind => ?_⟩
  have still := idle_start idle c parent
  rw [starts] at still ⊢
  have last : Idle s.macros (b :: (tail ++ q)) :=
    fun e member => still e (List.mem_append_right left member)
  rw [trace_append (ends.wall _) still, behind last, List.append_assoc, List.singleton_append]

/-- The steps up to the start of a cell are the same for all that can stand there. -/
theorem exists_trace_of_startsCell {front q q' : Queue} (o : Options) (depth : Nat)
    {c inner : Context} (tabular : inner.table = true)
    (starts : StartsCell c.takesArgument q front)
    (single : ∀ e ∈ q'.peekArgument?, e.kind = .single) (idle : Idle s.macros (front ++ q))
    (idle' : Idle s.macros (front ++ q')) (parent : Option Node) :
    ∃ before, trace o depth inner (Job.start (front ++ q) c parent).queue s =
        before ++ trace o depth inner q s ∧
      trace o depth inner (Job.start (front ++ q') c parent).queue s =
        before ++ trace o depth inner q' s := by
  cases starts with
  | first bare =>
    refine ⟨[], ?_, ?_⟩
    · rw [List.nil_append, Job.start_of_bare bare, List.nil_append]
    · rw [List.nil_append, Job.start_of_bare (fun _ e next => ?_), List.nil_append]
      rw [Job.isOption, single e next]
      rfl
  | argument asked blank option =>
    refine ⟨[], ?_, ?_⟩ <;>
      rw [List.append_assoc, List.singleton_append, Job.start_of_argument asked blank option,
        List.nil_append]
  | @cell front b ends =>
    have whole (q : Queue) : front ++ [b] ++ q = front ++ b :: ([] ++ q) := by simp
    simp only [whole] at idle idle' ⊢
    obtain ⟨before, same⟩ := exists_trace_of_break ends o depth inner s front [] c parent
      (some false, [Step.cellBreak])
    exact ⟨before, same q idle fun still => trace_cell ends tabular still o depth,
      same q' idle' fun still => trace_cell ends tabular still o depth⟩
  | @row front b ends bare =>
    have whole (q : Queue) : front ++ [b] ++ q = front ++ b :: ([] ++ q) := by simp
    simp only [whole] at idle idle' ⊢
    obtain ⟨before, same⟩ := exists_trace_of_break ends o depth inner s front [] c parent
      (some true, endNodes none)
    have unspaced {q : Queue} (bare : ∀ e ∈ q.peekArgument?, e.kind ≠ .options)
        (still : Idle s.macros (b :: q)) :
        trace o depth inner (b :: q) s = (some true, endNodes none) :: trace o depth inner q s := by
      rw [trace_row ends tabular still, popOptions_of_bare bare]
    have bare' : ∀ e ∈ q'.peekArgument?, e.kind ≠ .options := by
      intro e next kind
      cases (single e next).symm.trans kind
    exact ⟨before, same q idle (unspaced bare), same q' idle' (unspaced bare')⟩
  | @spaced front gap b e ends blank bracketed =>
    have whole (q : Queue) :
        front ++ b :: (gap ++ [e]) ++ q = front ++ b :: ((gap ++ [e]) ++ q) := by simp
    simp only [whole] at idle idle' ⊢
    obtain ⟨before, same⟩ := exists_trace_of_break ends o depth inner s front (gap ++ [e]) c parent
      (some true, endNodes (some e))
    have spaced (q : Queue) (still : Idle s.macros (b :: ((gap ++ [e]) ++ q))) :
        trace o depth inner (b :: ((gap ++ [e]) ++ q)) s =
          (some true, endNodes (some e)) :: trace o depth inner q s := by
      rw [trace_row ends tabular still, List.append_assoc, List.singleton_append,
        popOptions_of_spacing blank bracketed]
    exact ⟨before, same q idle (spaced q), same q' idle' (spaced q')⟩

/-- A queue that reading comes to no break in has none. -/
theorem not_isBreak_of_breaksIn {q : Queue} (tabular : c.table = true) (idle : Idle s.macros q)
    (plain : ∀ e ∈ q, e.isBreak = true → e.first.isMeasure = false)
    (unbroken : breaksIn o depth c q s = []) : ∀ e ∈ q, e.isBreak = false := by
  intro e member
  refine Bool.eq_false_iff.mpr fun isBreak => ?_
  obtain ⟨row, ends⟩ := Expr.exists_ends isBreak (plain e member isBreak)
  obtain ⟨front, rest, rfl⟩ := List.append_of_mem member
  have behind : Idle s.macros (e :: rest) :=
    fun e member => idle e (List.mem_append_right front member)
  rw [breaksIn_eq_filterMap, trace_append (ends.wall rest) idle, List.filterMap_append,
    trace_cons behind, ends.break? tabular] at unbroken
  cases (List.append_eq_nil_iff.mp unbroken).2

end Formula

/-! ### Switches -/

namespace Plan

variable {bound : Queue}

theorem isSealed_map {α β : Type} (f : α → β) (plan : Plan bound α) (o : Options) (depth : Nat)
    (s : Scope) : (f <$> plan).isSealed o depth s = plan.isSealed o depth s := by
  induction plan generalizing s with
  | done value => rfl
  | read job fits next ih => exact congrArg (_ && ·) (ih _ _)

/-- Switches read into an element of their own. -/
theorem isSealed_switched (name : String) (switch : Switch) (c : Context) (q : Queue.Below bound)
    (o : Options) (depth : Nat) (s : Scope) :
    (switched name switch c q).1.isSealed o depth s = true := by
  have read (style : Node) (body : Queue.Below bound) :
      (readSwitched switch c style body).isSealed o depth s = true := by
    change (!Job.endsAlone (Job.start _ _ _) _ && true) = true
    unfold Job.endsAlone
    rw [Plan.parent_start]
    rfl
  unfold switched
  simp only
  split
  · split
    · rfl
    · exact read _ _
  · exact read _ _

end Plan

theorem Command.named?_of_named {name : String} :
    named name = .switch switch → Switch.named? name = some switch := by
  apply named_cases (p := (· = .switch switch → Switch.named? name = some switch))
  case switch =>
    rintro found given ⟨⟩
    exact given
  all_goals intros; contradiction

namespace Token.Switches

variable {macros : Macro.Table} (switches : t.Switches macros switch)
include switches

/-- No switch is a break or an operator between operands. -/
theorem apart : t.isCellBreak = false ∧ t.isRowBreak = false ∧ Step.pendingMarks? t = none := by
  have known : Switch.named? t.value = some switch := by
    have means := switches.means
    unfold Command.meaning? at means
    split at means
    case h_1 meaning fixed =>
      have never : ∀ meaning ∈ Command.fixed? t.value, meaning ≠ .switch switch :=
        Command.forall_mem_orElse (Option.forall_mem_map.mpr fun _ _ => nofun)
          (Option.forall_mem_map.mpr fun _ _ => nofun)
      exact absurd (Option.some.inj means) (never meaning fixed)
    case h_2 =>
      split at means
      · cases means
      · exact Command.named?_of_named (Option.some.inj means)
  have names : ∀ entry ∈ Switch.all, entry.1 ∉ ["\\", "cr", "over", "choose", "atop"] := by decide
  have other := names _ (Entries.mem_of_lookup known)
  simp only [List.mem_cons, List.not_mem_nil, or_false, not_or] at other
  obtain ⟨noLine, noCr, noOver, noChoose, noAtop⟩ := other
  refine ⟨by rw [isCellBreak, switches.kind]; rfl, ?_, ?_⟩
  · simp [isRowBreak, isNamed, noLine, noCr]
  · have unscripted : t.kind.script = false := by rw [switches.kind]
    rw [Step.pendingMarks?, unscripted, if_neg Bool.false_ne_true, Step.operandMarks?,
      switches.kind, if_pos rfl]
    split <;> first | contradiction | rfl

/-- The step for a switch reads what stands up to the next break into an element of its own. -/
theorem step (o : Options) (c : Context) (q : Queue) :
    let behind : Queue.Below (⟨.single, t, []⟩ :: q) := ⟨q, weight_lt_cons _ q⟩
    let (plan, rest) := Plan.switched t.value switch c behind
    Step.ofExpr o macros c ⟨.single, t, []⟩ q = ⟨t, .build plan, rest⟩ := by
  intro behind
  obtain ⟨noCell, noRow, noMarks⟩ := switches.apart
  have plain : Step.single o macros t c behind = Plan.command o macros t c behind := by
    unfold Step.single Step.plain
    simp only [noCell, noRow, noMarks, switches.kind]
    simp [isBlank, switches.kind]
  change (⟨t, (Step.single o macros t c behind).1, (Step.single o macros t c behind).2⟩ :
    Step (⟨.single, t, []⟩ :: q)) = _
  rw [plain, Plan.command_of_meaning? o switches.means]
  rfl

/-- A switch takes what stands up to the next break, and nothing else. -/
theorem rest_ofExpr (o : Options) (c : Context) (q : Queue) :
    (Step.ofExpr o macros c ⟨.single, t, []⟩ q).rest.val = q.splitAtBreak.2 := by
  rw [switches.step]
  exact Plan.snd_switched t.value switch c _

/-- The element of a switch is no break, whatever it is read from. -/
theorem exists_added (o : Options) (depth : Nat) (c : Context) (q : Queue) (s : Scope) :
    let step := Step.ofExpr o macros c ⟨.single, t, []⟩ q
    ∃ n : Node, (Formula.change (Formula.readers o depth _) c step s).added = [n] ∧
      n.marks.isBreak = false := by
  intro step
  let behind : Queue.Below (⟨.single, t, []⟩ :: q) := ⟨q, weight_lt_cons _ q⟩
  have fills : (some <$> (Plan.switched t.value switch c behind).1).Fills :=
    (Plan.carries_switched t.value switch c behind).map fun n ordinary => ⟨n, rfl, ordinary⟩
  have closed := Plan.isSealed_switched t.value switch c behind o depth s
  rw [← Plan.isSealed_map some] at closed
  obtain ⟨n, node, ordinary⟩ := Plan.run_of_isSealed fills closed
  refine ⟨n, ?_, ordinary.inside⟩
  have action : step.action = .add (some <$> (Plan.switched t.value switch c behind).1) :=
    congrArg Step.action (switches.step o c q)
  rw [Formula.change, action]
  dsimp only
  rw [node]
  rfl

/-- A switch is one step, and then the reading goes on at the next break. -/
theorem exists_trace (o : Options) (depth : Nat) (c : Context) {q : Queue} {s : Scope}
    (known : s.macros = macros) (idle : Formula.Idle s.macros (⟨.single, t, []⟩ :: q)) :
    ∃ n : Node, n.marks.isBreak = false ∧
      Formula.trace o depth c (⟨.single, t, []⟩ :: q) s =
        (none, [n]) :: Formula.trace o depth c q.splitAtBreak.2 s := by
  subst known
  obtain ⟨noCell, noRow, -⟩ := switches.apart
  have none : Formula.break? c ⟨.single, t, []⟩ = none := by
    unfold Formula.break?
    rw [noCell, noRow]
    simp
  obtain ⟨n, added, inside⟩ := switches.exists_added o depth c q s
  refine ⟨n, inside, ?_⟩
  rw [Formula.trace_cons idle, none, added, switches.rest_ofExpr]

end Token.Switches

/-- What stands in front of a break is taken by a switch, and nothing else. -/
theorem Queue.splitAtBreak_append (solid : ∀ e ∈ p, e.isBreak = false) (wall : Wall q) :
    splitAtBreak (p ++ q) = (p, q) := by
  have goes : ∀ e ∈ p, (!e.isBreak) = true := fun e member => by rw [solid e member]; rfl
  unfold splitAtBreak
  rw [List.takeWhile_append_of_pos goes, List.dropWhile_append_of_pos goes]
  cases q with
  | nil => rw [List.takeWhile_nil, List.dropWhile_nil, List.append_nil]
  | cons b q =>
    have ends := (wall b rfl).1
    rw [List.takeWhile_cons_of_neg (by simp [ends]), List.dropWhile_cons_of_neg (by simp [ends]),
      List.append_nil]

namespace Environment

open Formula (readJob idleBreaks)
open Table (breaksOf endsOpen grid rowLengths SameSpans)

/-- A cell in the content of an environment, between what stands in front of it and behind it.
Reading it comes to no break, and the delimiters of expressions have their partners with them in
front of it or in it. -/
structure IsCell (o : Options) (macros : Macro.Table) (t : Token) (c : Context)
    (front cell back : List Token) : Prop where
  closedFront : Token.Closed front
  closed : Token.Closed cell
  starts : StartsCell (context t.value t.kind.star c).takesArgument (ofTokens (cell ++ back))
    (ofTokens front)
  unbroken : idleBreaks o macros (contentContext t c) (ofTokens cell) = []
  plain : ∀ u ∈ cell, (u.isCellBreak || u.isRowBreak) = true → u.isMeasure = false
  ends : Wall (ofTokens back)

variable {depth : Nat} {bound : Queue} {n n' : Node} {s : Scope} {sw : Token}
  {front args cell back : List Token}

section Cell
variable (isCell : IsCell o s.macros t c front cell back)
  (tabular : (context t.value t.kind.star c).table = true)
  (idle : ∀ u ∈ front ++ (cell ++ back), u.kind.command = true → ¬ s.macros.Active u.value)
include isCell tabular idle

/-- There is no break in a cell. -/
theorem IsCell.solid : ∀ e ∈ ofTokens cell, e.isBreak = false := by
  have inside : ∀ e ∈ ofTokens cell, e.first ∈ cell := fun e member => by
    rw [← flatMap_tokens_ofTokens cell]
    exact List.mem_flatMap.mpr ⟨e, member, List.mem_cons_self⟩
  have still : Formula.Idle s.macros (ofTokens cell) :=
    Formula.idle_ofTokens fun u member => idle u (by simp [member])
  have inner : (contentContext t c).table = true := (table_contentContext t c).trans tabular
  have unbroken : Formula.breaksIn o 0 (contentContext t c) (ofTokens cell) s = [] :=
    (Formula.breaksIn_of_idle o 0 _ s still).trans isCell.unbroken
  refine Formula.not_isBreak_of_breaksIn inner still (fun e member isBreak => ?_) unbroken
  rw [Expr.isBreak, Bool.and_eq_true_iff] at isBreak
  exact isCell.plain e.first (inside e member) isBreak.2

/-- A switch in front of a cell takes what is in the cell, and nothing else. -/
theorem IsCell.splitAtBreak (closedArgs : Token.Closed args)
    (solid : ∀ e ∈ ofTokens args, e.isBreak = false) :
    (ofTokens (args ++ (cell ++ back))).splitAtBreak =
      (ofTokens (args ++ cell), ofTokens back) := by
  rw [closedArgs.ofTokens_append, closedArgs.ofTokens_append, isCell.closed.ofTokens_append,
    ← List.append_assoc]
  refine splitAtBreak_append (fun e member => ?_) isCell.ends
  rcases List.mem_append.mp member with first | later
  · exact solid e first
  · exact isCell.solid tabular idle e later

end Cell

theorem mem_switched {u : Token} {behind : List Token} (member : u ∈ front ++ behind) :
    u ∈ front ++ sw :: (args ++ behind) := by
  rcases List.mem_append.mp member with first | later
  · exact List.mem_append_left _ first
  · exact List.mem_append_right _ (List.mem_cons_of_mem _ (List.mem_append_right _ later))

section Switched
variable (switches : sw.Switches s.macros switch)
  (isCell : IsCell o s.macros t c front cell back) (closedArgs : Token.Closed args)
  (solid : ∀ e ∈ ofTokens args, e.isBreak = false)
  (tabular : (context t.value t.kind.star c).table = true)
  (idle : ∀ u ∈ front ++ sw :: (args ++ (cell ++ back)), u.kind.command = true →
    ¬ s.macros.Active u.value)
include switches isCell closedArgs solid tabular idle

/-- With a switch in front of a cell the reading has the steps that it has without it, but for those
in the cell: in their place comes one that adds an element. -/
theorem exists_trace_of_switched (depth : Nat) :
    let job := contentJob t c (front ++ (cell ++ back))
    let job' := contentJob t c (front ++ sw :: (args ++ (cell ++ back)))
    ∃ (before behind inside : List (Option Bool × List Node)) (n : Node),
      n.marks.isBreak = false ∧ inside.filterMap Prod.fst = [] ∧
        Formula.trace o depth job.context job.queue s = before ++ (inside ++ behind) ∧
        Formula.trace o depth job'.context job'.queue s = before ++ (none, [n]) :: behind := by
  intro job job'
  have idle' : ∀ u ∈ front ++ (cell ++ back), u.kind.command = true → ¬ s.macros.Active u.value :=
    fun u member => idle u (mem_switched member)
  have shown : sw.isBlank = false := by rw [Token.isBlank, switches.kind]; rfl
  have first : ofTokens (sw :: (args ++ (cell ++ back))) =
      ⟨.single, sw, []⟩ :: ofTokens (args ++ (cell ++ back)) := ofTokens_alone shown switches.alone
  have single : ∀ e ∈ Queue.peekArgument? (ofTokens (sw :: (args ++ (cell ++ back)))),
      e.kind = .single := by
    rw [first]
    rintro e ⟨⟩
    rfl
  have still := Formula.idle_ofTokens idle
  have still' := Formula.idle_ofTokens idle'
  rw [isCell.closedFront.ofTokens_append] at still still'
  have atSwitch : Formula.Idle s.macros (ofTokens (sw :: (args ++ (cell ++ back)))) :=
    fun e member => still e (List.mem_append_right _ member)
  have inCell : Formula.Idle s.macros (ofTokens cell ++ ofTokens back) := by
    rw [← isCell.closed.ofTokens_append]
    exact fun e member => still' e (List.mem_append_right _ member)
  have alone : Formula.Idle s.macros (ofTokens cell) :=
    fun e member => inCell e (List.mem_append_left _ member)
  have inner : (contentContext t c).table = true := (table_contentContext t c).trans tabular
  obtain ⟨before, plainly, switched⟩ := Formula.exists_trace_of_startsCell o depth inner
    isCell.starts single still' still (some (.element "mrow"))
  rw [first] at atSwitch switched
  obtain ⟨n, inside, step⟩ := switches.exists_trace o depth (contentContext t c) rfl atSwitch
  refine ⟨before, Formula.trace o depth (contentContext t c) (ofTokens back) s,
    Formula.trace o depth (contentContext t c) (ofTokens cell) s, n, inside, ?_, ?_, ?_⟩
  · rw [← Formula.breaksIn_eq_filterMap, Formula.breaksIn_of_idle o depth _ s alone]
    exact isCell.unbroken
  · rw [show job.context = contentContext t c from Job.context_start _ _ _]
    change Formula.trace _ _ _ (Job.start (ofTokens (front ++ (cell ++ back))) _ _).queue s = _
    rw [isCell.closedFront.ofTokens_append, plainly, isCell.closed.ofTokens_append,
      Formula.trace_append isCell.ends inCell]
  · rw [show job'.context = contentContext t c from Job.context_start _ _ _]
    change Formula.trace _ _ _
      (Job.start (ofTokens (front ++ sw :: (args ++ (cell ++ back)))) _ _).queue s = _
    rw [isCell.closedFront.ofTokens_append, first, switched, step,
      isCell.splitAtBreak tabular idle' closedArgs solid]

/-- The breaks that a reading comes to do not depend on a switch at the start of a cell. -/
theorem contentBreaks_switched :
    contentBreaks o depth t c (front ++ sw :: (args ++ (cell ++ back))) s =
      contentBreaks o depth t c (front ++ (cell ++ back)) s := by
  obtain ⟨before, behind, inside, n, -, none, plainly, switched⟩ :=
    exists_trace_of_switched switches isCell closedArgs solid tabular idle depth
  simp only [contentBreaks, Formula.breaksIn_eq_filterMap]
  rw [plainly, switched]
  simp only [List.filterMap_append, List.filterMap_cons, none, List.nil_append]

/-- A switch adds no break: if no step without it does, then none does with it. -/
theorem keepsBreaks_switched (keeps : keepsBreaks o depth t c (front ++ (cell ++ back)) s = true) :
    keepsBreaks o depth t c (front ++ sw :: (args ++ (cell ++ back))) s = true := by
  obtain ⟨before, behind, inside, n, plain, -, plainly, switched⟩ :=
    exists_trace_of_switched switches isCell closedArgs solid tabular idle depth
  rw [keepsBreaks, Formula.keepsBreaks, plainly, List.all_append, List.all_append,
    Bool.and_eq_true_iff, Bool.and_eq_true_iff] at keeps
  obtain ⟨first, -, last⟩ := keeps
  rw [keepsBreaks, Formula.keepsBreaks, switched, List.all_append, List.all_cons, first, last]
  simp [plain]

end Switched

/-! ### Main result -/

/-- A switch at the start of a cell does not matter to the grid of the table. It takes what is in
the cell and leaves the queue from the next break on. If no step without the switch adds a break but
the steps for breaks, then both contents are divided by the breaks alone that their readings come
to. If the content without the switch is divided in this way, then the one with the switch is
exactly if the breaks of the grid are the same; and then there are as many rows in both tables
unless one of them ends in a row break and the other one does not, and as many cells in each of them
if the cells span the same. -/
theorem grid_of_switched (depth : Nat) (switches : sw.Switches s.macros switch)
    (isCell : IsCell o s.macros t c front cell back) (closedArgs : Token.Closed args)
    (solid : ∀ e ∈ ofTokens args, e.isBreak = false)
    (tabular : (context t.value t.kind.star c).table = true)
    (idle : ∀ u ∈ front ++ sw :: (args ++ (cell ++ back)), u.kind.command = true →
      ¬ s.macros.Active u.value)
    (short : (front ++ sw :: (args ++ (cell ++ back))).length < bound.weight)
    (short' : (front ++ (cell ++ back)).length < bound.weight) :
    let behind := ofTokens (args ++ (cell ++ back))
    let step := Step.ofExpr o s.macros (contentContext t c) ⟨.single, sw, []⟩ behind
    let switched := front ++ sw :: (args ++ (cell ++ back))
    let content := front ++ (cell ++ back)
    behind.splitAtBreak = (ofTokens (args ++ cell), ofTokens back) ∧
      step.rest.val = ofTokens back ∧
      (keepsBreaks o depth t c content s = true → ∃ n n', Undivided o depth t c switched s n ∧
        Undivided o depth t c content s n' ∧ breaksOf n.children = breaksOf n'.children) ∧
      ∀ n n', (readJob o depth (contentJob t c switched) s).1 = some n →
        Undivided o depth t c content s n' →
        let lengths := rowLengths (Table.ofRow n)
        let lengths' := rowLengths (Table.ofRow n')
        (Undivided o depth t c switched s n ↔ breaksOf n.children = breaksOf n'.children) ∧
          (Undivided o depth t c switched s n →
            ShowsRows o depth t c short s lengths ∧ ShowsRows o depth t c short' s lengths' ∧
              (lengths.length = lengths'.length ↔ endsOpen n.children = endsOpen n'.children) ∧
              (lengths.length = lengths'.length →
                SameSpans (grid n.children) (grid n'.children) → lengths = lengths')) := by
  intro behind step switched content
  have idle' : ∀ u ∈ content, u.kind.command = true → ¬ s.macros.Active u.value :=
    fun u member => idle u (mem_switched member)
  have parts : behind.splitAtBreak = (ofTokens (args ++ cell), ofTokens back) :=
    isCell.splitAtBreak tabular idle' closedArgs solid
  have left : step.rest.val = ofTokens back := by
    rw [switches.rest_ofExpr, parts]
  have breaks : contentBreaks o depth t c switched s = contentBreaks o depth t c content s :=
    contentBreaks_switched switches isCell closedArgs solid tabular idle
  refine ⟨parts, left, fun keeps => ?_, fun n n' gives undivided' =>
    grid_of_contentBreaks tabular short short' gives undivided' breaks⟩
  obtain ⟨n', undivided'⟩ := undivided_of_keepsBreaks keeps
  obtain ⟨n, undivided⟩ := undivided_of_keepsBreaks
    (keepsBreaks_switched switches isCell closedArgs solid tabular idle keeps)
  refine ⟨n, n', undivided, undivided', ?_⟩
  rw [breaksOf_undivided undivided, breaksOf_undivided undivided', breaks]

set_option maxRecDepth 4096 in
/-- A switch in front of brackets that are in one cell. -/
theorem grid_of_switched_brackets :
    let symbol (value : String) : Token := { kind := { letter := true }, value }
    let opener : Token := { kind := { opens := true }, value := "[", offset := 2 }
    let closer : Token := { kind := { closes := true }, value := "]", offset := -2 }
    let separator : Token := { kind := { reserved := true }, value := "&" }
    let sw : Token := { kind := { command := true }, value := "em" }
    let cell := [opener, symbol "b", closer]
    let content := [symbol "a", separator] ++ (cell ++ [separator, symbol "d"])
    let switched := [symbol "a", separator] ++ sw :: ([] ++ (cell ++ [separator, symbol "d"]))
    let matrix : Token := { kind := { env := true, opens := true }, value := "matrix" }
    let bound : Queue := [⟨.environment, matrix, switched⟩]
    let short : switched.length < bound.weight := Nat.lt_succ_self _
    let short' : content.length < bound.weight := Nat.lt_succ_of_lt (Nat.lt_succ_self _)
    ShowsRows {} 0 matrix {} short { macros := .empty } [3] ∧
      ShowsRows {} 0 matrix {} short' { macros := .empty } [3] := by
  intro symbol opener closer separator sw cell content switched matrix bound short short'
  let facts (n : Node) : Bool × List Nat × Bool :=
    (endsOpen n.children, rowLengths (Table.ofRow n),
      n.children.all fun m => ["rowspan", "columnspan"].all fun name => (m.attribute? name).isNone)
  have switches : sw.Switches .empty (.ofVariant { italic := true }) := ⟨rfl, rfl, by cbv⟩
  have reads : (readJob {} 0 (contentJob matrix {} switched) { macros := .empty }).1.map facts =
      some (true, [3], true) := by cbv
  have reads' : (readJob {} 0 (contentJob matrix {} content) { macros := .empty }).1.map facts =
      some (true, [3], true) := by cbv
  have keeps : keepsBreaks {} 0 matrix {} content { macros := .empty } = true := by cbv
  have isCell : IsCell {} .empty matrix {} [symbol "a", separator] cell
      [separator, symbol "d"] := by
    have before : ofTokens [symbol "a", separator] =
        [⟨.single, symbol "a", []⟩] ++ [⟨.single, separator, []⟩] := by cbv
    have behind : ofTokens [separator, symbol "d"] =
        [⟨.single, separator, []⟩, ⟨.single, symbol "d", []⟩] := by cbv
    refine ⟨by decide, by decide, ?_, by cbv, by decide, ?_⟩
    · exact before ▸ .cell ⟨rfl, rfl, rfl⟩
    · rw [behind]
      rintro b ⟨⟩
      exact ⟨rfl, rfl⟩
  have idle : ∀ u ∈ switched, u.kind.command = true →
      ¬ Macro.Table.Active (.empty : Macro.Table) u.value := by
    have named : ∀ u ∈ switched, u.kind.command = true → u.value = "em" := by decide
    intro u member command
    rw [named u member command]
    rintro (defines | ⟨m, found, -⟩)
    · cases defines
    · cases found
  have closed : Token.Closed [] := trivial
  have solid : ∀ e ∈ ofTokens [], e.isBreak = false := by
    rw [ofTokens]
    exact List.forall_mem_nil _
  obtain ⟨-, -, both, grids⟩ := grid_of_switched (s := { macros := .empty }) 0 switches isCell
    closed solid (by decide) idle short short'
  obtain ⟨n, n', undivided, undivided', -⟩ := both keeps
  obtain ⟨shown, shown', ended, same⟩ := (grids n n' undivided.1 undivided').2 undivided
  have known : facts n = (true, [3], true) := by
    rw [undivided.1] at reads
    exact Option.some.inj reads
  have known' : facts n' = (true, [3], true) := by
    rw [undivided'.1] at reads'
    exact Option.some.inj reads'
  simp only [facts, Prod.mk.injEq] at known known'
  obtain ⟨opens, -, bare⟩ := known
  obtain ⟨opens', rows', bare'⟩ := known'
  have spans : SameSpans (grid n.children) (grid n'.children) := by
    refine Table.sameSpans_of_unspanned fun m member name known => ?_
    have all := (List.mem_append.mp member).elim (List.all_eq_true.mp bare m)
      (List.all_eq_true.mp bare' m)
    exact Option.isNone_iff_eq_none.mp (List.all_eq_true.mp all name known)
  rw [same (ended.mpr (opens.trans opens'.symm)) spans, rows'] at shown
  rw [rows'] at shown'
  exact ⟨shown, shown'⟩

set_option maxRecDepth 4096 in
/-- A switch takes brackets as one expression, with a break that is in them. -/
theorem cells_joined_by_switch :
    ¬ ∀ (front behind : List Token) (sw : Token) (switch : Switch) (n n' : Node),
      let matrix : Token := { kind := { env := true, opens := true }, value := "matrix" }
      sw.Switches .empty switch → Token.Closed front →
      StartsCell false (ofTokens behind) (ofTokens front) →
      (readJob {} 0 (contentJob matrix {} (front ++ behind)) { macros := .empty }).1 = some n →
      (readJob {} 0 (contentJob matrix {} (front ++ sw :: behind)) { macros := .empty }).1 =
        some n' →
      rowLengths (Table.ofRow n) = rowLengths (Table.ofRow n') := by
  intro kept
  let symbol (value : String) : Token := { kind := { letter := true }, value }
  let opener : Token := { kind := { opens := true }, value := "[", offset := 4 }
  let closer : Token := { kind := { closes := true }, value := "]", offset := -4 }
  let separator : Token := { kind := { reserved := true }, value := "&" }
  let sw : Token := { kind := { command := true }, value := "em" }
  let matrix : Token := { kind := { env := true, opens := true }, value := "matrix" }
  let behind := [opener, symbol "a", separator, symbol "b", closer]
  let rows (n : Node) := rowLengths (Table.ofRow n)
  have switches : sw.Switches .empty (.ofVariant { italic := true }) := ⟨rfl, rfl, by cbv⟩
  have reads : (readJob {} 0 (contentJob matrix {} behind) { macros := .empty }).1.map rows =
      some [2] := by cbv
  have reads' : (readJob {} 0 (contentJob matrix {} (sw :: behind)) { macros := .empty }).1.map
      rows = some [1] := by cbv
  obtain ⟨n, gives, two⟩ := Option.map_eq_some_iff.mp reads
  obtain ⟨n', gives', one⟩ := Option.map_eq_some_iff.mp reads'
  have starts : StartsCell false (ofTokens behind) (ofTokens []) := by
    rw [ofTokens]
    exact .first fun asked => by cases asked
  have same : rows n = rows n' := kept [] behind sw _ n n' switches trivial starts gives gives'
  rw [two, one] at same
  cases same

end Environment

end TexFormula
