import Mathlib
import TexFormula.Plan.Step
import TexFormula.Proofs.Row.Gaps

/-! The cells of a row that becomes a table. A row is put together as if each cell stood alone: what
the passes look for in front of a place they look for up to the next break only, and no run goes
over a break. So a break divides the work of every pass (`Separator.finish_append`), and what a row
shows is what its segments show, with the breaks between them (`arrange_by_segments`). One thing
gets out of a cell: a switch at its start acts on the break in front of it
(`breaks_not_left_alone`). -/
namespace TexFormula.Row

open Node

variable {n separator : Node} {nodes left right before wall : List Node}

/-! ### Walls -/

/-- Nothing behind a row without a base is taken for one. -/
theorem base?_append_of_none (none : base? wall = none) (before : List Node) :
    base? (before ++ wall) = (base? before).map fun b => { b with beyond := b.beyond ++ wall } := by
  induction before with
  | nil => exact none
  | cons n before ih =>
    rw [List.cons_append, base?, base?, ih]
    split
    · rw [Option.map_map, Option.map_map]
      rfl
    · split <;> rfl

theorem settle_append_of_none (none : base? wall = none) (make : Node → Node) (bare : Node)
    (places before : List Node) :
    settle make bare places (before ++ wall) = settle make bare places before ++ wall := by
  unfold settle
  rw [base?_append_of_none none]
  cases base? before <;> simp [Base.replace]

section Wall
variable (none : base? wall = none)
include none

theorem attachScriptsFrom_wall (before nodes : List Node) :
    attachScriptsFrom (before ++ wall) nodes = wall.reverse ++ attachScriptsFrom before nodes := by
  induction nodes using script_induction generalizing before with
  | nil => rw [attachScriptsFrom, attachScriptsFrom, List.reverse_append]
  | plain n rest pending ih =>
    rw [attachScriptsFrom_plain pending, attachScriptsFrom_plain pending, ← List.cons_append]
    exact ih _
  | script n rest partner after pending pair ih =>
    rw [attachScriptsFrom_settle pending pair, attachScriptsFrom_settle pending pair,
      settleScript, settle_append_of_none none]
    exact ih _

theorem buildFractionsFrom_wall (before nodes : List Node) :
    buildFractionsFrom (before ++ wall) nodes =
      wall.reverse ++ buildFractionsFrom before nodes := by
  induction nodes generalizing before with
  | nil => rw [buildFractionsFrom, buildFractionsFrom, List.reverse_append]
  | cons n rest ih =>
    cases operand : n.marks.isOperand && !n.marks.hidden with
    | false =>
      rw [buildFractionsFrom_other operand, buildFractionsFrom_other operand, ← List.cons_append]
      exact ih _
    | true =>
      rw [buildFractionsFrom_settle operand, buildFractionsFrom_settle operand, settleOperand,
        settle_append_of_none none]
      exact ih _

theorem fixCharactersFrom_wall (before nodes : List Node) :
    fixCharactersFrom (before ++ wall) nodes = wall.reverse ++ fixCharactersFrom before nodes := by
  match nodes with
  | [] => rw [fixCharactersFrom, fixCharactersFrom, List.reverse_append]
  | n :: rest =>
    cases hidden : n.marks.hidden with
    | true =>
      rw [fixCharactersFrom_hidden hidden, fixCharactersFrom_hidden hidden, ← List.cons_append]
      exact fixCharactersFrom_wall _ rest
    | false =>
      cases prime : isPrime n with
      | false =>
        rw [fixCharactersFrom_other hidden prime, fixCharactersFrom_other hidden prime,
          ← List.cons_append]
        exact fixCharactersFrom_wall _ rest
      | true =>
        have shorter : (rest.dropWhile continuesPrimes).length ≤ rest.length :=
          (List.dropWhile_sublist _).length_le
        rw [fixCharactersFrom_prime hidden prime, fixCharactersFrom_prime hidden prime,
          settlePrimes, settle_append_of_none none, ← List.append_assoc]
        exact fixCharactersFrom_wall _ (rest.dropWhile continuesPrimes)
termination_by nodes.length

end Wall

/-! ### Separators -/

/-- Whether a node ends a cell or a row and does nothing else: it is written, asks nothing of its
neighbours, and no pass changes it or takes it together with others. -/
structure Separator (n : Node) : Prop where
  ends : n.marks.isBreak = true
  shown : n.marks.hidden = false
  noScript : n.marks.isScript = false
  noOperand : n.marks.isOperand = false
  noSwitch : n.marks.isLimitSwitch = false
  noSpace : isFixedSpace n = false
  noPrime : isPrime n = false
  noHyphen : (n.tag == "mo" && n.text == "-") = false

instance (n : Node) : Decidable (Separator n) :=
  decidable_of_iff (n.marks.isBreak = true ∧ n.marks.hidden = false ∧ n.marks.isScript = false ∧
      n.marks.isOperand = false ∧ n.marks.isLimitSwitch = false ∧ isFixedSpace n = false ∧
      isPrime n = false ∧ (n.tag == "mo" && n.text == "-") = false)
    ⟨fun ⟨ends, shown, script, operand, switch, space, prime, hyphen⟩ =>
      ⟨ends, shown, script, operand, switch, space, prime, hyphen⟩,
      fun ⟨ends, shown, script, operand, switch, space, prime, hyphen⟩ =>
      ⟨ends, shown, script, operand, switch, space, prime, hyphen⟩⟩

/-- The breaks of a table are separators. -/
theorem separator_breaks : Separator Step.cellBreak ∧ Separator Step.rowBreak := by
  decide

namespace Separator

variable (is : Separator separator)
include is

theorem base?_eq_none (before : List Node) : base? (separator :: before) = none :=
  base?_of_break (List.forall_mem_nil _) is.shown is.ends

theorem plain : isPendingScript separator = false := by
  rw [isPendingScript, is.noScript, Bool.false_and]

theorem fixMinus_eq : fixMinus separator = separator :=
  if_neg (Bool.eq_false_iff.mp is.noHyphen)

theorem taken : separator.isPlaceholder = false :=
  isPlaceholder_of_shown is.shown

theorem attachScripts_append (left right : List Node) :
    attachScripts (left ++ separator :: right) =
      attachScripts left ++ separator :: attachScripts right := by
  have stop : ∀ n ∈ (separator :: right).head?, isPendingScript n = false := by
    rintro _ ⟨⟩
    exact is.plain
  have wall := attachScriptsFrom_wall (is.base?_eq_none (attachScripts left).reverse) [] right
  rw [attachScripts, attachScriptsFrom_cut stop, attachScriptsFrom_plain is.plain]
  refine wall.trans ?_
  rw [List.reverse_cons, List.reverse_reverse, List.append_assoc, List.singleton_append]
  rfl

theorem buildFractions_append (left right : List Node) :
    buildFractions (left ++ separator :: right) =
      buildFractions left ++ separator :: buildFractions right := by
  have wall := buildFractionsFrom_wall (is.base?_eq_none (buildFractions left).reverse) [] right
  rw [buildFractions, buildFractionsFrom_append,
    buildFractionsFrom_other (by rw [is.noOperand, Bool.false_and])]
  refine wall.trans ?_
  rw [List.reverse_cons, List.reverse_reverse, List.append_assoc, List.singleton_append]
  rfl

theorem joinSpaces_append (left right : List Node) :
    joinSpaces (left ++ separator :: right) =
      joinSpaces left ++ separator :: joinSpaces right := by
  have stop : ∀ n ∈ (separator :: right).head?, continuesSpaces n = false := by
    rintro _ ⟨⟩
    rw [continuesSpaces, is.taken, is.noSpace, Bool.or_false]
  rw [joinSpaces_cut stop, joinSpaces_other is.noSpace]

theorem fixCharacters_append (left right : List Node) :
    fixCharacters (left ++ separator :: right) =
      fixCharacters left ++ separator :: fixCharacters right := by
  have stop : ∀ n ∈ (separator :: right).head?, continuesPrimes n = false := by
    rintro _ ⟨⟩
    rw [continuesPrimes, is.taken, is.noPrime, Bool.or_false]
  have wall := fixCharactersFrom_wall (is.base?_eq_none (fixCharacters left).reverse) [] right
  rw [fixCharacters, fixCharactersFrom_cut stop, fixCharactersFrom_other is.shown is.noPrime,
    is.fixMinus_eq]
  refine wall.trans ?_
  rw [List.reverse_cons, List.reverse_reverse, List.append_assoc, List.singleton_append]
  rfl

/-- A break divides what is left to be done once the limit switches are applied. -/
theorem finish_append (left right : List Node) :
    finish (left ++ separator :: right) = finish left ++ separator :: finish right := by
  unfold finish
  rw [is.attachScripts_append, is.buildFractions_append, is.joinSpaces_append,
    is.fixCharacters_append]

theorem switchLimits (switch : Marks) : Separator (switchLimits switch separator) := by
  obtain ⟨ends, shown, noScript, noOperand, noSwitch, noSpace, noPrime, noHyphen⟩ := is
  unfold Row.switchLimits
  split <;> exact ⟨ends, shown, noScript, noOperand, noSwitch, noSpace, noPrime, noHyphen⟩

theorem obey (switches : List Node) : Separator (obey separator switches) := by
  induction switches generalizing separator with
  | nil => exact is
  | cons s switches ih => exact ih (is.switchLimits s.marks)

end Separator

/-! ### The start of a cell -/

/-- Nodes at the start of a row that are not written stay as they are and do not matter. -/
theorem finish_append_of_hidden (hidden : ∀ n ∈ left, n.marks.hidden = true)
    (other : ∀ n ∈ left, isFixedSpace n = false) (right : List Node) :
    finish (left ++ right) = left ++ finish right := by
  have none : base? left.reverse = none := base?_of_hidden (forall_reverse hidden)
  have plain : ∀ n ∈ left, isPendingScript n = false := fun n member => by
    rw [isPendingScript, hidden n member, Bool.not_true, Bool.and_false]
  have operand : ∀ n ∈ left, (n.marks.isOperand && !n.marks.hidden) = false := fun n member => by
    rw [hidden n member, Bool.not_true, Bool.and_false]
  have scripts : attachScripts (left ++ right) = left ++ attachScripts right := by
    rw [attachScripts, attachScriptsFrom_append_of_plain plain, List.append_nil]
    exact (attachScriptsFrom_wall none [] right).trans (by rw [List.reverse_reverse, attachScripts])
  have fractions : ∀ right, buildFractions (left ++ right) = left ++ buildFractions right := by
    intro right
    rw [buildFractions, buildFractionsFrom_append_of_other operand, List.append_nil]
    exact (buildFractionsFrom_wall none [] right).trans
      (by rw [List.reverse_reverse, buildFractions])
  have characters : ∀ right, fixCharacters (left ++ right) = left ++ fixCharacters right := by
    intro right
    rw [fixCharacters, fixCharactersFrom_append_of_hidden hidden, List.append_nil]
    exact (fixCharactersFrom_wall none [] right).trans (by rw [List.reverse_reverse, fixCharacters])
  unfold finish
  rw [scripts, fractions, joinSpaces_append_of_other other, characters]

/-- Nodes at the end of a row that are not written stay as they are and do not matter, if the first
of them ends what is taken together before it. -/
theorem finish_append_of_trailing (hidden : ∀ n ∈ right, n.marks.hidden = true)
    (other : ∀ n ∈ right, isFixedSpace n = false)
    (stop : ∀ n ∈ right.head?, n.isPlaceholder = false ∧ isPrime n = false) (left : List Node) :
    finish (left ++ right) = finish left ++ right := by
  have plain : ∀ n ∈ right, isPendingScript n = false := fun n member => by
    rw [isPendingScript, hidden n member, Bool.not_true, Bool.and_false]
  have operand : ∀ n ∈ right, (n.marks.isOperand && !n.marks.hidden) = false := fun n member => by
    rw [hidden n member, Bool.not_true, Bool.and_false]
  have scripts : attachScripts (left ++ right) = attachScripts left ++ right := by
    have passed : attachScriptsFrom (attachScripts left).reverse (right ++ []) =
        attachScriptsFrom (right.reverse ++ (attachScripts left).reverse) [] :=
      attachScriptsFrom_append_of_plain plain
    rw [List.append_nil, attachScriptsFrom, List.reverse_append, List.reverse_reverse,
      List.reverse_reverse] at passed
    exact (attachScriptsFrom_cut (fun n first => plain n (List.mem_of_mem_head? first)) [] left).trans
      passed
  have fractions : ∀ left, buildFractions (left ++ right) = buildFractions left ++ right := by
    intro left
    have passed : buildFractionsFrom (buildFractions left).reverse (right ++ []) =
        buildFractionsFrom (right.reverse ++ (buildFractions left).reverse) [] :=
      buildFractionsFrom_append_of_other operand
    rw [List.append_nil, buildFractionsFrom, List.reverse_append, List.reverse_reverse,
      List.reverse_reverse] at passed
    exact (buildFractionsFrom_append [] left right).trans passed
  have spaces : ∀ left, joinSpaces (left ++ right) = joinSpaces left ++ right := by
    intro left
    have passed := joinSpaces_append_of_other other []
    rw [List.append_nil, joinSpaces, List.append_nil] at passed
    rw [joinSpaces_cut _ left, passed]
    intro n first
    rw [continuesSpaces, (stop n first).1, other n (List.mem_of_mem_head? first), Bool.or_false]
  have characters : ∀ left, fixCharacters (left ++ right) = fixCharacters left ++ right := by
    intro left
    have passed : fixCharactersFrom (fixCharacters left).reverse (right ++ []) =
        fixCharactersFrom (right.reverse ++ (fixCharacters left).reverse) [] :=
      fixCharactersFrom_append_of_hidden hidden
    rw [List.append_nil, fixCharactersFrom, List.reverse_append, List.reverse_reverse,
      List.reverse_reverse] at passed
    refine (fixCharactersFrom_cut (fun n first => ?_) [] left).trans passed
    rw [continuesPrimes, (stop n first).1, (stop n first).2, Bool.or_false]
  unfold finish
  rw [scripts, fractions, spaces, characters]

/-- Whether a node at the start of a cell can be left to the cell: if it is a switch, it is not
written, and it is no space to be joined with others. -/
def Starts (n : Node) : Prop :=
  n.marks.isLimitSwitch = true → n.marks.hidden = true ∧ isFixedSpace n = false

instance (n : Node) : Decidable (Starts n) :=
  inferInstanceAs (Decidable (_ → _))

theorem hidden_obey (op : Node) (switches : List Node) :
    (obey op switches).marks.hidden = op.marks.hidden ∧
      isFixedSpace (obey op switches) = isFixedSpace op := by
  induction switches generalizing op with
  | nil => exact ⟨rfl, rfl⟩
  | cons s switches ih =>
    obtain ⟨hidden, space⟩ := ih (switchLimits s.marks op)
    have step : (switchLimits s.marks op).marks.hidden = op.marks.hidden ∧
        isFixedSpace (switchLimits s.marks op) = isFixedSpace op := by
      unfold switchLimits
      split <;> exact ⟨rfl, rfl⟩
    exact ⟨hidden.trans step.1, space.trans step.2⟩

/-- The switches at the start of a row do not show. -/
theorem finish_switches {switches : List Node}
    (are : ∀ s ∈ switches, s.marks.isLimitSwitch = true) (starts : ∀ s ∈ switches.head?, Starts s)
    (rest : List Node) :
    (finish (applySwitches switches ++ rest)).filter isShown = (finish rest).filter isShown := by
  cases switches with
  | nil => rfl
  | cons s switches =>
    obtain ⟨hidden, space⟩ := starts s rfl (are s List.mem_cons_self)
    obtain ⟨hidden', space'⟩ := hidden_obey s switches
    have applied : applySwitches (s :: switches) =
        List.replicate switches.length .placeholder ++ [obey s switches] := by
      have made := applySwitchesFrom_switches (List.forall_mem_cons.mp are).2 s []
      rwa [List.append_nil] at made
    have unwritten : ∀ n ∈ applySwitches (s :: switches), n.marks.hidden = true := by
      rw [applied]
      exact List.forall_mem_append.mpr
        ⟨hidden_replicate _, List.forall_mem_singleton.mpr (hidden'.trans hidden)⟩
    have other : ∀ n ∈ applySwitches (s :: switches), isFixedSpace n = false := by
      rw [applied]
      refine List.forall_mem_append.mpr
        ⟨fun n member => ?_, List.forall_mem_singleton.mpr (space'.trans space)⟩
      rw [List.eq_of_mem_replicate member]
      rfl
    have nothing : (applySwitches (s :: switches)).filter isShown = [] := by
      refine List.filter_eq_nil_iff.mpr fun n member => ?_
      simp [isShown, unwritten n member]
    rw [finish_append_of_hidden unwritten other, List.filter_append, nothing, List.nil_append]

/-! ### Segments -/

/-- The nodes of a row up to its first break, and for each break the nodes behind it up to the next
one. -/
def segments : List Node → List Node × List (Node × List Node)
  | [] => ([], [])
  | n :: rest =>
    let more := segments rest
    if n.marks.isBreak then ([], (n, more.1) :: more.2) else (n :: more.1, more.2)

/-- The row of some segments. -/
def joinSegments (first : List Node) (more : List (Node × List Node)) : List Node :=
  first ++ more.flatMap fun p => p.1 :: p.2

theorem joinSegments_segments (nodes : List Node) :
    joinSegments (segments nodes).1 (segments nodes).2 = nodes := by
  induction nodes with
  | nil => rfl
  | cons n rest ih =>
    unfold joinSegments at ih
    simp only [segments]
    split
    · simp [joinSegments, ih]
    · simp [joinSegments, ih]

/-- The segments of a row arranged one by one, with the breaks as `mark` leaves them. -/
def arrangeSegments (mark : Node → List Node → Node) (nodes : List Node) : List Node :=
  joinSegments (arrange (segments nodes).1)
    ((segments nodes).2.map fun p => (mark p.1 p.2, arrange p.2))

/-- A break as the switches right behind it leave it. -/
def switchBreak (separator : Node) (segment : List Node) : Node :=
  obey separator (segment.takeWhile (·.marks.isLimitSwitch))

theorem switches_front (nodes : List Node) :
    (∀ s ∈ nodes.takeWhile (·.marks.isLimitSwitch), s.marks.isLimitSwitch = true) ∧
      ∀ n ∈ (nodes.dropWhile (·.marks.isLimitSwitch)).head?, n.marks.isLimitSwitch = false := by
  refine ⟨fun s member => by simpa using List.mem_takeWhile_imp member, fun n member => ?_⟩
  have stop := List.head?_dropWhile_not (fun n : Node => n.marks.isLimitSwitch) nodes
  rwa [Option.mem_def.mp member] at stop

/-- A break divides a row. The switches right behind it act on it, and their places come in front of
it. -/
theorem Separator.arrange_append (is : Separator separator) (left right : List Node) :
    arrange (left ++ separator :: right) =
      finish (applySwitches left ++
          List.replicate (right.takeWhile (·.marks.isLimitSwitch)).length .placeholder) ++
        switchBreak separator right :: arrange (right.dropWhile (·.marks.isLimitSwitch)) := by
  obtain ⟨are, stop⟩ := switches_front right
  have cut : applySwitchesFrom (switchBreak separator right)
      ([] ++ right.dropWhile (·.marks.isLimitSwitch)) =
        [switchBreak separator right] ++
          applySwitches (right.dropWhile (·.marks.isLimitSwitch)) := applySwitchesFrom_append stop
  have whole : applySwitchesFrom separator right =
      List.replicate (right.takeWhile (·.marks.isLimitSwitch)).length .placeholder ++
        switchBreak separator right :: applySwitches (right.dropWhile (·.marks.isLimitSwitch)) := by
    have applied := applySwitchesFrom_switches are separator
      (right.dropWhile (·.marks.isLimitSwitch))
    rw [List.takeWhile_append_dropWhile] at applied
    exact applied.trans (congrArg _ cut)
  have is' : Separator (switchBreak separator right) := is.obey _
  rw [arrange_eq_finish, applySwitches_op is.noSwitch, whole, ← List.append_assoc,
    is'.finish_append, ← arrange_eq_finish]

/-- The two parts of a row with a break show what they show alone. -/
theorem shown_arrange_append (is : Separator separator) (starts : ∀ n ∈ right.head?, Starts n)
    (left : List Node) :
    (arrange (left ++ separator :: right)).filter isShown =
      (arrange left).filter isShown ++
        switchBreak separator right :: (arrange right).filter isShown := by
  obtain ⟨are, stop⟩ := switches_front right
  have first : ∀ s ∈ (right.takeWhile (·.marks.isLimitSwitch)).head?, Starts s := by
    cases right with
    | nil => simp
    | cons n right =>
      cases switch : n.marks.isLimitSwitch with
      | true => simpa [switch] using starts
      | false => simp [switch]
  have alone : (arrange right).filter isShown =
      (arrange (right.dropWhile (·.marks.isLimitSwitch))).filter isShown := by
    have split : applySwitches (right.takeWhile (·.marks.isLimitSwitch) ++
          right.dropWhile (·.marks.isLimitSwitch)) =
        applySwitches (right.takeWhile (·.marks.isLimitSwitch)) ++
          applySwitches (right.dropWhile (·.marks.isLimitSwitch)) := applySwitches_append stop
    rw [List.takeWhile_append_dropWhile] at split
    rw [arrange_eq_finish, split, finish_switches are first, arrange_eq_finish]
  have gap : occupied (finish (applySwitches left ++ (List.replicate
        (right.takeWhile (·.marks.isLimitSwitch)).length .placeholder ++ []))) =
      occupied (finish (applySwitches left ++ [])) := occupied_finish_gap _ _ (by simp)
  rw [List.append_nil, List.append_nil, ← arrange_eq_finish] at gap
  have shown : isShown (switchBreak separator right) = true := by
    simp [isShown, switchBreak, (is.obey _).shown]
  rw [is.arrange_append, List.filter_append, List.filter_cons_of_pos shown, shown_of_occupied gap,
    alone]

theorem shown_arrange_joinSegments (first : List Node) (more : List (Node × List Node))
    (separators : ∀ p ∈ more, Separator p.1 ∧ ∀ n ∈ p.2.head?, Starts n) :
    (arrange (joinSegments first more)).filter isShown =
      (joinSegments (arrange first)
        (more.map fun p => (switchBreak p.1 p.2, arrange p.2))).filter isShown := by
  induction more generalizing first with
  | nil => simp [joinSegments]
  | cons p more ih =>
    obtain ⟨⟨is, starts⟩, later⟩ := List.forall_mem_cons.mp separators
    -- The next break is no switch, so the switches behind this one are those of its segment.
    have next : ∀ n ∈ (more.flatMap fun p => p.1 :: p.2).head?, n.marks.isLimitSwitch = false := by
      cases more with
      | nil => simp
      | cons q more =>
        rintro _ ⟨⟩
        exact (later q List.mem_cons_self).1.noSwitch
    have same : switchBreak p.1 (joinSegments p.2 more) = switchBreak p.1 p.2 := by
      rw [switchBreak, joinSegments, (takeWhile_append_of_stop next p.2).1, switchBreak]
    have begins : ∀ n ∈ (joinSegments p.2 more).head?, Starts n := by
      unfold joinSegments
      cases segment : p.2 with
      | nil =>
        intro n member switch
        cases switch.symm.trans (next n member)
      | cons m segment =>
        rintro _ ⟨⟩
        exact starts m (by rw [segment]; rfl)
    have shown : isShown (switchBreak p.1 p.2) = true := by
      simp [isShown, switchBreak, (is.obey _).shown]
    have split : joinSegments first (p :: more) = first ++ p.1 :: joinSegments p.2 more := by
      simp [joinSegments]
    rw [split, shown_arrange_append is begins, same, ih p.2 later]
    simp [joinSegments, shown]

/-! ### Main result -/

/-- A row is put together cell by cell. What it shows is what its segments show when each of them is
put together alone, with the breaks between them in their order; only that a break has its limits as
the switches right behind it want them. The breaks have to be nothing else than breaks, and a switch
right behind one must not be written. -/
theorem arrange_by_segments
    (separators : ∀ p ∈ (segments nodes).2, Separator p.1 ∧ ∀ n ∈ p.2.head?, Starts n) :
    joinSegments (segments nodes).1 (segments nodes).2 = nodes ∧
      (arrange nodes).filter isShown = (arrangeSegments switchBreak nodes).filter isShown := by
  refine ⟨joinSegments_segments nodes, ?_⟩
  have shown := shown_arrange_joinSegments (segments nodes).1 (segments nodes).2 separators
  rwa [joinSegments_segments] at shown

/-- Two rows of cells: a script, a prime and a second operand at the start of their cells have no
base, and a switch there does not reach the sum in the cell before. -/
theorem arrange_by_segments_grid :
    ∃ nodes : List Node,
      (∀ p ∈ (segments nodes).2, Separator p.1 ∧ ∀ n ∈ p.2.head?, Starts n) ∧
      ((arrange nodes).filter isShown).map Node.tag =
        ["mi", "", "msup", "", "mo", "", "mi", "", "msup", "", "mfrac"] ∧
      (arrange nodes).filter isShown = (arrangeSegments switchBreak nodes).filter isShown := by
  let nodes : List Node := [leaf "mi" "a", Step.cellBreak,
    (leaf "mn" "2").mark { superscript := true }, Step.rowBreak, leaf "mo" "∑", Step.cellBreak,
    (leaf "mi" "limits").mark { limits := true, hidden := true }, leaf "mi" "b", Step.cellBreak,
    leaf "mi" "'", Step.cellBreak, (leaf "mi" "c").mark { overOperand := true }]
  have separators : ∀ p ∈ (segments nodes).2, Separator p.1 ∧ ∀ n ∈ p.2.head?, Starts n := by
    decide
  exact ⟨nodes, separators, by cbv, (arrange_by_segments separators).2⟩

/-- Whether a node is no script, no second operand and no switch. -/
def Unmarked (n : Node) : Prop :=
  n.marks.isScript = false ∧ n.marks.isOperand = false ∧ n.marks.isLimitSwitch = false

instance (n : Node) : Decidable (Unmarked n) :=
  inferInstanceAs (Decidable (_ ∧ _))

/-- Breaks without such marks need not stay as they are: a switch acts on the break in front of it.
Beyond that, a break that is not written does not keep a script off, a break that is a hyphen
becomes a minus sign, and a switch that is written goes away behind a break. -/
theorem breaks_not_left_alone :
    (¬ ∀ nodes, (∀ p ∈ (segments nodes).2, Unmarked p.1) →
      (arrange nodes).filter isShown = (arrangeSegments (fun n _ => n) nodes).filter isShown) ∧
    (¬ ∀ nodes, (∀ p ∈ (segments nodes).2, Unmarked p.1 ∧ p.1.tag = "") →
      (arrange nodes).filter isShown = (arrangeSegments switchBreak nodes).filter isShown) ∧
    (¬ ∀ nodes, (∀ p ∈ (segments nodes).2, Unmarked p.1 ∧ p.1.marks.hidden = false) →
      (arrange nodes).filter isShown = (arrangeSegments switchBreak nodes).filter isShown) ∧
    (¬ ∀ nodes, (∀ p ∈ (segments nodes).2, Separator p.1) →
      (arrange nodes).filter isShown = (arrangeSegments switchBreak nodes).filter isShown) := by
  refine ⟨fun alike => ?_, fun alike => ?_, fun alike => ?_, fun alike => ?_⟩
  · have same := alike [leaf "mi" "a", Step.cellBreak,
      (leaf "mi" "limits").mark { limits := true, hidden := true }, leaf "mi" "b"] (by decide)
    exact absurd (congrArg (List.map Node.marks) same) (by cbv; decide)
  · have same := alike [leaf "mi" "a", Step.cellBreak.mark { hidden := true },
      (leaf "mi" "b").mark { subscript := true }] (by decide)
    exact absurd (congrArg (List.map Node.tag) same) (by cbv; decide)
  · have same := alike [leaf "mi" "a", (leaf "mo" "-").mark { cellBreak := true }] (by decide)
    exact absurd (congrArg (List.map Node.text) same) (by cbv; decide)
  · have same := alike [leaf "mi" "a", Step.cellBreak,
      (leaf "mi" "limits").mark { limits := true }] (by decide)
    exact absurd (congrArg (List.map Node.tag) same) (by cbv; decide)

end TexFormula.Row
