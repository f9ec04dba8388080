import TexFormula.Proofs.Row.ScriptOrder
import TexFormula.Proofs.Row.Settling

/-! Free places in a row. Once the limit switches have done their work, rows that differ in
placeholders only are put together alike (`occupied_finish_gap`), with one exception: a script finds
its partner right behind it or not at all. A switch leaves a placeholder in front of the node that
it acts on, and that is a place where no partner is looked for, unless the node is a script. So a
row with switches is put together as the row without them and with the node as they leave it
(`switches_eliminated`). -/
namespace TexFormula.Row

open Node

variable {n op last : Node} {nodes before other rest front switches pre post : List Node}

/-! ### Bases -/

/-- The base without the placeholders beside it. -/
def Base.occupied (b : Base) : Base :=
  ⟨Row.occupied b.between, b.node, Row.occupied b.beyond⟩

theorem base?_occupied (nodes : List Node) :
    base? (occupied nodes) = (base? nodes).map Base.occupied := by
  induction nodes with
  | nil => rfl
  | cons n rest ih =>
    cases free : n.isPlaceholder with
    | true =>
      rw [occupied_free free, ih, base?, if_pos (hidden_of_isPlaceholder free), Option.map_map]
      refine congrArg (Option.map · (base? rest)) (funext fun b => ?_)
      exact congrArg (Base.mk · b.node (Row.occupied b.beyond)) (occupied_free free b.between).symm
    | false =>
      rw [occupied_cons free, base?, base?]
      split
      case isTrue hidden =>
        rw [ih, Option.map_map, Option.map_map]
        refine congrArg (Option.map · (base? rest)) (funext fun b => ?_)
        exact congrArg (Base.mk · b.node (Row.occupied b.beyond))
          (occupied_cons free b.between).symm
      case isFalse =>
        split
        · rfl
        · rfl

theorem occupied_replace (b : Base) (n : Node) :
    occupied (b.occupied.replace n) = occupied (b.replace n) := by
  have split : ∀ nodes, n :: nodes = [n] ++ nodes := fun _ => rfl
  rw [Base.replace, Base.replace, split, split b.beyond]
  simp only [occupied_append, Base.occupied, occupied_occupied]

/-- Placeholders do not change what becomes of the nodes before a place. -/
theorem occupied_settle (same : occupied before = occupied other) (make : Node → Node)
    (bare : Node) (places : List Node) :
    occupied (settle make bare places before) = occupied (settle make bare places other) := by
  have bases : (base? before).map Base.occupied = (base? other).map Base.occupied := by
    rw [← base?_occupied, same, base?_occupied]
  have split : ∀ nodes, bare :: nodes = [bare] ++ nodes := fun _ => rfl
  unfold settle
  cases found : base? before with
  | none =>
    rw [found, Option.map_none, eq_comm, Option.map_eq_none_iff] at bases
    rw [bases, split, split other]
    simp only [occupied_append, same]
  | some b =>
    rw [found, Option.map_some, eq_comm, Option.map_eq_some_iff] at bases
    obtain ⟨b', found', alike⟩ := bases
    have node : b'.occupied.node = b.occupied.node := congrArg Base.node alike
    change b'.node = b.node at node
    simp only [found', node]
    rw [occupied_append, occupied_append, occupied_free rfl, occupied_free rfl,
      ← occupied_replace b, ← occupied_replace b', alike]

theorem occupied_cons_congr (same : occupied before = occupied other) (n : Node) :
    occupied (n :: before) = occupied (n :: other) := by
  cases free : n.isPlaceholder with
  | true => rw [occupied_free free, occupied_free free, same]
  | false => rw [occupied_cons free, occupied_cons free, same]

/-! ### Passes -/

/-- The nodes before a place may differ in placeholders while scripts are attached. -/
theorem occupied_attachScriptsFrom {before other : List Node}
    (same : occupied before = occupied other) (nodes : List Node) :
    occupied (attachScriptsFrom before nodes) = occupied (attachScriptsFrom other nodes) := by
  induction nodes using script_induction generalizing before other with
  | nil => rw [attachScriptsFrom, attachScriptsFrom, occupied_reverse, occupied_reverse, same]
  | plain n rest pending ih =>
    rw [attachScriptsFrom_plain pending, attachScriptsFrom_plain pending]
    exact ih (occupied_cons_congr same n)
  | script n rest partner after pending pair ih =>
    rw [attachScriptsFrom_settle pending pair, attachScriptsFrom_settle pending pair]
    refine ih ?_
    unfold settleScript
    exact occupied_settle same _ _ _

/-- In front of a node that is no script, placeholders do not change how scripts are attached. -/
theorem occupied_attachScripts_gap (front : List Node) (count : Nat)
    (plain : ∀ n ∈ rest.head?, isPendingScript n = false) :
    occupied (attachScripts (front ++ (List.replicate count .placeholder ++ rest))) =
      occupied (attachScripts (front ++ rest)) := by
  have free : ∀ n ∈ List.replicate count placeholder, isPendingScript n = false := by
    intro n member
    rw [List.eq_of_mem_replicate member]
    rfl
  have cut : ∀ n ∈ (List.replicate count placeholder ++ rest).head?, isPendingScript n = false := by
    cases count with
    | zero => exact plain
    | succ count =>
      rintro _ ⟨⟩
      rfl
  have behind : attachScripts (front ++ (List.replicate count placeholder ++ rest)) =
      attachScriptsFrom (List.replicate count placeholder ++ (attachScripts front).reverse)
        rest := by
    rw [attachScripts, attachScriptsFrom_cut cut, attachScriptsFrom_append_of_plain free,
      List.reverse_replicate, attachScripts]
  have without : attachScripts (front ++ rest) =
      attachScriptsFrom (attachScripts front).reverse rest := attachScriptsFrom_cut plain [] front
  rw [behind, without]
  exact occupied_attachScriptsFrom (occupied_replicate _ _) rest

theorem occupied_buildFractionsFrom (same : occupied before = occupied other) (nodes : List Node) :
    occupied (buildFractionsFrom before nodes) =
      occupied (buildFractionsFrom other (occupied nodes)) := by
  induction nodes generalizing before other with
  | nil => rw [occupied_nil, buildFractionsFrom, buildFractionsFrom, occupied_reverse,
      occupied_reverse, same]
  | cons n rest ih =>
    cases free : n.isPlaceholder with
    | true =>
      rw [occupied_free free, buildFractionsFrom_hidden (hidden_of_isPlaceholder free)]
      exact ih ((occupied_free free before).trans same)
    | false =>
      rw [occupied_cons free]
      cases operand : n.marks.isOperand && !n.marks.hidden with
      | false =>
        rw [buildFractionsFrom_other operand, buildFractionsFrom_other operand]
        exact ih (occupied_cons_congr same n)
      | true =>
        rw [buildFractionsFrom_settle operand, buildFractionsFrom_settle operand]
        refine ih ?_
        unfold settleOperand
        exact occupied_settle same _ _ _

theorem occupied_joinSpaces (nodes : List Node) :
    occupied (joinSpaces nodes) = occupied (joinSpaces (occupied nodes)) := by
  induction nodes using run_induction with
  | nil => rfl
  | other n rest other ih =>
    rw [joinSpaces_other other]
    cases free : n.isPlaceholder with
    | true => rw [occupied_free free, occupied_free free, ih]
    | false => rw [occupied_cons free, occupied_cons free, joinSpaces_other other,
        occupied_cons free, ih]
  | run first others right space inside ends ih =>
    have taken : first.isPlaceholder = false := isPlaceholder_of_isFixedSpace space
    have spaces : ∀ n ∈ occupied others, continuesSpaces n = true := fun n member =>
      inside n (List.mem_of_mem_filter member)
    have stops : ∀ n ∈ (occupied right).head?, continuesSpaces n = false := by
      cases right with
      | nil => simp
      | cons k right =>
        rwa [occupied_cons (Bool.or_eq_false_iff.mp (ends k rfl)).1]
    have width : totalWidth (first :: occupied others) = totalWidth (first :: others) := by
      rw [← occupied_cons taken, totalWidth_occupied]
    rw [joinSpaces_run space inside ends, occupied_append, occupied_joined space inside, ih,
      occupied_cons taken, occupied_append, joinSpaces_run space spaces stops, occupied_append,
      occupied_joined space spaces, width]

theorem occupied_fixCharactersFrom {before other : List Node}
    (same : occupied before = occupied other) (nodes : List Node) :
    occupied (fixCharactersFrom before nodes) =
      occupied (fixCharactersFrom other (occupied nodes)) := by
  match nodes with
  | [] => rw [occupied_nil, fixCharactersFrom, fixCharactersFrom, occupied_reverse,
      occupied_reverse, same]
  | n :: rest =>
    cases free : n.isPlaceholder with
    | true =>
      rw [occupied_free free, fixCharactersFrom_hidden (hidden_of_isPlaceholder free)]
      exact occupied_fixCharactersFrom ((occupied_free free before).trans same) rest
    | false =>
      rw [occupied_cons free]
      cases hidden : n.marks.hidden with
      | true =>
        rw [fixCharactersFrom_hidden hidden, fixCharactersFrom_hidden hidden]
        exact occupied_fixCharactersFrom (occupied_cons_congr same n) rest
      | false =>
        cases prime : isPrime n with
        | false =>
          rw [fixCharactersFrom_other hidden prime, fixCharactersFrom_other hidden prime]
          exact occupied_fixCharactersFrom (occupied_cons_congr same _) rest
        | true =>
          have free : ∀ m : Node, m.isPlaceholder = true → continuesPrimes m = true := by
            intro m placeholder
            rw [continuesPrimes, placeholder, Bool.true_or]
          have count : countPrimes ((occupied rest).takeWhile continuesPrimes) =
              countPrimes (rest.takeWhile continuesPrimes) := by
            rw [← occupied_takeWhile free, countPrimes, occupied_occupied, countPrimes]
          have shorter : (rest.dropWhile continuesPrimes).length ≤ rest.length :=
            (List.dropWhile_sublist _).length_le
          rw [fixCharactersFrom_prime hidden prime, fixCharactersFrom_prime hidden prime, count,
            ← occupied_dropWhile free]
          refine occupied_fixCharactersFrom ?_ (rest.dropWhile continuesPrimes)
          rw [occupied_replicate, occupied_replicate]
          unfold settlePrimes
          exact occupied_settle same _ _ _
termination_by nodes.length

/-- What becomes of a row once its limit switches are applied. -/
def finish (nodes : List Node) : List Node :=
  fixCharacters (joinSpaces (buildFractions (attachScripts nodes)))

theorem arrange_eq_finish (nodes : List Node) : arrange nodes = finish (applySwitches nodes) := rfl

/-- In front of a node that is no script, placeholders do not change what a row becomes. -/
theorem occupied_finish_gap (front : List Node) (count : Nat)
    (plain : ∀ n ∈ rest.head?, isPendingScript n = false) :
    occupied (finish (front ++ (List.replicate count .placeholder ++ rest))) =
      occupied (finish (front ++ rest)) := by
  have built : ∀ {nodes other}, occupied nodes = occupied other →
      occupied (buildFractions nodes) = occupied (buildFractions other) := by
    intro nodes other same
    rw [buildFractions, occupied_buildFractionsFrom rfl, same,
      ← occupied_buildFractionsFrom rfl, ← buildFractions]
  have joined : ∀ {nodes other}, occupied nodes = occupied other →
      occupied (joinSpaces nodes) = occupied (joinSpaces other) := by
    intro nodes other same
    rw [occupied_joinSpaces, same, ← occupied_joinSpaces]
  have fixed : ∀ {nodes other}, occupied nodes = occupied other →
      occupied (fixCharacters nodes) = occupied (fixCharacters other) := by
    intro nodes other same
    rw [fixCharacters, occupied_fixCharactersFrom rfl, same, ← occupied_fixCharactersFrom rfl,
      ← fixCharacters]
  exact fixed (joined (built (occupied_attachScripts_gap front count plain)))

/-! ### Limit switches -/

/-- The node that some switches act on one after the other. -/
def obey (op : Node) (switches : List Node) : Node :=
  switches.foldl (fun n switch => switchLimits switch.marks n) op

/-- Whether a node is another one with its limits as a switch wants them. -/
structure Obeys (op : Node) (switch : Marks) (n : Node) : Prop where
  tag : n.tag = op.tag
  text : n.text = op.text
  css : n.css = op.css
  children : n.children = op.children
  token : n.token = op.token
  option : n.option = op.option
  marks : n.marks = { op.marks with stackedLimits := switch.limits, movableLimits := false }
  attributes : ∀ name, n.attribute? name =
    if name = "movablelimits" then if switch.limits then some "false" else none
    else op.attribute? name

theorem obeys_switchLimits (switch : Marks) (op : Node) :
    Obeys op switch (switchLimits switch op) := by
  unfold switchLimits
  cases limits : switch.limits with
  | true =>
    refine ⟨rfl, rfl, rfl, rfl, rfl, rfl, by rw [limits]; rfl, fun name => ?_⟩
    rw [limits]
    exact Dictionary.get?_insert op.attributes "movablelimits" name "false"
  | false =>
    refine ⟨rfl, rfl, rfl, rfl, rfl, rfl, by rw [limits]; rfl, fun name => ?_⟩
    rw [limits]
    exact Dictionary.get?_erase op.attributes "movablelimits" name

/-- Of two switches the second one counts. -/
theorem Obeys.switchLimits {earlier : Marks} (obeys : Obeys op earlier n) (switch : Marks) :
    Obeys op switch (switchLimits switch n) := by
  have again := obeys_switchLimits switch n
  refine ⟨again.tag.trans obeys.tag, again.text.trans obeys.text, again.css.trans obeys.css,
    again.children.trans obeys.children, again.token.trans obeys.token,
    again.option.trans obeys.option, by rw [again.marks, obeys.marks], fun name => ?_⟩
  rw [again.attributes, obeys.attributes]
  split <;> rfl

theorem obeys_obey (op : Node) (switches : List Node) (last : Node) :
    Obeys op last.marks (obey op (switches ++ [last])) := by
  induction switches using List.reverseRecOn generalizing last with
  | nil => exact obeys_switchLimits last.marks op
  | append_singleton switches s ih =>
    rw [obey, List.foldl_append]
    exact (ih s).switchLimits last.marks

theorem isPendingScript_obey (op : Node) (switches : List Node) :
    isPendingScript (obey op switches) = isPendingScript op := by
  induction switches generalizing op with
  | nil => rfl
  | cons s switches ih => exact (ih _).trans (isPendingScript_switchLimits s.marks op)

theorem isLimitSwitch_obey (op : Node) (switches : List Node) :
    (obey op switches).marks.isLimitSwitch = op.marks.isLimitSwitch := by
  induction switches generalizing op with
  | nil => rfl
  | cons s switches ih =>
    refine (ih _).trans ?_
    rw [(obeys_switchLimits s.marks op).marks]
    rfl

/-- Switches leave placeholders in front of the node that they act on. -/
theorem applySwitchesFrom_switches (are : ∀ s ∈ switches, s.marks.isLimitSwitch = true) (op : Node)
    (rest : List Node) : applySwitchesFrom op (switches ++ rest) =
      List.replicate switches.length .placeholder ++ applySwitchesFrom (obey op switches) rest := by
  induction switches generalizing op with
  | nil => rfl
  | cons s switches ih =>
    obtain ⟨here, later⟩ := List.forall_mem_cons.mp are
    rw [List.cons_append, applySwitchesFrom, if_pos here, ih later, List.length_cons,
      List.replicate_succ, List.cons_append]
    rfl

theorem applySwitches_op (other : op.marks.isLimitSwitch = false) (pre rest : List Node) :
    applySwitches (pre ++ op :: rest) = applySwitches pre ++ applySwitchesFrom op rest := by
  rw [applySwitches_append]
  · rfl
  · rintro _ ⟨⟩
    exact other

theorem head?_applySwitchesFrom (plain : isPendingScript op = false) (rest : List Node) :
    ∀ n ∈ (applySwitchesFrom op rest).head?, isPendingScript n = false := by
  cases rest with
  | nil =>
    rintro _ ⟨⟩
    exact plain
  | cons m rest =>
    rw [applySwitchesFrom]
    split
    · rintro _ ⟨⟩
      rfl
    · rintro _ ⟨⟩
      exact plain

/-- Rows that are the same but for placeholders show the same. -/
theorem shown_of_occupied (same : occupied nodes = occupied other) :
    nodes.filter isShown = other.filter isShown := by
  have drop : ∀ nodes, (occupied nodes).filter isShown = nodes.filter isShown := by
    intro nodes
    rw [occupied, List.filter_filter]
    refine List.filter_congr fun n _ => ?_
    unfold isShown isPlaceholder
    cases n.marks.hidden <;> simp
  rw [← drop, same, drop]

/-- Limit switches can be eliminated. A row in which switches stand behind a node that is neither a
switch nor a script shows the same as the row without them in which the node is as they leave it,
one after the other; whatever else stands in the row. How they leave it the last one says. -/
theorem switches_eliminated (other : op.marks.isLimitSwitch = false)
    (plain : isPendingScript op = false)
    (are : ∀ s ∈ switches, s.marks.isLimitSwitch = true) (pre post : List Node) :
    (arrange (pre ++ op :: (switches ++ post))).filter isShown =
        (arrange (pre ++ obey op switches :: post)).filter isShown ∧
      ∀ front last, switches = front ++ [last] → Obeys op last.marks (obey op switches) := by
  have after : isPendingScript (obey op switches) = false := by rw [isPendingScript_obey, plain]
  refine ⟨shown_of_occupied ?_, ?_⟩
  · have other' := (isLimitSwitch_obey op switches).trans other
    rw [arrange_eq_finish, arrange_eq_finish, applySwitches_op other,
      applySwitchesFrom_switches are, applySwitches_op other']
    exact occupied_finish_gap _ _ (head?_applySwitchesFrom after post)
  · rintro front last rfl
    exact obeys_obey op front last

/-- A sum with two switches, a prime and a script behind them, and a script in front. -/
theorem switches_eliminated_sum :
    ∃ (sum : Node) (switches pre post : List Node), sum.marks.isLimitSwitch = false ∧
      isPendingScript sum = false ∧ (∀ s ∈ switches, s.marks.isLimitSwitch = true) ∧
      (arrange (pre ++ sum :: (switches ++ post))).map Node.tag =
        ["msup", "", "", "", "munder", "", "mi"] ∧
      (arrange (pre ++ sum :: (switches ++ post))).filter isShown =
        (arrange (pre ++ obey sum switches :: post)).filter isShown := by
  let sum : Node := (leaf "mo" "∑").mark { largeOperator := true, movableLimits := true }
  let switches : List Node := [(leaf "mi" "nolimits").mark { noLimits := true, hidden := true },
    (leaf "mi" "limits").mark { limits := true, hidden := true }]
  let pre : List Node := [leaf "mi" "x", (leaf "mn" "2").mark { superscript := true }]
  let post : List Node := [(leaf "mi" "i").mark { subscript := true }, leaf "mi" "y"]
  have other : sum.marks.isLimitSwitch = false := rfl
  have plain : isPendingScript sum = false := rfl
  have are : ∀ s ∈ switches, s.marks.isLimitSwitch = true := by decide
  exact ⟨sum, switches, pre, post, other, plain, are, by cbv,
    (switches_eliminated other plain are pre post).1⟩

end TexFormula.Row
