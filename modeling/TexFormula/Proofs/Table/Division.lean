import TexFormula.Proofs.Row.Cells
import TexFormula.Proofs.Row.Widths
import TexFormula.Proofs.Table.Outline

/-! What divides the content of a table. Of the nodes that are read for it, those divide it that are
breaks and are not taken for a script or for an operand by what stands before them. So the breaks of
the row that is put together, and whether it ends in the break of a row, follow from the marks of
the nodes (`divided_arrange`), and a node that is added to the row matters by
its marks only (`division_add`). -/
namespace TexFormula

open Node

/-- Whether a node with these marks is a break that no other node of its row takes for a part. -/
def Marks.divides (m : Marks) : Bool :=
  m.isBreak && !m.isPending

/-- Marks that only say what the next node is for the nodes before it. -/
structure Marks.IsPromise (m : Marks) : Prop where
  inside : m.isBreak = false
  shown : m.hidden = false
  noSwitch : m.isLimitSwitch = false

/-- A node that, if it is a break, has no text, and is neither hidden nor a switch nor a space. -/
def Node.Bare (n : Node) : Prop :=
  n.marks.isBreak = true →
    (n.tag = "" ∨ n.tag = "mtable") ∧ n.text = "" ∧ n.marks.hidden = false ∧
      n.marks.isLimitSwitch = false

namespace Table

/-- What divides a row of nodes, and what its last node is. -/
structure Division where
  /-- For each break, whether it ends a row. -/
  breaks : List Bool := []
  /-- Whether the last node is the break of a row, if there is one. A switch behind another node
  does not count. -/
  last : Option Bool := none

/-- The division of a row with one more node. -/
def Division.next (v : Division) (m : Marks) : Division :=
  if m.isLimitSwitch then { v with last := v.last <|> some false }
  else if m.divides then ⟨v.breaks ++ [m.rowBreak], some m.rowBreak⟩
  else { v with last := some false }

/-- The division of a row with further nodes. -/
def Division.after (v : Division) (nodes : List Node) : Division :=
  nodes.foldl (fun v n => v.next n.marks) v

/-- What divides the nodes of a row. -/
def division (nodes : List Node) : Division :=
  ({} : Division).after nodes

/-- What divides a row behind some breaks. -/
def Division.behind (v : Division) (breaks : List Bool) : Division :=
  { v with breaks := breaks ++ v.breaks }

variable {n : Node} {m pending : Marks} {nodes left right : List Node}

/-! ### Single nodes -/

theorem isPending_eq_false (divides : m.divides = true) :
    m.isBreak = true ∧ m.isScript = false ∧ m.isOperand = false := by
  simpa [Marks.divides, Marks.isPending] using divides

/-- Breaks that are bare divide as they are. -/
theorem separator_of_bare (bare : n.Bare) (divides : n.marks.divides = true) :
    Row.Separator n := by
  obtain ⟨ends, noScript, noOperand⟩ := isPending_eq_false divides
  obtain ⟨tag, text, shown, noSwitch⟩ := bare ends
  refine ⟨ends, shown, noScript, noOperand, noSwitch, ?_, ?_, ?_⟩
  · rcases tag with same | same <;> simp [Row.isFixedSpace, Row.spaceWidth?, same]
  · simp [Row.isPrime, text]
  · rcases tag with same | same <;> simp [same]

namespace Division

variable {v : Division}

theorem next_of_switch (switch : m.isLimitSwitch = true) :
    v.next m = { v with last := v.last <|> some false } :=
  if_pos switch

theorem next_of_inside (noSwitch : m.isLimitSwitch = false) (inside : m.divides = false) :
    v.next m = { v with last := some false } := by
  rw [next, if_neg (by simp [noSwitch]), if_neg (by simp [inside])]

theorem next_of_divides (noSwitch : m.isLimitSwitch = false) (divides : m.divides = true) :
    v.next m = ⟨v.breaks ++ [m.rowBreak], some m.rowBreak⟩ := by
  rw [next, if_neg (by simp [noSwitch]), if_pos divides]

/-- What is no break adds none. -/
theorem breaks_next (inside : m.isBreak = false) : (v.next m).breaks = v.breaks := by
  have whole : m.divides = false := by rw [Marks.divides, inside]; rfl
  cases switch : m.isLimitSwitch with
  | true => rw [next_of_switch switch]
  | false => rw [next_of_inside switch whole]

/-- A node that divides nothing counts once if it stands there twice. -/
theorem next_next_of_inside (v : Division) (inside : m.divides = false) :
    (v.next m).next m = v.next m := by
  cases switch : m.isLimitSwitch with
  | true =>
    rw [next_of_switch switch, next_of_switch switch]
    cases v.last <;> rfl
  | false => rw [next_of_inside switch inside, next_of_inside switch inside]

theorem isSome_next (v : Division) (m : Marks) : (v.next m).last.isSome = true := by
  unfold next
  split
  · cases v.last <;> rfl
  · split <;> rfl

theorem next_behind (v : Division) (breaks : List Bool) (m : Marks) :
    (v.behind breaks).next m = (v.next m).behind breaks := by
  unfold next behind
  split
  · rfl
  · split
    · rw [List.append_assoc]
    · rfl

/-! ### Several nodes -/

theorem after_append (v : Division) (left right : List Node) :
    v.after (left ++ right) = (v.after left).after right :=
  List.foldl_append

theorem after_behind (v : Division) (breaks : List Bool) (nodes : List Node) :
    (v.behind breaks).after nodes = (v.after nodes).behind breaks :=
  List.foldl_hom (fun w : Division => w.behind breaks) fun w n => next_behind w breaks n.marks

theorem breaks_after (unbroken : ∀ n ∈ nodes, n.marks.isBreak = false) :
    (v.after nodes).breaks = v.breaks := by
  induction nodes generalizing v with
  | nil => rfl
  | cons n rest ih =>
    obtain ⟨here, later⟩ := List.forall_mem_cons.mp unbroken
    exact (ih later).trans (breaks_next here)

theorem isSome_after (given : v.last.isSome = true) (nodes : List Node) :
    (v.after nodes).last.isSome = true := by
  induction nodes generalizing v with
  | nil => exact given
  | cons n rest ih => exact ih (v.isSome_next n.marks)

/-- Switches behind another node do not count. -/
theorem after_of_switches (given : v.last.isSome = true)
    (switches : ∀ n ∈ nodes, n.marks.isLimitSwitch = true) : v.after nodes = v := by
  induction nodes with
  | nil => rfl
  | cons n rest ih =>
    obtain ⟨here, later⟩ := List.forall_mem_cons.mp switches
    have same : v.next n.marks = v := by
      obtain ⟨row, last⟩ := Option.isSome_iff_exists.mp given
      rw [next_of_switch here, last]
      exact congrArg (Division.mk v.breaks) last.symm
    have first : v.after (n :: rest) = (v.next n.marks).after rest := rfl
    rw [first, same, ih later]

/-- Further nodes that do not start with a switch divide the row as they divide a row alone. -/
theorem after_of_stop (stop : ∀ n ∈ nodes.head?, n.marks.isLimitSwitch = false) (v : Division) :
    v.after nodes =
      ⟨v.breaks ++ (division nodes).breaks, (division nodes).last <|> v.last⟩ := by
  cases nodes with
  | nil => simp [after, division]
  | cons n rest =>
    have noSwitch := stop n rfl
    have first : v.next n.marks = (({} : Division).next n.marks).behind v.breaks := by
      cases divides : n.marks.divides with
      | true =>
        rw [next_of_divides noSwitch divides, next_of_divides noSwitch divides]
        rfl
      | false =>
        rw [next_of_inside noSwitch divides, next_of_inside noSwitch divides]
        simp [behind]
    have whole : v.after (n :: rest) = (division (n :: rest)).behind v.breaks :=
      (congrArg (·.after rest) first).trans (after_behind _ _ _)
    have some : (division (n :: rest)).last.isSome = true :=
      isSome_after (isSome_next {} n.marks) rest
    obtain ⟨row, last⟩ := Option.isSome_iff_exists.mp some
    rw [whole, behind, last]
    rfl

end Division

theorem division_concat (left : List Node) (n : Node) :
    division (left ++ [n]) = (division left).next n.marks :=
  Division.after_append {} left [n]

/-- A break divides a row into what divides the nodes before it and what divides those behind it,
but for the switches right behind it. -/
theorem division_of_divides {b : Node} (noSwitch : b.marks.isLimitSwitch = false)
    (divides : b.marks.divides = true) (left right : List Node) :
    let rest := division (right.dropWhile (·.marks.isLimitSwitch))
    division (left ++ b :: right) =
      ⟨(division left).breaks ++ b.marks.rowBreak :: rest.breaks,
        rest.last <|> some b.marks.rowBreak⟩ := by
  intro rest
  obtain ⟨are, stop⟩ := Row.switches_front right
  have upTo : division (left ++ [b]) =
      ⟨(division left).breaks ++ [b.marks.rowBreak], some b.marks.rowBreak⟩ := by
    rw [division_concat, Division.next_of_divides noSwitch divides]
  have switches : (division (left ++ [b])).after (right.takeWhile (·.marks.isLimitSwitch)) =
      division (left ++ [b]) := Division.after_of_switches (by rw [upTo]; rfl) are
  have whole : division (left ++ b :: right) = (division (left ++ [b])).after right := by
    rw [List.append_cons]
    exact Division.after_append {} _ right
  have parts := Division.after_append (division (left ++ [b]))
    (right.takeWhile (·.marks.isLimitSwitch)) (right.dropWhile (·.marks.isLimitSwitch))
  rw [List.takeWhile_append_dropWhile, switches, Division.after_of_stop stop, upTo] at parts
  rw [whole, upTo, parts, List.append_assoc]
  rfl

/-! ### Rows that are put together -/

/-- Where no node divides a row, the passes over it leave no break: those that there are become
scripts and operands. -/
theorem unbroken_finish (bare : ∀ n ∈ nodes, n.Bare)
    (inside : ∀ n ∈ nodes, n.marks.divides = false) :
    ∀ n ∈ Row.finish nodes, n.marks.isBreak = false := by
  let Part (n : Node) := n.marks.isBreak = true → n.marks.isPending = true ∧ n.marks.hidden = false
  let Operand (n : Node) :=
    n.marks.isBreak = true → n.marks.isOperand = true ∧ n.marks.hidden = false
  let Whole (n : Node) := n.marks.isBreak = false
  have nothing {P : Node → Prop} : ∀ n ∈ [], P n := List.forall_mem_nil P
  have parts : ∀ n ∈ nodes, Part n := by
    intro n member ends
    have pending : n.marks.isPending = true := by
      simpa [Marks.divides, ends] using inside n member
    exact ⟨pending, (bare n member ends).2.2.1⟩
  have scripted : ∀ n ∈ Row.attachScripts nodes, Operand n := by
    refine Row.forall_attachScriptsFrom (P := Part) (fun ends => nomatch ends)
      (fun ends => nomatch ends) (fun n part plain ends => ?_)
      (fun base script partner _ _ _ _ _ ends => ?_) nothing parts
    · obtain ⟨pending, shown⟩ := part ends
      refine ⟨?_, shown⟩
      rw [Row.isPendingScript, shown, Bool.not_false, Bool.and_true] at plain
      rwa [Marks.isPending, plain, Bool.false_or] at pending
    · rw [Row.marks_attach] at ends
      cases ends
  have built : ∀ n ∈ Row.buildFractions (Row.attachScripts nodes), Whole n := by
    refine Row.forall_buildFractionsFrom (P := Operand) rfl rfl (fun n part plain => ?_)
      (fun f _ _ _ _ _ _ => by cases f <;> rfl) nothing scripted
    refine Bool.eq_false_iff.mpr fun ends => ?_
    obtain ⟨operand, shown⟩ := part ends
    rw [operand, shown] at plain
    cases plain
  have joined := Row.forall_joinSpaces (Q := Whole) rfl (fun _ _ whole => whole) built
  refine Row.forall_fixCharactersFrom (P := Whole) rfl (fun _ whole _ => whole)
    (fun n whole _ => ?_) (fun base count _ whole => ?_) (fun _ => rfl) nothing joined
  · unfold Row.fixMinus
    split <;> exact whole
  · unfold Row.attachPrime
    split
    · exact whole
    · split
      · exact whole
      · rfl

/-- Switches leave nodes that divide nothing, and free places divide nothing either. -/
theorem unbroken_switched (bare : ∀ n ∈ nodes, n.Bare)
    (inside : ∀ n ∈ nodes, n.marks.divides = false) (count : Nat) :
    ∀ n ∈ Row.finish (Row.applySwitches nodes ++ List.replicate count placeholder),
      n.marks.isBreak = false := by
  have free : placeholder.Bare ∧ placeholder.marks.divides = false :=
    ⟨(fun ends => nomatch ends), rfl⟩
  have switched : ∀ n ∈ Row.applySwitches nodes, n.Bare ∧ n.marks.divides = false := by
    refine Row.forall_applySwitches free (fun switch n given => ?_)
      fun n member => ⟨bare n member, inside n member⟩
    unfold Row.switchLimits
    dsimp only
    split <;> exact given
  have all : ∀ n ∈ Row.applySwitches nodes ++ List.replicate count placeholder,
      n.Bare ∧ n.marks.divides = false :=
    List.forall_mem_append.mpr
      ⟨switched, fun n member => List.eq_of_mem_replicate member ▸ free⟩
  exact unbroken_finish (fun n member => (all n member).1) fun n member => (all n member).2

theorem breaksOf_of_unbroken (unbroken : ∀ n ∈ nodes, n.marks.isBreak = false) :
    breaksOf nodes = [] := by
  rw [breaksOf, List.filter_eq_nil_iff.mpr fun n member => Bool.eq_false_iff.mp
    (unbroken n member), List.map_nil]

theorem endsOpen_of_unbroken (unbroken : ∀ n ∈ nodes, n.marks.isBreak = false) :
    endsOpen nodes = !nodes.isEmpty := by
  obtain rfl | ⟨front, last, rfl⟩ := List.eq_nil_or_concat' nodes
  · rfl
  · have inside := unbroken last (by simp)
    rw [Marks.isBreak, Bool.or_eq_false_iff] at inside
    simp [endsOpen, inside.2]

theorem division_of_inside (inside : ∀ n ∈ nodes, n.marks.divides = false) :
    division nodes = ⟨[], if nodes.isEmpty then none else some false⟩ := by
  induction nodes using List.reverseRecOn with
  | nil => rfl
  | append_singleton nodes n ih =>
    obtain ⟨before, last⟩ := List.forall_mem_append.mp inside
    have whole : (nodes ++ [n]).isEmpty = false := by simp
    rw [division_concat, ih before, whole, if_neg Bool.false_ne_true]
    cases switch : n.marks.isLimitSwitch with
    | true =>
      rw [Division.next_of_switch switch]
      cases nodes <;> rfl
    | false => rw [Division.next_of_inside switch (last n (List.mem_singleton_self n))]

end Table

namespace Row

variable {nodes : List Node}

theorem length_settle (make : Node → Node) (bare : Node) (places before : List Node) :
    (settle make bare places before).length = places.length + (before.length + 1) := by
  unfold settle
  split
  case h_1 base found =>
    have whole := congrArg List.length (base?_eq_some found)
    simp only [List.length_append, List.length_cons, Base.replace] at whole ⊢
    omega
  case h_2 => rw [List.length_append, List.length_cons]

theorem length_attachScriptsFrom (before nodes : List Node) :
    (attachScriptsFrom before nodes).length = before.length + nodes.length := by
  induction nodes using script_induction generalizing before with
  | nil => rw [attachScriptsFrom, List.length_reverse, List.length_nil, Nat.add_zero]
  | plain n rest pending ih =>
    rw [attachScriptsFrom_plain pending, ih, List.length_cons, List.length_cons]
    omega
  | script n rest partner after pending pair ih =>
    rw [attachScriptsFrom_settle pending pair, ih, settleScript, length_settle]
    cases pair <;> simp <;> omega

theorem length_buildFractionsFrom (before nodes : List Node) :
    (buildFractionsFrom before nodes).length = before.length + nodes.length := by
  induction nodes generalizing before with
  | nil => rw [buildFractionsFrom, List.length_reverse, List.length_nil, Nat.add_zero]
  | cons n rest ih =>
    cases operand : n.marks.isOperand && !n.marks.hidden with
    | true =>
      rw [buildFractionsFrom_settle operand, ih, settleOperand, length_settle, List.length_nil,
        List.length_cons]
      omega
    | false =>
      rw [buildFractionsFrom_other operand, ih, List.length_cons, List.length_cons]
      omega

theorem length_fixCharactersFrom (before nodes : List Node) :
    (fixCharactersFrom before nodes).length = before.length + nodes.length := by
  fun_induction fixCharactersFrom before nodes with
  | case1 before => rw [List.length_reverse, List.length_nil, Nat.add_zero]
  | case2 before n rest hidden ih => rw [ih, List.length_cons, List.length_cons]; omega
  | case3 before n rest shown apostrophe prime base found ih =>
    have whole := congrArg List.length (base?_eq_some found)
    rw [ih, length_absorbPrimes]
    simp only [List.length_append, List.length_cons, Base.replace] at whole ⊢
    omega
  | case4 before n rest shown apostrophe prime baseless ih =>
    rw [ih, length_absorbPrimes, List.length_cons, List.length_cons]
    omega
  | case5 before n rest shown other ih => rw [ih, List.length_cons, List.length_cons]; omega

theorem length_applySwitches (nodes : List Node) :
    (applySwitches nodes).length = nodes.length := by
  have from_ (last : Node) (nodes : List Node) :
      (applySwitchesFrom last nodes).length = nodes.length + 1 := by
    induction nodes generalizing last with
    | nil => rfl
    | cons n rest ih =>
      unfold applySwitchesFrom
      split <;> rw [List.length_cons, ih, List.length_cons]
  cases nodes with
  | nil => rfl
  | cons n rest => exact from_ n rest

/-- No place of a row is lost when it is put together. -/
theorem length_arrange (nodes : List Node) : (arrange nodes).length = nodes.length := by
  rw [arrange, fixCharacters, length_fixCharactersFrom, length_joinSpaces, buildFractions,
    length_buildFractionsFrom, attachScripts, length_attachScriptsFrom, length_applySwitches]
  simp only [List.length_nil, Nat.zero_add]

end Row

namespace Table

variable {nodes : List Node}

theorem breaksOf_cons {b : Node} (ends : b.marks.isBreak = true) (rest : List Node) :
    breaksOf (b :: rest) = b.marks.rowBreak :: breaksOf rest := by
  rw [breaksOf, List.filter_cons, if_pos ends, List.map_cons, breaksOf]

theorem endsOpen_append_cons (front : List Node) (b : Node) (rest : List Node) :
    endsOpen (front ++ b :: rest) = if rest.isEmpty then !b.marks.rowBreak else endsOpen rest := by
  cases rest with
  | nil => rw [endsOpen, List.getLast?_concat]; rfl
  | cons n rest => rw [endsOpen, List.getLast?_append_cons, List.getLast?_cons_cons]; rfl

theorem isEmpty_arrange (nodes : List Node) : (Row.arrange nodes).isEmpty = nodes.isEmpty := by
  rw [Bool.eq_iff_iff, List.isEmpty_iff_length_eq_zero, Row.length_arrange,
    List.isEmpty_iff_length_eq_zero]

/-- A row is divided by its nodes as they were read, and ends as they do, when it is put together.
-/
theorem divided_arrange (nodes : List Node) (bare : ∀ n ∈ nodes, n.Bare) :
    breaksOf (Row.arrange nodes) = (division nodes).breaks ∧
      endsOpen (Row.arrange nodes) = (division nodes).last.any (!·) := by
  let inside (n : Node) := !n.marks.divides
  have whole := List.takeWhile_append_dropWhile (p := inside) (l := nodes)
  have first : ∀ n ∈ nodes.takeWhile inside, n.marks.divides = false := fun n member => by
    simpa [inside] using List.mem_takeWhile_imp member
  have before : ∀ n ∈ nodes.takeWhile inside, n.Bare := fun n member =>
    bare n ((List.takeWhile_prefix inside).subset member)
  cases behind : nodes.dropWhile inside with
  | nil =>
    rw [behind, List.append_nil] at whole
    rw [whole] at first
    have unbroken := unbroken_switched bare first 0
    rw [List.replicate_zero, List.append_nil, ← Row.arrange_eq_finish] at unbroken
    rw [division_of_inside first, breaksOf_of_unbroken unbroken, endsOpen_of_unbroken unbroken,
      isEmpty_arrange]
    refine ⟨rfl, ?_⟩
    cases nodes <;> rfl
  | cons b right =>
    have divides : b.marks.divides = true := by
      have stop := List.head?_dropWhile_not inside nodes
      rw [behind] at stop
      simpa [inside] using stop
    rw [behind] at whole
    have member : b ∈ nodes := whole ▸ List.mem_append_right _ List.mem_cons_self
    have separator := separator_of_bare (bare b member) divides
    have later : ∀ n ∈ right.dropWhile (·.marks.isLimitSwitch), n.Bare := fun n member =>
      bare n (whole ▸ List.mem_append_right _
        (List.mem_cons_of_mem _ ((List.dropWhile_suffix _).subset member)))
    have shorter : (right.dropWhile (·.marks.isLimitSwitch)).length < nodes.length := by
      have less := (List.dropWhile_sublist (·.marks.isLimitSwitch) (l := right)).length_le
      rw [← whole, List.length_append, List.length_cons]
      omega
    obtain ⟨breaks, open_⟩ := divided_arrange _ later
    have parts := division_of_divides separator.noSwitch divides (nodes.takeWhile inside) right
    have ends : (Row.switchBreak b right).marks.isBreak = true := (separator.obey _).ends
    have row : (Row.switchBreak b right).marks.rowBreak = b.marks.rowBreak :=
      Formula.rowBreak_obey b _
    simp only [division_of_inside first, List.nil_append, whole] at parts
    have arranged := separator.arrange_append (nodes.takeWhile inside) right
    rw [whole] at arranged
    rw [arranged, parts, breaksOf_append, breaksOf_cons ends,
      breaksOf_of_unbroken (unbroken_switched before first _), endsOpen_append_cons,
      isEmpty_arrange, breaks, open_, row]
    refine ⟨rfl, ?_⟩
    cases right.dropWhile (·.marks.isLimitSwitch) with
    | nil => rfl
    | cons n more =>
      have some : (division (n :: more)).last.isSome = true :=
        Division.isSome_after (Division.isSome_next {} n.marks) more
      obtain ⟨row, last⟩ := Option.isSome_iff_exists.mp some
      rw [last]
      rfl
termination_by nodes.length

/-! ### Rows that are being read -/

variable {n : Node} {pending : Marks} {d : Row.Draft}

theorem isBreak_union (promise : pending.IsPromise) (m : Marks) :
    (m.union pending).isBreak = m.isBreak := by
  have inside := promise.inside
  rw [Marks.isBreak, Bool.or_eq_false_iff] at inside
  simp [Marks.union, Marks.isBreak, inside.1, inside.2]

/-- A node takes the marks that are meant for it and stays as bare as it is. -/
theorem bare_mark (bare : n.Bare) (promise : pending.IsPromise) : (n.mark pending).Bare := by
  intro ends
  rw [Node.mark, isBreak_union promise] at ends
  obtain ⟨tag, text, shown, noSwitch⟩ := bare ends
  have other := promise.noSwitch
  rw [Marks.isLimitSwitch, Bool.or_eq_false_iff] at noSwitch other
  refine ⟨tag, text, ?_, ?_⟩
  · simp [Node.mark, Marks.union, shown, promise.shown]
  · simp [Node.mark, Marks.union, Marks.isLimitSwitch, noSwitch, other]

theorem bare_added (bare : n.Bare) (promise : pending.IsPromise) (t : Token) :
    ((Row.Draft.resize t n).mark pending).Bare := by
  refine bare_mark ?_ promise
  unfold Row.Draft.resize
  split
  · exact bare
  · exact bare

/-- A text is no break. -/
theorem unbroken_of_isText (bare : n.Bare) (text : Row.Draft.isText n = true) :
    n.marks.isBreak = false := by
  refine Bool.eq_false_iff.mpr fun ends => ?_
  obtain ⟨tag, -⟩ := bare ends
  rcases tag with same | same <;> simp [Row.Draft.isText, same] at text

/-- A node that is added to a row divides it by its own marks and by those that are meant for it,
also if it is joined with the text before it. -/
theorem division_add (bare : n.Bare) (promise : d.pending.IsPromise) (c : Context) (t : Token) :
    division (d.add c t n).nodes = (division d.nodes).next (n.marks.union d.pending) := by
  have marks : ((Row.Draft.resize t n).mark d.pending).marks = n.marks.union d.pending := by
    unfold Row.Draft.resize
    split <;> rfl
  rcases Formula.nodes_add d c t n with
    behind | ⟨front, last, before, -, text, same, joined⟩
  · rw [behind, division_concat, marks]
  · have inside := unbroken_of_isText (bare_added bare promise t) text
    have whole : (last.marks).divides = false := by rw [Marks.divides, same, inside]; rfl
    rw [joined, before, division_concat, division_concat, ← marks, ← same]
    exact ((division front).next_next_of_inside whole).symm

end Table

end TexFormula
