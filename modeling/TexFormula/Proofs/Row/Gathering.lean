import TexFormula.Proofs.Row.Passes
import TexFormula.Proofs.Row.Survivors

/-! Putting a row together loses no mark. Every script of a row ends up in an element for scripts,
on the side that its mark says, and every second operand below the bar of a fraction
(`gathered_arrange`). -/

/-! ### Nothing to be put together

Putting a row together leaves nothing to be put together (`quiet_arrange`). Scripts and operands
go to their bases in two passes, so a node that is a script and an operand at once is the one that
is lost on the way: as a script it is inside another node before the fractions are built. -/

namespace TexFormula

namespace Node

/-- Whether a node asks nothing of its neighbours: it is not written, or neither a script nor an
operand of a fraction. -/
def Quiet (n : Node) : Prop :=
  n.marks.hidden = true ∨ n.marks.isPending = false

instance : Stable Quiet where
  empty := .inr rfl
  hidden _ hidden _ := .inl hidden
  altered _ _ alters quiet := quiet.imp alters.hidden alters.pending

/-- Whether nothing is left to be put together below a node. -/
def QuietBelow (n : Node) : Prop :=
  ∀ child ∈ n.children, child.Everywhere Quiet

/-- Whether a node is a script and an operand of a fraction. -/
def hasTwoRoles (n : Node) : Bool :=
  n.marks.isScript && n.marks.isOperand && !n.marks.hidden

/-- Whether a node is ready for its row: it is not both script and operand, and nothing is left to
be put together below it. -/
structure Ready (n : Node) : Prop where
  below : n.QuietBelow
  role : n.hasTwoRoles = false

theorem quiet_iff {n : Node} :
    n.Quiet ↔ Row.isPendingScript n = false ∧ (n.marks.isOperand && !n.marks.hidden) = false := by
  unfold Quiet Row.isPendingScript Marks.isPending
  cases n.marks.hidden <;> simp

theorem Everywhere.ready {n : Node} (quiet : n.Everywhere Quiet) : n.Ready := by
  have script := (quiet_iff.mp quiet.self).1
  refine ⟨quiet.children, ?_⟩
  rw [hasTwoRoles, Bool.and_right_comm]
  exact Bool.and_eq_false_imp.mpr fun pending => absurd pending (Bool.eq_false_iff.mp script)

end Node

namespace Row

open Node

variable {nodes : List Node}

/-- Whether nothing is left to be done with a node but to build a fraction with it. -/
structure Scripted (n : Node) : Prop where
  below : n.QuietBelow
  role : isPendingScript n = false

theorem scripted_of_quiet {n : Node} (quiet : n.Everywhere Quiet) : Scripted n :=
  ⟨quiet.children, (quiet_iff.mp quiet.self).1⟩

theorem quiet_of_scripted {n : Node} (scripted : Scripted n)
    (plain : (n.marks.isOperand && !n.marks.hidden) = false) : n.Everywhere Quiet :=
  .node (quiet_iff.mpr ⟨scripted.role, plain⟩) scripted.below

theorem ready_switchLimits (switch : Marks) {n : Node} (ready : n.Ready) :
    (switchLimits switch n).Ready := by
  unfold switchLimits
  simp only
  split
  · exact ⟨ready.below, ready.role⟩
  · exact ⟨ready.below, ready.role⟩

/-- A script that is put to its base has no other role. -/
theorem quiet_unscripted {n : Node} (ready : n.Ready) (script : isPendingScript n = true) :
    (unscripted n).Everywhere Quiet := by
  refine .node (quiet_iff.mpr ⟨rfl, ?_⟩) ready.below
  have alone : (isPendingScript n && n.marks.isOperand) = false := by
    rw [isPendingScript, Bool.and_right_comm]
    exact ready.role
  have other : n.marks.isOperand = false := by simpa [script] using alone
  exact Bool.and_eq_false_imp.mpr fun operand => absurd operand (Bool.eq_false_iff.mp other)

theorem scripted_assemble {base : Node} {sub sup : Option Node} (scripted : Scripted base)
    (below : ∀ n ∈ sub, n.Everywhere Quiet) (above : ∀ n ∈ sup, n.Everywhere Quiet) :
    Scripted (assemble base sub sup) := by
  have bare : { base with marks := base.marks.withoutOperand }.Everywhere Quiet :=
    .node (quiet_iff.mpr ⟨scripted.role, rfl⟩) scripted.below
  refine ⟨List.forall_mem_cons.mpr ⟨bare, List.forall_mem_append.mpr ⟨?_, ?_⟩⟩, rfl⟩
  · exact fun n member => below n (Option.mem_toList.mp member)
  · exact fun n member => above n (Option.mem_toList.mp member)

theorem scripted_attach {base script : Node} {partner : Option Node} (scripted : Scripted base)
    (ready : script.Ready) (pending : isPendingScript script = true)
    (second : ∀ n ∈ partner, n.Ready ∧ isPartner script n = true) :
    Scripted (attach base script partner) := by
  have one : ∀ n ∈ some (unscripted script), n.Everywhere Quiet :=
    everywhere_some (quiet_unscripted ready pending)
  have other : ∀ n ∈ partner.map unscripted, n.Everywhere Quiet :=
    Option.forall_mem_map.mpr fun m given =>
      quiet_unscripted (second m given).1 (isPendingScript_of_isPartner (second m given).2)
  unfold attach
  split
  · exact scripted_assemble scripted one other
  · exact scripted_assemble scripted other one

theorem quiet_fraction (f : Fraction) {upper n : Node} (above : upper.Everywhere Quiet)
    (scripted : Scripted n) :
    (f.node upper { n with marks := n.marks.withoutOperand }).Everywhere Quiet :=
  stable_fraction f above (.node (quiet_iff.mpr ⟨scripted.role, rfl⟩) scripted.below)

/-- In a row that was put together nothing is left to be put together, as long as no node of it was
a script and an operand at once. -/
theorem quiet_arrange (ready : ∀ n ∈ nodes, n.Ready) : ∀ n ∈ arrange nodes, n.Everywhere Quiet := by
  have free : placeholder.Everywhere Quiet := stable_placeholder
  have blank : (element "none").Everywhere Quiet := stable_element _ (by decide)
  have none : (row []).Everywhere Quiet := stable_row (List.forall_mem_nil _)
  have switched := forall_applySwitches free.ready (fun switch _ => ready_switchLimits switch) ready
  have scripted := forall_attachScriptsFrom (scripted_of_quiet free) (scripted_of_quiet blank)
    (fun n given plain => ⟨given.below, plain⟩) (fun _ _ _ _ => scripted_attach)
    (List.forall_mem_nil _) switched
  have built := forall_buildFractionsFrom free none (fun _ => quiet_of_scripted)
    (fun f _ _ _ above lower _ => quiet_fraction f above lower) (List.forall_mem_nil _) scripted
  exact stable_fixCharactersFrom (List.forall_mem_nil _) (stable_joinSpaces built)

/-! ### Drafts -/

theorem Draft.children_resize (t : Token) (n : Node) : (resize t n).children = n.children := by
  unfold resize
  split <;> rfl

theorem Draft.quietBelow_add {d : Draft} (c : Context) (t : Token)
    (quiet : ∀ n ∈ d.latest, n.QuietBelow) {n : Node} (given : n.QuietBelow) :
    ∀ m ∈ (d.add c t n).latest, m.QuietBelow := by
  refine forall_add c t quiet (fun _ _ last => last) ?_
  unfold QuietBelow
  rw [mark, children_resize]
  exact given

end Row

end TexFormula

/-! ### Marks -/

namespace TexFormula

namespace Node

/-- Whether a node is another one but for its attributes and marks. -/
structure Copies (n m : Node) : Prop where
  tag : m.tag = n.tag
  text : m.text = n.text
  children : m.children = n.children
  token : m.token = n.token

theorem Copies.refl (n : Node) : n.Copies n :=
  ⟨rfl, rfl, rfl, rfl⟩

theorem Copies.withMarks {n m : Node} (copies : n.Copies m) (marks : Marks) :
    n.Copies { m with marks } :=
  ⟨copies.tag, copies.text, copies.children, copies.token⟩

/-- Whether an element has a node as its subscript. -/
def HasSubscript (n k : Node) : Prop :=
  k.tag ∈ ["msub", "munder", "msubsup", "munderover"] ∧
    ∃ base sub others, k.children = base :: sub :: others ∧ n.Copies sub

/-- Whether an element has a node as its superscript. -/
def HasSuperscript (n k : Node) : Prop :=
  k.tag ∈ ["msup", "mover"] ∧ (∃ base sup, k.children = [base, sup] ∧ n.Copies sup) ∨
    k.tag ∈ ["msubsup", "munderover"] ∧
      ∃ base sub sup, k.children = [base, sub, sup] ∧ n.Copies sup

/-- Whether an element has a node as the script that the marks of the node say. -/
def HasScript (n k : Node) : Prop :=
  n.marks.subscript = true ∧ HasSubscript n k ∨ n.marks.superscript = true ∧ HasSuperscript n k

/-- Whether an element is the fraction that the marks of a node say, and has the node in its second
operand. -/
def HasOperand (n k : Node) : Prop :=
  n.marks.isOperand = true ∧ ∃ upper lower, k = (Row.operandFraction n.marks).node upper lower ∧
    lower.Somewhere n.Copies

/-- Whether an element was put together with a node as the marks of the node say. -/
def Gathers (n k : Node) : Prop :=
  HasScript n k ∨ HasOperand n k

variable {p q : Node → Prop}

theorem Somewhere.mono {n : Node} (found : n.Somewhere p) (weaker : ∀ m, p m → q m) :
    n.Somewhere q := by
  induction found with
  | here holds => exact .here (weaker _ holds)
  | inside member found ih => exact .inside member ih

/-- The marks of a node do not matter where they do not matter for the property. -/
theorem Somewhere.withMarks {n : Node} (found : n.Somewhere p) (marks : Marks)
    (unmarked : ∀ m : Node, p m → p { m with marks }) : { n with marks }.Somewhere p := by
  cases found with
  | here holds => exact .here (unmarked n holds)
  | inside member found => exact .inside (n := { n with marks }) member found

theorem somewhere_fraction (f : Fraction) {upper lower n : Node} (part : n ∈ [upper, lower])
    (found : n.Somewhere p) : (f.node upper lower).Somewhere p := by
  have bar : ∀ m : Node, m.children = [upper, lower] → m.Somewhere p :=
    fun m same => .inside (same ▸ part) found
  have fenced : ∀ m middle : Node, m.children = [fence "(", middle, fence ")"] →
      middle.Somewhere p → m.Somewhere p := fun m middle same between =>
    .inside (same ▸ List.mem_cons_of_mem _ List.mem_cons_self) between
  cases f with
  | plain => exact bar _ rfl
  | displayed => exact bar _ rfl
  | inlined => exact bar _ rfl
  | unlined => exact bar _ rfl
  | binomial => exact fenced _ _ rfl (bar _ rfl)
  | inlinedBinomial => exact fenced _ _ rfl (bar _ rfl)

end Node

namespace Row

open Node

variable {p : Node → Prop} {n : Node} {nodes : List Node}

/-! ### Elements that take in others -/

theorem hasSubscript_assemble {sub : Node} (copies : n.Copies sub) (base : Node)
    (sup : Option Node) : HasSubscript n (assemble base (some sub) sup) := by
  have tag : ∀ sup stacked, scriptTag true sup stacked ∈
      ["msub", "munder", "msubsup", "munderover"] := by decide
  exact ⟨tag _ _, _, sub, sup.toList, rfl, copies⟩

theorem hasSuperscript_assemble {sup : Node} (copies : n.Copies sup) (base : Node)
    (sub : Option Node) : HasSuperscript n (assemble base sub (some sup)) := by
  cases sub with
  | none =>
    have tag : ∀ stacked, scriptTag false true stacked ∈ ["msup", "mover"] := by decide
    exact .inl ⟨tag _, _, sup, rfl, copies⟩
  | some sub =>
    have tag : ∀ stacked, scriptTag true true stacked ∈ ["msubsup", "munderover"] := by decide
    exact .inr ⟨tag _, _, sub, sup, rfl, copies⟩

theorem firm_attach (base script : Node) (partner : Option Node) :
    Firm (attach base script partner) := by
  have other : ∀ sub sup stacked, scriptTag sub sup stacked ≠ "" ∧
      scriptTag sub sup stacked ≠ "mspace" := by decide
  unfold attach
  split
  · exact firm_of_tag _ rfl (other _ _ _) rfl
  · exact firm_of_tag _ rfl (other _ _ _) rfl

/-- The node for the scripts of a base has the base in it. -/
theorem somewhere_attach {base : Node} (found : base.Somewhere p)
    (unmarked : ∀ (m : Node) marks, p m → p { m with marks }) (script : Node)
    (partner : Option Node) : (attach base script partner).Somewhere p := by
  have bare := found.withMarks base.marks.withoutOperand fun m => unmarked m _
  unfold attach
  split
  · exact .inside List.mem_cons_self bare
  · exact .inside List.mem_cons_self bare

theorem firm_fraction (f : Fraction) (upper lower : Node) : Firm (f.node upper lower) := by
  cases f with
  | plain => exact firm_of_tag "mfrac" rfl (by decide) rfl
  | displayed => exact firm_of_tag "mfrac" rfl (by decide) rfl
  | inlined => exact firm_of_tag "mfrac" rfl (by decide) rfl
  | unlined => exact firm_of_tag "mfrac" rfl (by decide) rfl
  | binomial => exact firm_of_tag "mrow" rfl (by decide) rfl
  | inlinedBinomial => exact firm_of_tag "mrow" rfl (by decide) rfl

theorem firm_attachPrime {base : Node} (firm : Firm base) (prime : Node) :
    Firm (attachPrime base prime) := by
  unfold attachPrime
  split
  · exact firm_of_tag "msubsup" rfl (by decide) firm.text
  · split
    · exact firm_of_tag "munderover" rfl (by decide) firm.text
    · exact firm_of_tag "msup" rfl (by decide) rfl

/-- A base that gets a prime keeps what it has in it, if an element for scripts may get another one.
-/
theorem somewhere_attachPrime {base : Node} (found : base.Somewhere p)
    (primed : ∀ m prime : Node, p m → (attachPrime m prime).Somewhere p) (prime : Node) :
    (attachPrime base prime).Somewhere p := by
  cases found with
  | here holds => exact primed base prime holds
  | inside member found =>
    unfold attachPrime
    split
    · exact .inside (List.mem_append_left _ member) found
    · split
      · exact .inside (List.mem_append_left _ member) found
      · exact .inside List.mem_cons_self (.inside member found)

/-- What is in a firm node of a row with its scripts and fractions in place is in the row to the
end. -/
theorem exists_finished (primed : ∀ m prime : Node, p m → (attachPrime m prime).Somewhere p)
    (given : ∃ m ∈ nodes, Firm m ∧ m.Somewhere p) :
    ∃ m ∈ fixCharacters (joinSpaces nodes), m.Somewhere p := by
  have firm : ∀ m, Firm m ∧ m.Somewhere p → Firm m := fun _ => And.left
  have joined := exists_joinSpaces firm given
  have finished : ∃ m ∈ fixCharacters (joinSpaces nodes), Firm m ∧ m.Somewhere p :=
    exists_fixCharactersFrom firm (fun base prime holds => ⟨firm_attachPrime holds.1 prime,
      somewhere_attachPrime holds.2 primed prime⟩) (.inr joined)
  exact finished.imp fun m holds => ⟨holds.1, holds.2.2⟩

/-! ### Nodes of a row -/

/-- Whether a node is another one as it stands in a row, with its limits switched or not. -/
structure Stands (n m : Node) : Prop where
  copies : n.Copies m
  marks : ∃ stackedLimits movableLimits, m.marks = { n.marks with stackedLimits, movableLimits }

theorem stands_switchLimits (switch : Marks) {m : Node} (stands : Stands n m) :
    Stands n (switchLimits switch m) := by
  obtain ⟨⟨tag, text, children, token⟩, stacked, movable, marks⟩ := stands
  unfold switchLimits
  simp only
  rw [marks]
  split
  · exact ⟨⟨tag, text, children, token⟩, _, _, rfl⟩
  · exact ⟨⟨tag, text, children, token⟩, _, _, rfl⟩

theorem exists_stands (member : n ∈ nodes) (switch : n.marks.isLimitSwitch = false) :
    ∃ m ∈ applySwitches nodes, Stands n m := by
  have steady : ∀ m, Stands n m → m.marks.isLimitSwitch = false := by
    rintro m ⟨-, stacked, movable, marks⟩
    rw [marks]
    exact switch
  exact exists_applySwitches (fun switch _ => stands_switchLimits switch) steady
    ⟨n, member, ⟨.refl n, _, _, rfl⟩⟩

/-! ### Scripts -/

theorem somewhere_attach_script {script : Node} (stands : Stands n script)
    (pending : isPendingScript script = true) (base : Node) (partner : Option Node) :
    (attach base script partner).Somewhere (HasScript n) := by
  obtain ⟨copies, stacked, movable, marks⟩ := stands
  have alone : n.Copies (unscripted script) := copies.withMarks _
  unfold isPendingScript at pending
  unfold attach
  rw [marks] at pending ⊢
  split
  case isTrue sub => exact .here (.inl ⟨sub, hasSubscript_assemble alone _ _⟩)
  case isFalse other =>
    have sup : n.marks.superscript = true := by simp_all [Marks.isScript]
    exact .here (.inr ⟨sup, hasSuperscript_assemble alone _ _⟩)

theorem somewhere_attach_partner {partner : Node} (stands : Stands n partner) {script : Node}
    (pair : isPartner script partner = true) (base : Node) :
    (attach base script (some partner)).Somewhere (HasScript n) := by
  obtain ⟨copies, stacked, movable, marks⟩ := stands
  have alone : n.Copies (unscripted partner) := copies.withMarks _
  unfold isPartner at pair
  unfold attach
  rw [marks] at pair
  split
  case isTrue sub =>
    have sup : n.marks.superscript = true := by simp_all
    exact .here (.inr ⟨sup, hasSuperscript_assemble alone _ _⟩)
  case isFalse other =>
    have sub : n.marks.subscript = true := by simp_all
    exact .here (.inl ⟨sub, hasSubscript_assemble alone _ _⟩)

/-- An element with a subscript alone has it as before when it gets a superscript. -/
theorem hasScript_append {m : Node} (script : HasScript n m) {tag : String}
    (alone : m.tag ∉ ["msup", "mover", "msubsup", "munderover"])
    (both : tag ∈ ["msub", "munder", "msubsup", "munderover"]) (prime : Node) :
    HasScript n ({ m with tag }.append [prime]) := by
  rcases script with ⟨marked, -, base, sub, others, children, copies⟩ | ⟨-, sup⟩
  · refine .inl ⟨marked, both, base, sub, others ++ [prime], ?_, copies⟩
    rw [append, children]
    rfl
  · refine absurd ?_ alone
    rcases sup with ⟨tag, -⟩ | ⟨tag, -⟩
    · exact List.mem_append_left ["msubsup", "munderover"] tag
    · exact List.mem_append_right ["msup", "mover"] tag

theorem somewhere_primed_script {m : Node} (script : HasScript n m) (prime : Node) :
    (attachPrime m prime).Somewhere (HasScript n) := by
  unfold attachPrime
  split
  case isTrue sub =>
    have tag : m.tag = "msub" := by simpa using (Bool.and_eq_true_iff.mp sub).2
    exact .here (hasScript_append script (by rw [tag]; decide) (by decide) prime)
  · split
    case isTrue under =>
      have tag : m.tag = "munder" := by simpa using (Bool.and_eq_true_iff.mp under).2
      exact .here (hasScript_append script (by rw [tag]; decide) (by decide) prime)
    case isFalse => exact .inside List.mem_cons_self (.here script)

/-- A script of a row ends up in an element for scripts. -/
theorem gathered_script (member : n ∈ nodes) (switch : n.marks.isLimitSwitch = false)
    (pending : isPendingScript n = true) : ∃ m ∈ arrange nodes, m.Somewhere (HasScript n) := by
  have marks : ∀ m, Stands n m → isPendingScript m = true := by
    rintro m ⟨-, stacked, movable, marks⟩
    rw [isPendingScript, marks]
    exact pending
  have attached : ∃ m ∈ attachScripts (applySwitches nodes), Firm m ∧ m.Somewhere (HasScript n) :=
    exists_attachScriptsFrom
      (fun m stands plain => absurd (marks m stands) (Bool.eq_false_iff.mp plain))
      (fun base script partner holds => ⟨firm_attach _ _ _,
        somewhere_attach holds.2 (fun _ _ found => found) script partner⟩)
      (fun base script partner stands pending => ⟨firm_attach _ _ _,
        somewhere_attach_script stands pending base partner⟩)
      (fun base script partner stands pair => ⟨firm_attach _ _ _,
        somewhere_attach_partner stands pair base⟩)
      (.inr (exists_stands member switch))
  have built : ∃ m ∈ buildFractions (attachScripts (applySwitches nodes)),
      Firm m ∧ m.Somewhere (HasScript n) :=
    exists_buildFractionsFrom (fun _ holds _ => holds)
      (fun f upper lower holds => ⟨firm_fraction _ _ _,
        somewhere_fraction f List.mem_cons_self holds.2⟩)
      (fun upper m holds _ => ⟨firm_fraction _ _ _, somewhere_fraction _
        (List.mem_cons_of_mem _ List.mem_cons_self) (holds.2.withMarks _ fun _ found => found)⟩)
      (.inr attached)
  exact exists_finished (fun _ prime script => somewhere_primed_script script prime) built

/-! ### Operands -/

/-- Whether a node is or has in it another one that is an operand, and is an operand in its place.
-/
structure StandsFor (n m : Node) : Prop where
  found : m.Somewhere n.Copies
  shown : m.marks.hidden = false
  operand : m.marks.operandOnly = n.marks.operandOnly

theorem isOperand_operandOnly (marks : Marks) : marks.operandOnly.isOperand = marks.isOperand :=
  rfl

theorem operandFraction_operandOnly (marks : Marks) :
    operandFraction marks.operandOnly = operandFraction marks :=
  rfl

theorem StandsFor.attach {base : Node} (stands : StandsFor n base) (script : Node)
    (partner : Option Node) : StandsFor n (attach base script partner) := by
  have marks := marks_attach base script partner
  refine ⟨somewhere_attach stands.found (fun _ _ copies => copies.withMarks _) script partner,
    ?_, ?_⟩
  · rw [marks]
    rfl
  · rw [marks]
    exact stands.operand

theorem somewhere_primed_operand {m : Node} (operand : HasOperand n m) (prime : Node) :
    (attachPrime m prime).Somewhere (HasOperand n) := by
  have plain : m.marks.assembled = false := by
    obtain ⟨-, upper, lower, rfl, -⟩ := operand
    cases operandFraction n.marks <;> rfl
  unfold attachPrime
  simp only [plain, Bool.false_and]
  exact .inside List.mem_cons_self (.here operand)

/-- A second operand in a row ends up below the bar of a fraction. -/
theorem gathered_operand (member : n ∈ nodes) (switch : n.marks.isLimitSwitch = false)
    (plain : isPendingScript n = false) (operand : (n.marks.isOperand && !n.marks.hidden) = true) :
    ∃ m ∈ arrange nodes, m.Somewhere (HasOperand n) := by
  obtain ⟨marked, written⟩ := Bool.and_eq_true_iff.mp operand
  have shown : n.marks.hidden = false := by simpa using written
  have alone : ∀ m, Stands n m → isPendingScript m = false := by
    rintro m ⟨-, stacked, movable, marks⟩
    rw [isPendingScript, marks]
    exact plain
  have attached : ∃ m ∈ attachScripts (applySwitches nodes), StandsFor n m := by
    refine exists_attachScriptsFrom ?_
      (fun base script partner holds => holds.attach script partner) ?_ ?_
      (.inr (exists_stands member switch))
    · rintro m ⟨copies, stacked, movable, marks⟩ -
      refine ⟨.here copies, ?_, ?_⟩
      · rw [marks]
        exact shown
      · rw [marks]
        rfl
    · exact fun base script partner stands pending =>
        absurd pending (Bool.eq_false_iff.mp (alone script stands))
    · intro base script partner stands pair
      cases (alone partner stands).symm.trans (isPendingScript_of_isPartner pair)
  have built : ∃ m ∈ buildFractions (attachScripts (applySwitches nodes)),
      Firm m ∧ m.Somewhere (HasOperand n) := by
    refine exists_buildFractionsFrom ?_ (fun f upper lower holds => ⟨firm_fraction _ _ _,
      somewhere_fraction f List.mem_cons_self holds.2⟩) ?_ (.inr attached)
    · intro m stands other
      have same : m.marks.isOperand = n.marks.isOperand := by
        rw [← isOperand_operandOnly, stands.operand, isOperand_operandOnly]
      simp [same, marked, stands.shown] at other
    · intro upper m stands _
      have lower := stands.found.withMarks m.marks.withoutOperand fun _ copies => copies.withMarks _
      have same : operandFraction m.marks = operandFraction n.marks := by
        rw [← operandFraction_operandOnly, stands.operand, operandFraction_operandOnly]
      exact ⟨firm_fraction _ _ _, .here ⟨marked, upper, _, by rw [same], lower⟩⟩
  exact exists_finished (fun _ prime operand => somewhere_primed_operand operand prime) built

/-- In a row that was put together, every marked node is in an element around it: a script in one
for scripts, and a second operand that is no script in a fraction. A limit switch is left out here:
it goes away with its marks. -/
theorem gathered_arrange (member : n ∈ nodes) (marked : ¬ n.Quiet)
    (switch : n.marks.isLimitSwitch = false) :
    ∃ m ∈ arrange nodes, m.Somewhere (Gathers n) := by
  cases script : isPendingScript n with
  | true =>
    obtain ⟨m, inside, found⟩ := gathered_script member switch script
    exact ⟨m, inside, found.mono fun _ => .inl⟩
  | false =>
    have operand : (n.marks.isOperand && !n.marks.hidden) = true := by
      by_contra other
      exact marked (quiet_iff.mpr ⟨script, Bool.eq_false_iff.mpr other⟩)
    obtain ⟨m, inside, found⟩ := gathered_operand member switch script operand
    exact ⟨m, inside, found.mono fun _ => .inr⟩

end Row

end TexFormula
