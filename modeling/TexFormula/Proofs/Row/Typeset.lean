import TexFormula.Proofs.Row.Shape

/-! Characters that are written in another way than in the source: the hyphen and the apostrophe.
When a row is put together they are replaced in its own nodes (`isRaw_arrange`), and only there. So
what has become part of another node by then stays as it is, and all characters are replaced if none
of them is a script, an operand or the base of one (`arranged_arrange`). -/
namespace TexFormula

namespace Node

/-- Whether a node is written as an operator with a hyphen, or with an apostrophe that stands for no
command. -/
def isRaw (n : Node) : Bool :=
  !n.marks.hidden && n.tag == "mo" && (n.text == "-" || Row.isPrime n)

theorem isRaw_of_plain {n : Node} (plain : n.IsPlain) : n.isRaw = false := by
  by_cases operator : n.tag = "mo"
  · have other := plain operator
    simp only [sourceCharacters, List.mem_cons, List.not_mem_nil, or_false, not_or] at other
    simp [isRaw, Row.isPrime, other]
  · simp [isRaw, operator]

/-- A character is raw or not whatever its marks are, as long as it is as visible. -/
theorem isRaw_withMarks (n : Node) {marks : Marks} (hidden : marks.hidden = n.marks.hidden) :
    ({ n with marks } : Node).isRaw = n.isRaw := by
  unfold isRaw
  rw [hidden]
  rfl

/-- No child may be such a character. -/
def Fit.typeset : Fit where
  inside n := n.isRaw = false
  part _ := True
  inside_of_plain := isRaw_of_plain
  inside_congr tag text token marks inside := by
    unfold isRaw Row.isPrime at inside ⊢
    rwa [tag, text, token, marks]
  part_of_written _ := trivial
  part_congr _ _ := id

/-- Whether a node has another text than a hyphen if it is written as an operator, and another one
than an apostrophe unless it stands for a command. -/
def Typeset (n : Node) : Prop :=
  n.isWritten = true → n.tag = "mo" →
    n.text ≠ "-" ∧ (n.text = "'" → n.token.kind.command = true)

variable {n : Node}

theorem typeset_of_isRaw (typeset : n.isRaw = false) : n.Typeset := by
  intro written operator
  have visible : n.marks.hidden = false := by simpa [isWritten, operator] using written
  simp only [isRaw, visible, operator, Row.isPrime, Bool.not_false, beq_self_eq_true,
    Bool.and_self, Bool.true_and, Bool.or_eq_false_iff, beq_eq_false_iff_ne] at typeset
  refine ⟨typeset.1, fun apostrophe => ?_⟩
  simpa [apostrophe] using typeset.2

theorem usable_of_shaped (shaped : n.Everywhere (Shaped .typeset)) : n.Usable .typeset :=
  ⟨.inl trivial, shaped⟩

theorem solid_of_typeset (shaped : n.Everywhere (Shaped .typeset)) (typeset : n.isRaw = false) :
    n.Solid .typeset :=
  ⟨⟨typeset, shaped⟩, trivial⟩

theorem solid_withMarks (shaped : n.Everywhere (Shaped .typeset)) (typeset : n.isRaw = false)
    {marks : Marks} (hidden : marks.hidden = n.marks.hidden) :
    ({ n with marks } : Node).Solid .typeset :=
  solid_of_typeset (shaped_withMarks shaped marks) ((isRaw_withMarks n hidden).trans typeset)

end Node

namespace Row

open Node

variable {asked : Node → Bool} {nodes before passed front : List Node} {n : Node}

/-! ### Characters that become part of other nodes -/

/-- Whether a node becomes part of another one when its row is put together. -/
def isPart (n : Node) : Bool :=
  n.marks.isPending && !n.marks.hidden

/-- Whether a node becomes the second operand of a fraction. -/
def isLower (n : Node) : Bool :=
  n.marks.isOperand && !n.marks.hidden

/-- Whether the base of a place is a raw character. The nodes before the place are listed from right
to left. -/
def endsRaw (before : List Node) : Bool :=
  (base? before).any (·.node.isRaw)

/-- Whether none of the nodes in question is a raw character or has one for its base. The nodes are
listed from right to left. -/
def Clear (asked : Node → Bool) : List Node → Prop
  | [] => True
  | n :: before => (asked n = true → n.isRaw = false ∧ endsRaw before = false) ∧ Clear asked before

instance decidableClear (asked : Node → Bool) : (nodes : List Node) → Decidable (Clear asked nodes)
  | [] => .isTrue trivial
  | n :: before =>
    have := decidableClear asked before
    inferInstanceAs (Decidable ((asked n = true → n.isRaw = false ∧ endsRaw before = false) ∧
      Clear asked before))

/-- Whether no raw character of a row becomes part of another node. A limit switch takes the node
before it along. -/
def Legible (nodes : List Node) : Prop :=
  Clear isPart (applySwitches nodes).reverse

instance (nodes : List Node) : Decidable (Legible nodes) :=
  inferInstanceAs (Decidable (Clear _ _))

theorem endsRaw_of_hidden (hidden : n.marks.hidden = true) :
    endsRaw (n :: before) = endsRaw before := by
  simp only [endsRaw, base?, if_pos hidden]
  cases base? before <;> rfl

theorem endsRaw_of_typeset (visible : n.marks.hidden = false) (typeset : n.isRaw = false) :
    endsRaw (n :: before) = false := by
  simp only [endsRaw, base?, visible, Bool.false_eq_true, if_false]
  split
  · rfl
  · exact typeset

/-- What is added in front of two rows that end alike makes them end alike. -/
theorem endsRaw_cons (follows : endsRaw passed = true → endsRaw before = true) :
    endsRaw (n :: passed) = true → endsRaw (n :: before) = true := by
  cases hidden : n.marks.hidden with
  | true =>
    rw [endsRaw_of_hidden hidden, endsRaw_of_hidden hidden]
    exact follows
  | false =>
    simp only [endsRaw, base?, hidden, Bool.false_eq_true, if_false]
    split <;> exact id

theorem endsRaw_append (hidden : ∀ n ∈ front, n.marks.hidden = true) :
    endsRaw (front ++ before) = endsRaw before := by
  induction front with
  | nil => rfl
  | cons n rest ih =>
    obtain ⟨here, later⟩ := List.forall_mem_cons.mp hidden
    exact (endsRaw_of_hidden here).trans (ih later)

theorem Clear.of_append (clear : Clear asked (front ++ before)) : Clear asked before := by
  induction front with
  | nil => exact clear
  | cons n rest ih => exact ih clear.2

theorem Clear.append (hidden : ∀ n ∈ front, n.marks.hidden = true) (clear : Clear isLower before) :
    Clear isLower (front ++ before) := by
  induction front with
  | nil => exact clear
  | cons n rest ih =>
    obtain ⟨here, later⟩ := List.forall_mem_cons.mp hidden
    refine ⟨fun lower => ?_, ih later⟩
    simp [isLower, here] at lower

/-- A base that becomes a typeset node, which is an operand only if the base was one. -/
theorem clear_replace {base : Base} (found : base? passed = some base)
    (clear : Clear isLower passed) (typeset : n.isRaw = false)
    (lower : isLower n = true → isLower base.node = true) :
    Clear isLower (base.replace n) := by
  rw [base?_eq_some found] at clear
  obtain ⟨alone, beyond⟩ := clear.of_append
  exact .append (hidden_between found) ⟨fun asked => ⟨typeset, (alone (lower asked)).2⟩, beyond⟩

theorem endsRaw_replace {base : Base} (found : base? passed = some base)
    (visible : n.marks.hidden = false) (typeset : n.isRaw = false) :
    endsRaw (base.replace n) = false :=
  (endsRaw_append (hidden_between found)).trans (endsRaw_of_typeset visible typeset)

theorem isRaw_of_found {base : Base} (found : base? passed = some base)
    (typeset : endsRaw passed = false) : base.node.isRaw = false := by
  rw [endsRaw, found] at typeset
  exact typeset

/-! ### Scripts -/

theorem isRaw_attach (base script : Node) (partner : Option Node) :
    (attach base script partner).isRaw = false := by
  refine isRaw_of_plain (plain_of_blank ?_)
  unfold attach
  split <;> rfl

/-- A row up to some place, where all children are typeset. -/
structure Settled (passed : List Node) : Prop where
  clear : Clear isLower passed
  shaped : ∀ n ∈ passed, n.Everywhere (Shaped .typeset)

/-- What the row before some place has become. If it has a raw character for a base now, it had one
before. -/
structure Became (before passed : List Node) : Prop extends Settled passed where
  base : endsRaw passed = true → endsRaw before = true

theorem Became.typeset (became : Became before passed) (free : endsRaw before = false) :
    endsRaw passed = false :=
  Bool.eq_false_iff.mpr fun raw => Bool.eq_false_iff.mp free (became.base raw)

theorem became_of_typeset (settled : Settled passed) (typeset : endsRaw passed = false) :
    Became before passed :=
  ⟨settled, fun raw => absurd raw (Bool.eq_false_iff.mp typeset)⟩

theorem Became.cons (became : Became before passed) (shaped : n.Everywhere (Shaped .typeset))
    (lower : isLower n = true → n.isRaw = false ∧ endsRaw before = false) :
    Became (n :: before) (n :: passed) := by
  refine ⟨⟨⟨fun asked => ?_, became.clear⟩, List.forall_mem_cons.mpr ⟨shaped, became.shaped⟩⟩,
    endsRaw_cons became.base⟩
  obtain ⟨typeset, free⟩ := lower asked
  exact ⟨typeset, became.typeset free⟩

section Places
variable {script : Node} {partner : Option Node} {places : List Node}
  (free : ∀ n ∈ places, n = .placeholder)
include free

theorem typeset_placeScripts : endsRaw (placeScripts passed script partner places) = false := by
  have hidden : ∀ n ∈ places, n.marks.hidden = true := fun n member => free n member ▸ rfl
  have visible : ∀ base, (attach base script partner).marks.hidden = false := fun base => by
    rw [marks_attach]
    rfl
  unfold placeScripts
  split
  case h_1 base found =>
    rw [endsRaw_append hidden, endsRaw_of_hidden rfl]
    exact endsRaw_replace found (visible _) (isRaw_attach _ _ _)
  case h_2 =>
    rw [endsRaw_append hidden]
    exact endsRaw_of_typeset (visible _) (isRaw_attach _ _ _)

theorem settled_placeScripts (settled : Settled passed) (typeset : endsRaw passed = false)
    (first : (unscripted script).Solid .typeset)
    (second : ∀ n ∈ partner, (unscripted n).Solid .typeset) :
    Settled (placeScripts passed script partner places) := by
  obtain ⟨clear, shaped⟩ := settled
  have hidden : ∀ n ∈ places, n.marks.hidden = true := fun n member => free n member ▸ rfl
  have unnamed : placeholder.Everywhere (Shaped .typeset) := shaped_of_nameless rfl rfl
  have empty : ∀ n ∈ places, n.Everywhere (Shaped .typeset) := fun n member =>
    free n member ▸ unnamed
  unfold placeScripts
  split
  case h_1 base found =>
    have bare :
        ({ base.node with marks := base.node.marks.withoutOperand } : Node).Solid .typeset :=
      solid_withMarks (forall_base found shaped) (isRaw_of_found found typeset) rfl
    have lower : isLower (attach base.node script partner) = true →
        isLower base.node = true := by
      rw [isLower, marks_attach, isLower, (isBase_of_found found).1]
      exact id
    have calm := clear_replace found clear (isRaw_attach base.node script partner) lower
    have hollow : isLower placeholder = false := rfl
    refine ⟨.append hidden ⟨fun lower => ?_, calm⟩, List.forall_mem_append.mpr ⟨empty,
      List.forall_mem_cons.mpr ⟨unnamed,
        forall_replace found shaped (shaped_attach bare first second)⟩⟩⟩
    cases hollow.symm.trans lower
  case h_2 =>
    have blank : (element "none").Solid .typeset := solid_element _ (by decide)
    have made := shaped_attach (solid_withMarks blank.shaped blank.inside rfl) first second
    have plain : isLower (attach (.element "none") script partner) = false := by
      rw [isLower, marks_attach]
      rfl
    refine ⟨.append hidden ⟨fun lower => ?_, clear⟩,
      List.forall_mem_append.mpr ⟨empty, List.forall_mem_cons.mpr ⟨made, shaped⟩⟩⟩
    cases plain.symm.trans lower

end Places

theorem isPart_of_script (script : isPendingScript n = true) : isPart n = true := by
  simp only [isPendingScript, Bool.and_eq_true] at script
  simp [isPart, Marks.isPending, script]

theorem isPart_of_lower (lower : isLower n = true) : isPart n = true := by
  simp only [isLower, Bool.and_eq_true] at lower
  simp [isPart, Marks.isPending, lower]

theorem Clear.first (clear : Clear asked ((n :: nodes).reverse ++ before)) :
    asked n = true → n.isRaw = false ∧ endsRaw before = false := by
  rw [List.reverse_cons, List.append_assoc] at clear
  exact clear.of_append.1

theorem Clear.rest (clear : Clear asked ((n :: nodes).reverse ++ before)) :
    Clear asked (nodes.reverse ++ n :: before) := by
  rwa [List.reverse_cons, List.append_assoc] at clear

/-- In a clear row no script takes in a raw character. -/
theorem settled_attachScriptsFrom (clear : Clear isPart (nodes.reverse ++ before))
    (became : Became before passed) (shaped : ∀ n ∈ nodes, n.Everywhere (Shaped .typeset)) :
    Settled (attachScriptsFrom passed nodes).reverse := by
  have alone : ∀ n ∈ (none : Option Node), (unscripted n).Solid .typeset := nofun
  have free : ∀ n ∈ [placeholder], n = placeholder := List.forall_mem_singleton.mpr rfl
  -- The row as it was is clear, and not what it has become: scripts are looked up in the former.
  fun_induction attachScriptsFrom passed nodes generalizing before with
  | case1 passed =>
    rw [List.reverse_reverse]
    exact became.toSettled
  | case2 passed n script =>
    obtain ⟨typeset, base⟩ := clear.first (isPart_of_script script)
    have first : (unscripted n).Solid .typeset :=
      solid_withMarks (shaped n List.mem_cons_self) typeset rfl
    rw [List.reverse_reverse]
    exact settled_placeScripts (List.forall_mem_nil _) became.toSettled (became.typeset base) first
      alone
  | case3 passed n other =>
    rw [List.reverse_reverse]
    exact (became.cons (shaped n List.mem_cons_self) fun lower =>
      clear.first (isPart_of_lower lower)).toSettled
  | case4 passed n next rest script partner ih =>
    obtain ⟨here, after, later⟩ := by simpa only [List.forall_mem_cons] using shaped
    obtain ⟨typeset, base⟩ := clear.first (isPart_of_script script)
    have second := clear.rest.first (isPart_of_script (isPendingScript_of_isPartner partner))
    have both : ∀ m ∈ some next, (unscripted m).Solid .typeset := fun m same =>
      Option.some.inj same ▸ solid_withMarks after second.1 rfl
    have settled := settled_placeScripts free became.toSettled (became.typeset base)
      (solid_withMarks here typeset rfl) both
    exact ih clear.rest.rest (became_of_typeset settled (typeset_placeScripts free)) later
  | case5 passed n next rest script other ih =>
    obtain ⟨here, later⟩ := List.forall_mem_cons.mp shaped
    obtain ⟨typeset, base⟩ := clear.first (isPart_of_script script)
    have settled := settled_placeScripts (List.forall_mem_nil _) became.toSettled
      (became.typeset base) (solid_withMarks here typeset rfl) alone
    exact ih clear.rest
      (became_of_typeset settled (typeset_placeScripts (List.forall_mem_nil _))) later
  | case6 passed n next rest other ih =>
    obtain ⟨here, later⟩ := List.forall_mem_cons.mp shaped
    exact ih clear.rest
      (became.cons here fun lower => clear.first (isPart_of_lower lower)) later

/-! ### Fractions -/

theorem isRaw_fraction (f : Fraction) (upper lower : Node) :
    (f.node upper lower).isRaw = false := by
  cases f <;> rfl

theorem hidden_fraction (f : Fraction) (upper lower : Node) :
    (f.node upper lower).marks.hidden = false := by
  cases f <;> rfl

/-- In a row that is clear but for its scripts, which are in their places, no fraction takes in a
raw character. -/
theorem shaped_buildFractionsFrom (clear : Clear isLower (nodes.reverse ++ before))
    (base : endsRaw passed = true → endsRaw before = true)
    (done : ∀ n ∈ passed, n.Everywhere (Shaped .typeset))
    (shaped : ∀ n ∈ nodes, n.Everywhere (Shaped .typeset)) :
    ∀ n ∈ buildFractionsFrom passed nodes, n.Everywhere (Shaped .typeset) := by
  induction nodes generalizing before passed with
  | nil => exact forall_reverse done
  | cons n rest ih =>
    obtain ⟨here, later⟩ := List.forall_mem_cons.mp shaped
    have unnamed : placeholder.Everywhere (Shaped .typeset) := shaped_of_nameless rfl rfl
    unfold buildFractionsFrom
    split
    case isTrue lower =>
      obtain ⟨typeset, free⟩ := clear.first lower
      have whole : endsRaw passed = false :=
        Bool.eq_false_iff.mpr fun raw => Bool.eq_false_iff.mp free (base raw)
      have below : ({ n with marks := n.marks.withoutOperand } : Node).Solid .typeset :=
        solid_withMarks here typeset rfl
      simp only
      split
      case h_1 upper found =>
        have above := solid_of_typeset (forall_base found done) (isRaw_of_found found whole)
        have made := (solid_fraction (operandFraction n.marks) above below).shaped
        refine ih clear.rest ?_ (List.forall_mem_cons.mpr
          ⟨unnamed, forall_replace found done made⟩) later
        -- The fraction is the last base now, so what follows does not find a raw one.
        rw [endsRaw_of_hidden rfl, endsRaw_replace found (hidden_fraction _ _ _)
          (isRaw_fraction _ _ _)]
        exact nofun
      case h_2 =>
        have above : (row []).Solid .typeset := solid_row (List.forall_mem_nil _)
        have made := (solid_fraction (operandFraction n.marks) above below).shaped
        refine ih clear.rest ?_ (List.forall_mem_cons.mpr ⟨made, done⟩) later
        rw [endsRaw_of_typeset (hidden_fraction _ _ _) (isRaw_fraction _ _ _)]
        exact nofun
    case isFalse =>
      exact ih clear.rest (endsRaw_cons base) (List.forall_mem_cons.mpr ⟨here, done⟩) later

/-! ### Characters -/

theorem mem_primeGlyphs {count : Nat} : ∀ c ∈ primeGlyphs count, c ∈ ['′', '″', '‴', '⁗'] := by
  fun_induction primeGlyphs count with
  | case1 => exact List.forall_mem_nil _
  | case2 => simp
  | case3 => simp
  | case4 => simp
  | case5 count ih => exact List.forall_mem_cons.mpr ⟨by simp, ih⟩

/-- No glyph for primes is an apostrophe. -/
theorem plain_primes (count : Nat) :
    (leaf "mo" (String.ofList (primeGlyphs count))).IsPlain := by
  have foreign : ∀ text ∈ sourceCharacters, ∃ c ∈ text.toList, c ∉ ['′', '″', '‴', '⁗'] := by
    simp [sourceCharacters]
  intro _ listed
  obtain ⟨c, member, other⟩ := foreign _ listed
  rw [leaf, String.toList_ofList] at member
  exact other (mem_primeGlyphs c member)

theorem isRaw_fixMinus (plain : isPrime n = false) : (fixMinus n).isRaw = false := by
  unfold fixMinus
  split
  case isTrue => simp [isRaw, isPrime]
  case isFalse other =>
    simp only [Bool.and_eq_true, beq_iff_eq, not_and] at other
    by_cases operator : n.tag = "mo"
    · simp [isRaw, plain, other operator]
    · simp [isRaw, operator]

theorem isRaw_of_hidden (hidden : n.marks.hidden = true) : n.isRaw = false := by
  simp [isRaw, hidden]

theorem isRaw_attachPrime (base prime : Node) : (attachPrime base prime).isRaw = false := by
  unfold attachPrime
  split
  · exact isRaw_of_plain (plain_of_tag (by decide : "msubsup" ≠ "mo"))
  · split
    · exact isRaw_of_plain (plain_of_tag (by decide : "munderover" ≠ "mo"))
    · rfl

/-! ### Rows -/

/-- No node of a row that was put together is a raw character, whatever was in the row. -/
theorem isRaw_arrange (nodes : List Node) : ∀ n ∈ arrange nodes, n.isRaw = false :=
  forall_fixCharactersFrom trivial (fun _ _ => isRaw_of_hidden) (fun _ _ => isRaw_fixMinus)
    (fun _ _ _ _ => isRaw_attachPrime _ _) (fun _ => rfl) (List.forall_mem_nil _)
    fun _ _ => trivial

/-- If no raw character of a row becomes part of another node, none is left anywhere in the row that
was put together. -/
theorem arranged_arrange (shaped : ∀ n ∈ nodes, n.Everywhere (Shaped .typeset))
    (legible : Legible nodes) : ∀ n ∈ arrange nodes, n.Arranged .typeset := by
  have unnamed : placeholder.Everywhere (Shaped .typeset) := shaped_of_nameless rfl rfl
  have blank : (element "none").Solid .typeset := solid_element _ (by decide)
  have prime : ∀ count, (leaf "mo" (String.ofList (primeGlyphs count))).Solid .typeset :=
    fun count => solid_leaf _ _ (by decide) (plain_primes count)
  have switched := forall_applySwitches unnamed (fun switch _ known =>
    (usable_switchLimits switch (usable_of_shaped known)).shaped) shaped
  have start : Became [] [] := ⟨⟨trivial, List.forall_mem_nil _⟩, id⟩
  have clear : Clear isPart ((applySwitches nodes).reverse ++ []) := by
    rw [List.append_nil]
    exact legible
  have settled := settled_attachScriptsFrom clear start switched
  have rest : Clear isLower ((attachScripts (applySwitches nodes)).reverse ++ []) := by
    rw [List.append_nil]
    exact settled.clear
  have built := shaped_buildFractionsFrom rest id (List.forall_mem_nil _) fun n member =>
    settled.shaped n (List.mem_reverse.mpr member)
  have joined := forall_joinSpaces unnamed
    (fun n _ known => Resembles.shaped (n := n) ⟨rfl, rfl, rfl⟩ known) built
  have inner : ∀ n ∈ arrange nodes, n.Inner .typeset :=
    forall_fixCharactersFrom unnamed (fun _ known hidden => ⟨isRaw_of_hidden hidden, known⟩)
      (fun _ known plain =>
        ⟨isRaw_fixMinus plain, (usable_fixMinus (usable_of_shaped known)).shaped⟩)
      (fun _ count _ known => ⟨isRaw_attachPrime _ _,
        shaped_attachPrime (solid_of_typeset known.shaped known.inside) (prime count)⟩)
      (fun count => (solid_two "msup" rfl blank (prime count)).toInner)
      (List.forall_mem_nil _) joined
  exact fun n member => ⟨usable_of_shaped (inner n member).shaped, (inner n member).inside⟩

end Row

end TexFormula
