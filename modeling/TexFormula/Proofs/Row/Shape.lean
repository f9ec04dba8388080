import TexFormula.Proofs.Node.Shape
import TexFormula.Proofs.Row.Passes

/-! Putting a row together keeps elements in shape (`usable_arrange`). A base is neither hidden nor
a break, and a script or an operand is not hidden and has a mark that a break has not; so whatever
is put into an element is a node that can be put there. -/
namespace TexFormula

namespace Row

open Node

variable {strict : Prop} {nodes : List Node} {n : Node}

/-- Of a child as such nothing is asked. -/
theorem solid_of_made (made : n.Made (.shown strict)) : n.Solid (.shown strict) :=
  ⟨⟨trivial, made.shaped⟩, made.part⟩

theorem usable_switchLimits {F : Fit} (switch : Marks) (usable : n.Usable F) :
    (switchLimits switch n).Usable F := by
  have marked : { n with marks := { n.marks with
      stackedLimits := switch.limits, movableLimits := false } }.Usable F :=
    ⟨usable.role.imp (F.part_congr (n := n) rfl rfl) fun passed =>
      passed.withMarks rfl rfl rfl rfl, shaped_withMarks usable.shaped _⟩
  unfold switchLimits
  dsimp only
  split
  · exact Resembles.usable (n := { n with marks := _ }) ⟨rfl, rfl, rfl⟩ marked
  · exact Resembles.usable (n := { n with marks := _ }) ⟨rfl, rfl, rfl⟩ marked

/-! ### Scripts -/

theorem Usable.solid_of_base (usable : n.Usable (.shown strict)) (base : IsBase n) :
    n.Solid (.shown strict) :=
  solid_of_made (usable.made base.1 (.inl base.2))

theorem solid_unscripted (usable : n.Usable (.shown strict)) (script : isPendingScript n = true) :
    (unscripted n).Solid (.shown strict) := by
  simp only [isPendingScript, Bool.and_eq_true, Bool.not_eq_true'] at script
  have pending : n.marks.isPending = true := by simp [Marks.isPending, script.1]
  exact solid_of_made ((usable.made script.2 (.inr pending)).withMarks rfl)

/-- The element for scripts has one child for the base and one for each script. -/
theorem shaped_assemble {F : Fit} {base : Node} {sub sup : Option Node}
    (bare : { base with marks := base.marks.withoutOperand }.Solid F)
    (below : ∀ n ∈ sub, n.Solid F) (above : ∀ n ∈ sup, n.Solid F)
    (some : sub.isSome = true ∨ sup.isSome = true) :
    (assemble base sub sup).Everywhere (Shaped F) := by
  have parts : ∀ child ∈ { base with marks := base.marks.withoutOperand } ::
      (sub.toList ++ sup.toList), child.Solid F := by
    refine List.forall_mem_cons.mpr ⟨bare, List.forall_mem_append.mpr ⟨?_, ?_⟩⟩
    · exact fun n member => below n (Option.mem_toList.mp member)
    · exact fun n member => above n (Option.mem_toList.mp member)
  have count : arity? (scriptTag sub.isSome sup.isSome base.marks.stackedLimits) =
      Option.some (1 + (sub.toList ++ sup.toList).length) := by
    cases sub <;> cases sup <;> cases base.marks.stackedLimits <;> first | rfl | simp at some
  rw [Nat.add_comm] at count
  exact shaped_of_parts count parts

theorem shaped_attach {F : Fit} {base script : Node} {partner : Option Node}
    (bare : { base with marks := base.marks.withoutOperand }.Solid F)
    (first : (unscripted script).Solid F) (second : ∀ n ∈ partner, (unscripted n).Solid F) :
    (attach base script partner).Everywhere (Shaped F) := by
  have one : ∀ n ∈ some (unscripted script), n.Solid F := by
    rintro _ ⟨⟩
    exact first
  have other : ∀ n ∈ partner.map unscripted, n.Solid F := Option.forall_mem_map.mpr second
  unfold attach
  split
  · exact shaped_assemble bare one other (.inl rfl)
  · exact shaped_assemble bare other one (.inr rfl)

theorem isWritten_attach (base script : Node) (partner : Option Node) :
    (attach base script partner).isWritten = true := by
  have named : ∀ sub sup stacked, scriptTag sub sup stacked ≠ "" := by decide
  have written : ∀ sub sup, (assemble base sub sup).isWritten = true := fun sub sup => by
    simp [isWritten, assemble, named, Marks.operandOnly]
  unfold attach
  split
  · exact written _ _
  · exact written _ _

theorem usable_attach {base script : Node} {partner : Option Node}
    (solid : base.Solid (.shown strict)) (usable : script.Usable (.shown strict))
    (pending : isPendingScript script = true)
    (second : ∀ n ∈ partner, n.Usable (.shown strict) ∧ isPartner script n = true) :
    (attach base script partner).Usable (.shown strict) := by
  refine ⟨.inl fun _ => isWritten_attach _ _ _, shaped_attach ?_ ?_ fun n given => ?_⟩
  · exact solid_of_made (solid.toMade.withMarks rfl)
  · exact solid_unscripted usable pending
  · exact solid_unscripted (second n given).1 (isPendingScript_of_isPartner (second n given).2)

/-! ### Fractions -/

theorem solid_operand (f : Fraction) {upper : Node} (above : upper.Solid (.shown strict))
    (usable : n.Usable (.shown strict))
    (operand : (n.marks.isOperand && !n.marks.hidden) = true) :
    (f.node upper { n with marks := n.marks.withoutOperand }).Solid (.shown strict) := by
  simp only [Bool.and_eq_true, Bool.not_eq_true'] at operand
  have pending : n.marks.isPending = true := by simp [Marks.isPending, operand.1]
  exact solid_fraction f above
    (solid_of_made ((usable.made operand.2 (.inr pending)).withMarks rfl))

/-! ### Characters -/

/-- An element for one script becomes one for two. -/
theorem shaped_prime {F : Fit} {base prime : Node} {tag : String}
    (shaped : base.Everywhere (Shaped F)) (two : arity? base.tag = some 2)
    (three : arity? tag = some 3) (given : prime.Solid F) :
    ({ base with tag }.append [prime]).Everywhere (Shaped F) := by
  obtain ⟨length, parts⟩ := shaped.self.parts 2 two
  refine shaped_of_parts ?_ (List.forall_mem_append.mpr ⟨fun child member => ?_, ?_⟩)
  · rw [append, List.length_append, length]
    exact three
  · exact ⟨⟨shaped.self.inside child member, shaped.children child member⟩, parts child member⟩
  · exact List.forall_mem_singleton.mpr given

theorem shaped_attachPrime {F : Fit} {base prime : Node} (solid : base.Solid F)
    (given : prime.Solid F) : (attachPrime base prime).Everywhere (Shaped F) := by
  unfold attachPrime
  split
  case isTrue sub =>
    simp only [Bool.and_eq_true, beq_iff_eq] at sub
    exact shaped_prime solid.shaped (by rw [sub.2]; rfl) rfl given
  · split
    case isTrue under =>
      simp only [Bool.and_eq_true, beq_iff_eq] at under
      exact shaped_prime solid.shaped (by rw [under.2]; rfl) rfl given
    · exact (solid_two _ rfl solid given).shaped

theorem isWritten_attachPrime {base : Node} (prime : Node) (visible : base.marks.hidden = false) :
    (attachPrime base prime).isWritten = true := by
  unfold attachPrime
  split
  · simp [isWritten, append, visible]
  · split
    · simp [isWritten, append, visible]
    · rfl

theorem usable_fixMinus {F : Fit} (usable : n.Usable F) : (fixMinus n).Usable F := by
  unfold fixMinus
  split
  · exact Resembles.usable (n := n) ⟨rfl, rfl, rfl⟩ usable
  · exact usable

/-! ### Rows -/

/-- All nodes of a row that was put together can stand in a row. -/
theorem usable_arrange (usable : ∀ n ∈ nodes, n.Usable (.shown strict)) :
    ∀ n ∈ arrange nodes, n.Usable (.shown strict) := by
  have none := List.forall_mem_nil (Usable (.shown strict))
  have blank : (element "none").Solid (.shown strict) := solid_element _ (by decide)
  have empty : (row []).Solid (.shown strict) := solid_row (List.forall_mem_nil _)
  have prime : ∀ glyphs, (leaf "mo" glyphs).Solid (.shown strict) := fun glyphs =>
    solid_of_made (made_leaf _ glyphs (by decide))
  have switched := forall_applySwitches usable_placeholder
    (fun switch _ => usable_switchLimits switch) usable
  have scripted := forall_attachScriptsFrom usable_placeholder blank.usable (fun _ given _ => given)
    (fun _ _ _ base given script pending partner =>
      usable_attach (Usable.solid_of_base given base) script pending partner) none switched
  have built := forall_buildFractionsFrom usable_placeholder empty.usable (fun _ given _ => given)
    (fun f _ _ base upper lower operand =>
      (solid_operand f (Usable.solid_of_base upper base) lower operand).usable) none scripted
  have joined := forall_joinSpaces usable_placeholder
    (fun n _ given => Resembles.usable (n := n) ⟨rfl, rfl, rfl⟩ given) built
  exact forall_fixCharactersFrom usable_placeholder (fun _ given _ => given)
    (fun _ given _ => usable_fixMinus given)
    (fun _ _ base given => ⟨.inl fun _ => isWritten_attachPrime _ base.1,
      shaped_attachPrime (Usable.solid_of_base given base) (prime _)⟩)
    (fun _ => (solid_two "msup" rfl blank (prime _)).usable) none joined

/-! ### Drafts -/

namespace Draft

variable {d : Draft}

theorem usable_add {F : Fit} (c : Context) (t : Token) (usable : ∀ n ∈ d.latest, n.Usable F)
    (given : (n.mark d.pending).Usable F) : ∀ m ∈ (d.add c t n).latest, m.Usable F := by
  refine forall_add c t usable (fun m _ last => Resembles.usable (n := m) ⟨rfl, rfl, rfl⟩ last) ?_
  have sized : n.Resembles (resize t n) :=
    resembles_ite (resembles_self n) (resembles_setAttributes n _)
  refine Resembles.usable (n := n.mark d.pending) ⟨sized.tag, ?_, sized.children⟩ given
  rw [Node.mark, Node.mark, sized.marks]

theorem pending_add (c : Context) (t : Token) (n : Node) : (d.add c t n).pending = {} := by
  unfold add
  split
  · dsimp only
    split <;> rfl
  · rfl

end Draft

end Row

end TexFormula
