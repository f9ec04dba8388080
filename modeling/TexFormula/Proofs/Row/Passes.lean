import Mathlib.Data.Option.Basic
import TexFormula.Proofs.Node.Stable
import TexFormula.Row
import TexFormula.Row.Draft

/-! The passes over a row. Each pass only moves nodes, changes single ones and puts new ones between
them, so it takes a property `P` of all nodes of a row to a property `Q` if what it does to single
nodes does so. The two passes that attach nodes to their bases are the ones in which `P` and `Q` can
differ: before the pass a node may have marks that it has no more afterwards. They can also differ
for the pass over characters. -/
namespace TexFormula.Row

open Node

/-- Whether a node can be the base of a place: it is not hidden and ends nothing. -/
def IsBase (n : Node) : Prop :=
  n.marks.hidden = false ∧ n.marks.isBreak = false

variable {P Q A : Node → Prop} {nodes before : List Node}

/-- The base of a place is the nearest node before it that is written. -/
theorem base?_eq_some {base : Base} (found : base? nodes = some base) :
    nodes = base.between ++ base.node :: base.beyond := by
  induction nodes generalizing base with
  | nil => cases found
  | cons n rest ih =>
    unfold base? at found
    split at found
    · obtain ⟨inner, later, same⟩ := Option.map_eq_some_iff.mp found
      subst same
      exact congrArg (n :: ·) (ih later)
    · split at found
      · cases found
      · cases found
        rfl

theorem hidden_between {base : Base} (found : base? nodes = some base) :
    ∀ n ∈ base.between, n.marks.hidden = true := by
  induction nodes generalizing base with
  | nil => cases found
  | cons n rest ih =>
    unfold base? at found
    split at found
    case isTrue hidden =>
      obtain ⟨inner, later, same⟩ := Option.map_eq_some_iff.mp found
      have between : ∀ m ∈ inner.between, m.marks.hidden = true := ih later
      exact same ▸ List.forall_mem_cons.mpr ⟨hidden, between⟩
    case isFalse =>
      split at found
      · cases found
      · cases found
        exact List.forall_mem_nil _

theorem isBase_of_found {base : Base} (found : base? nodes = some base) : IsBase base.node := by
  induction nodes generalizing base with
  | nil => cases found
  | cons n rest ih =>
    unfold base? at found
    split at found
    case isTrue =>
      obtain ⟨inner, later, same⟩ := Option.map_eq_some_iff.mp found
      have base : IsBase inner.node := ih later
      exact same ▸ base
    case isFalse shown =>
      split at found
      case isTrue => cases found
      case isFalse inside =>
        cases found
        exact ⟨Bool.eq_false_iff.mpr shown, Bool.eq_false_iff.mpr inside⟩

section Base
variable {base : Base} (found : base? nodes = some base) (holds : ∀ n ∈ nodes, Q n)
include found holds

theorem forall_base : Q base.node := by
  apply holds
  rw [base?_eq_some found]
  exact List.mem_append_right _ List.mem_cons_self

theorem forall_replace {n : Node} (given : Q n) : ∀ m ∈ base.replace n, Q m := by
  rw [base?_eq_some found] at holds
  obtain ⟨between, others⟩ := List.forall_mem_append.mp holds
  exact List.forall_mem_append.mpr
    ⟨between, List.forall_mem_cons.mpr ⟨given, (List.forall_mem_cons.mp others).2⟩⟩

end Base

theorem forall_reverse (holds : ∀ n ∈ nodes, Q n) : ∀ n ∈ nodes.reverse, Q n :=
  fun n member => holds n (List.mem_reverse.mp member)

/-! ### Limit switches -/

section Limits
variable (placeholder : P .placeholder)
  (switched : ∀ switch n, P n → P (switchLimits switch n))
include placeholder switched

theorem forall_applySwitchesFrom {last : Node} (first : P last) (holds : ∀ n ∈ nodes, P n) :
    ∀ n ∈ applySwitchesFrom last nodes, P n := by
  induction nodes generalizing last with
  | nil => simpa [applySwitchesFrom] using first
  | cons n rest ih =>
    obtain ⟨here, later⟩ := List.forall_mem_cons.mp holds
    unfold applySwitchesFrom
    split
    · exact List.forall_mem_cons.mpr ⟨placeholder, ih (switched n.marks last first) later⟩
    · exact List.forall_mem_cons.mpr ⟨first, ih here later⟩

theorem forall_applySwitches (holds : ∀ n ∈ nodes, P n) : ∀ n ∈ applySwitches nodes, P n := by
  cases nodes with
  | nil => exact holds
  | cons n rest =>
    obtain ⟨here, later⟩ := List.forall_mem_cons.mp holds
    exact forall_applySwitchesFrom placeholder switched here later

end Limits

/-! ### Scripts -/

/-- Of the marks of its base, the node for the scripts has those of an operand. -/
theorem marks_attach (base script : Node) (partner : Option Node) :
    (attach base script partner).marks = { base.marks.operandOnly with assembled := true } := by
  unfold attach
  split <;> rfl

theorem isPendingScript_of_isPartner {script n : Node} (partner : isPartner script n = true) :
    isPendingScript n = true := by
  unfold isPartner at partner
  unfold isPendingScript Marks.isScript
  split at partner <;> simp_all

section Scripts
variable (placeholder : Q .placeholder) (blank : Q (.element "none"))
  (plain : ∀ n, P n → isPendingScript n = false → Q n)
  (attached : ∀ base script partner, IsBase base → Q base → P script →
    isPendingScript script = true → (∀ n ∈ partner, P n ∧ isPartner script n = true) →
    Q (attach base script partner))
include placeholder blank attached

theorem forall_placeScripts {script : Node} {partner : Option Node} {places : List Node}
    (passed : ∀ n ∈ before, Q n) (given : P script) (pending : isPendingScript script = true)
    (second : ∀ n ∈ partner, P n ∧ isPartner script n = true) (free : ∀ n ∈ places, Q n) :
    ∀ n ∈ placeScripts before script partner places, Q n := by
  unfold placeScripts
  split
  case h_1 base found =>
    have made := attached _ _ _ (isBase_of_found found) (forall_base found passed) given pending
      second
    exact List.forall_mem_append.mpr ⟨free, List.forall_mem_cons.mpr
      ⟨placeholder, forall_replace found passed made⟩⟩
  case h_2 =>
    have made := attached _ _ _ ⟨rfl, rfl⟩ blank given pending second
    exact List.forall_mem_append.mpr ⟨free, List.forall_mem_cons.mpr ⟨made, passed⟩⟩

include plain

theorem forall_attachScriptsFrom (passed : ∀ n ∈ before, Q n) (holds : ∀ n ∈ nodes, P n) :
    ∀ n ∈ attachScriptsFrom before nodes, Q n := by
  have alone : ∀ n : Node, ∀ partner ∈ (none : Option Node),
      P partner ∧ isPartner n partner = true := fun _ _ member => nomatch member
  fun_induction attachScriptsFrom before nodes with
  | case1 before => exact forall_reverse passed
  | case2 before n script =>
    exact forall_reverse (forall_placeScripts placeholder blank attached passed
      (holds n List.mem_cons_self) script (alone n) (List.forall_mem_nil _))
  | case3 before n other =>
    have kept := plain n (holds n List.mem_cons_self) (Bool.eq_false_iff.mpr other)
    exact forall_reverse (List.forall_mem_cons.mpr ⟨kept, passed⟩)
  | case4 before n next rest script partner ih =>
    obtain ⟨here, after, later⟩ := by simpa only [List.forall_mem_cons] using holds
    have pair : ∀ m ∈ some next, P m ∧ isPartner n m = true := by
      rintro m same
      cases same
      exact ⟨after, partner⟩
    exact ih (forall_placeScripts placeholder blank attached passed here script pair
      (List.forall_mem_singleton.mpr placeholder)) later
  | case5 before n next rest script other ih =>
    obtain ⟨here, later⟩ := List.forall_mem_cons.mp holds
    exact ih (forall_placeScripts placeholder blank attached passed here script (alone n)
      (List.forall_mem_nil _)) later
  | case6 before n next rest other ih =>
    obtain ⟨here, later⟩ := List.forall_mem_cons.mp holds
    have kept := plain n here (Bool.eq_false_iff.mpr other)
    exact ih (List.forall_mem_cons.mpr ⟨kept, passed⟩) later

end Scripts

/-! ### Fractions -/

section Fractions
variable (placeholder : Q .placeholder) (blank : Q (.row []))
  (plain : ∀ n, P n → (n.marks.isOperand && !n.marks.hidden) = false → Q n)
  (built : ∀ (f : Fraction) upper n, IsBase upper → Q upper → P n →
    (n.marks.isOperand && !n.marks.hidden) = true →
    Q (f.node upper { n with marks := n.marks.withoutOperand }))
include placeholder blank plain built

theorem forall_buildFractionsFrom (passed : ∀ n ∈ before, Q n) (holds : ∀ n ∈ nodes, P n) :
    ∀ n ∈ buildFractionsFrom before nodes, Q n := by
  induction nodes generalizing before with
  | nil => exact forall_reverse passed
  | cons n rest ih =>
    obtain ⟨here, later⟩ := List.forall_mem_cons.mp holds
    unfold buildFractionsFrom
    split
    case isTrue operand =>
      simp only
      split
      case h_1 base found =>
        have made := built (operandFraction n.marks) _ n (isBase_of_found found)
          (forall_base found passed) here operand
        exact ih (List.forall_mem_cons.mpr
          ⟨placeholder, forall_replace found passed made⟩) later
      case h_2 =>
        have made := built (operandFraction n.marks) _ n ⟨rfl, rfl⟩ blank here operand
        exact ih (List.forall_mem_cons.mpr ⟨made, passed⟩) later
    case isFalse other =>
      have kept := plain n here (Bool.eq_false_iff.mpr other)
      exact ih (List.forall_mem_cons.mpr ⟨kept, passed⟩) later

end Fractions

/-! ### Spaces -/

section Spaces
variable (placeholder : Q .placeholder)
  (widened : ∀ n width, Q n → Q (n.setAttribute "width" width))
include placeholder

theorem forall_absorbSpaces (holds : ∀ n ∈ nodes, Q n) : ∀ n ∈ (absorbSpaces nodes).2, Q n := by
  induction nodes with
  | nil => exact holds
  | cons n rest ih =>
    obtain ⟨here, later⟩ := List.forall_mem_cons.mp holds
    unfold absorbSpaces
    split
    · exact List.forall_mem_cons.mpr ⟨here, ih later⟩
    · split
      · exact holds
      · exact List.forall_mem_cons.mpr ⟨placeholder, ih later⟩

include widened

theorem forall_joinSpaces (holds : ∀ n ∈ nodes, Q n) : ∀ n ∈ joinSpaces nodes, Q n := by
  fun_induction joinSpaces nodes with
  | case1 => exact holds
  | case2 n rest other ih =>
    obtain ⟨here, later⟩ := List.forall_mem_cons.mp holds
    exact List.forall_mem_cons.mpr ⟨here, ih later⟩
  | case3 n rest width space ih =>
    obtain ⟨here, later⟩ := List.forall_mem_cons.mp holds
    exact List.forall_mem_cons.mpr
      ⟨widened _ _ here, ih (forall_absorbSpaces placeholder later)⟩

end Spaces

/-! ### Characters -/

section Characters
variable (placeholder : P .placeholder)
include placeholder

theorem forall_absorbPrimes (holds : ∀ n ∈ nodes, P n) : ∀ n ∈ (absorbPrimes nodes).2, P n := by
  induction nodes with
  | nil => exact holds
  | cons n rest ih =>
    obtain ⟨here, later⟩ := List.forall_mem_cons.mp holds
    unfold absorbPrimes
    split
    · exact List.forall_mem_cons.mpr ⟨placeholder, ih later⟩
    · split
      · exact List.forall_mem_cons.mpr ⟨placeholder, ih later⟩
      · exact holds

variable (kept : ∀ n, P n → n.marks.hidden = true → Q n)
  (fixed : ∀ n, P n → isPrime n = false → Q (fixMinus n))
  (primed : ∀ base count, IsBase base → Q base →
    Q (attachPrime base (.leaf "mo" (String.ofList (primeGlyphs count)))))
  (alone : ∀ count,
    Q (.branch "msup" [.element "none", .leaf "mo" (String.ofList (primeGlyphs count))]))
include kept fixed primed alone

theorem forall_fixCharactersFrom (passed : ∀ n ∈ before, Q n) (holds : ∀ n ∈ nodes, P n) :
    ∀ n ∈ fixCharactersFrom before nodes, Q n := by
  fun_induction fixCharactersFrom before nodes with
  | case1 before => exact forall_reverse passed
  | case2 before n rest hidden ih =>
    obtain ⟨here, later⟩ := List.forall_mem_cons.mp holds
    exact ih (List.forall_mem_cons.mpr ⟨kept n here hidden, passed⟩) later
  | case3 before n rest shown apostrophe prime base found ih =>
    have later := forall_absorbPrimes placeholder (List.forall_mem_cons.mp holds).2
    have attached := primed _ ((absorbPrimes rest).1 + 1) (isBase_of_found found)
      (forall_base found passed)
    have free : Q Node.placeholder := kept _ placeholder rfl
    exact ih (List.forall_mem_cons.mpr ⟨free, forall_replace found passed attached⟩) later
  | case4 before n rest shown apostrophe prime baseless ih =>
    have later := forall_absorbPrimes placeholder (List.forall_mem_cons.mp holds).2
    exact ih (List.forall_mem_cons.mpr ⟨alone _, passed⟩) later
  | case5 before n rest shown other ih =>
    obtain ⟨here, later⟩ := List.forall_mem_cons.mp holds
    have plain := fixed n here (Bool.eq_false_iff.mpr other)
    exact ih (List.forall_mem_cons.mpr ⟨plain, passed⟩) later

end Characters

section Stable
variable [Stable A]

theorem stable_joinSpaces (holds : ∀ n ∈ nodes, n.Everywhere A) :
    ∀ n ∈ joinSpaces nodes, n.Everywhere A :=
  forall_joinSpaces stable_placeholder (fun _ _ known => known.setAttribute _ _ (by decide)) holds

theorem stable_attachPrime {base prime : Node} (holds : base.Everywhere A)
    (given : prime.Everywhere A) : (attachPrime base prime).Everywhere A := by
  have one := List.forall_mem_singleton.mpr given
  refine everywhere_ite (fun _ => (holds.withTag (by decide)).append one) fun _ => ?_
  refine everywhere_ite (fun _ => (holds.withTag (by decide)).append one) fun _ => ?_
  exact stable_two _ holds given (by decide)

theorem stable_fixMinus {n : Node} (holds : n.Everywhere A) : (fixMinus n).Everywhere A :=
  everywhere_ite (fun _ => holds.of_same rfl rfl rfl id id) fun _ => holds

theorem stable_fixCharactersFrom (passed : ∀ n ∈ before, n.Everywhere A)
    (holds : ∀ n ∈ nodes, n.Everywhere A) :
    ∀ n ∈ fixCharactersFrom before nodes, n.Everywhere A := by
  have prime : ∀ glyphs, (leaf "mo" glyphs).Everywhere A := fun glyphs =>
    stable_leaf _ glyphs (by decide)
  refine forall_fixCharactersFrom stable_placeholder (fun _ known _ => known)
    (fun _ known _ => stable_fixMinus known)
    (fun _ _ _ known => stable_attachPrime known (prime _)) (fun _ => ?_) passed holds
  exact stable_two "msup" (stable_element "none" (by decide)) (prime _) (by decide)

end Stable

/-! ### Drafts -/

namespace Draft

variable {d : Draft}

theorem forall_place (holds : ∀ n ∈ d.latest, P n) (given : ∀ n ∈ nodes, P n) :
    ∀ n ∈ (d.place nodes).latest, P n :=
  List.forall_mem_append.mpr ⟨forall_reverse given, holds⟩

/-- One more node either stands in the row itself or its text goes to the node before it. -/
theorem forall_add (c : Context) (t : Token) (holds : ∀ n ∈ d.latest, P n)
    (longer : ∀ n text, P n → P { n with text }) {n : Node}
    (given : P ((resize t n).mark d.pending)) : ∀ m ∈ (d.add c t n).latest, P m := by
  unfold add
  split
  case h_1 last others earlier =>
    rw [earlier] at holds
    obtain ⟨final, before⟩ := List.forall_mem_cons.mp holds
    simp only
    split
    · exact List.forall_mem_cons.mpr ⟨longer _ _ final, before⟩
    · rw [earlier]
      exact List.forall_mem_cons.mpr ⟨given, holds⟩
  case h_2 => exact List.forall_mem_singleton.mpr given

end Draft

end TexFormula.Row
