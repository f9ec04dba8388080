import Mathlib.Data.List.Basic
import TexFormula.Proofs.Row.Passes

/-! What stays of a row while it is put together. A pass that takes a node out of the row puts it
into another one that stays there. So if a property goes over to the node that takes in a node which
has it, some node of the row has it after the pass. As in the passes over all nodes, it can be one
property `P` before a pass that attaches nodes to their bases and another one, `S`, afterwards. -/
namespace TexFormula.Row

open Node

variable {P S : Node → Prop} {nodes before : List Node}

theorem mem_replace {base : Base} (found : base? nodes = some base) {n : Node}
    (member : n ∈ nodes) : n = base.node ∨ ∀ other, n ∈ base.replace other := by
  rw [base?_eq_some found] at member
  rcases List.mem_append.mp member with between | others
  · exact .inr fun _ => List.mem_append_left _ between
  · rcases List.mem_cons.mp others with same | beyond
    · exact .inl same
    · exact .inr fun _ => List.mem_append_right _ (List.mem_cons_of_mem _ beyond)

theorem exists_reverse (given : ∃ n ∈ nodes, P n) : ∃ n ∈ nodes.reverse, P n :=
  given.imp fun _ holds => ⟨List.mem_reverse.mpr holds.1, holds.2⟩

/-! ### Limit switches -/

section Limits
variable (switched : ∀ switch n, P n → P (switchLimits switch n))
  (steady : ∀ n, P n → n.marks.isLimitSwitch = false)
include switched steady

theorem exists_applySwitchesFrom {last : Node} (given : P last ∨ ∃ n ∈ nodes, P n) :
    ∃ n ∈ applySwitchesFrom last nodes, P n := by
  induction nodes generalizing last with
  | nil =>
    rcases given with first | ⟨n, member, -⟩
    · exact ⟨last, List.mem_cons_self, first⟩
    · cases member
  | cons n rest ih =>
    unfold applySwitchesFrom
    rw [List.exists_mem_cons_iff] at given
    split
    case isTrue switch =>
      have later : P (switchLimits n.marks last) ∨ ∃ m ∈ rest, P m := by
        rcases given with first | here | later
        · exact .inl (switched _ _ first)
        · cases switch.symm.trans (steady n here)
        · exact .inr later
      exact List.exists_mem_cons_of_exists (ih later)
    · rcases given with first | later
      · exact ⟨last, List.mem_cons_self, first⟩
      · exact List.exists_mem_cons_of_exists (ih later)

theorem exists_applySwitches (given : ∃ n ∈ nodes, P n) : ∃ n ∈ applySwitches nodes, P n := by
  cases nodes with
  | nil => exact given
  | cons n rest =>
    exact exists_applySwitchesFrom switched steady ((List.exists_mem_cons_iff _ _ _).mp given)

end Limits

/-! ### Scripts -/

section Scripts

theorem exists_placeScripts {script : Node} {partner : Option Node} {places : List Node}
    (made : ∀ base, S (attach base script partner)) :
    ∃ n ∈ placeScripts before script partner places, S n := by
  unfold placeScripts
  split
  case h_1 base _ =>
    refine ⟨_, List.mem_append_right _ (List.mem_cons_of_mem _ ?_), made base.node⟩
    exact List.mem_append_right _ List.mem_cons_self
  case h_2 => exact ⟨_, List.mem_append_right _ List.mem_cons_self, made _⟩

variable (plain : ∀ n, P n → isPendingScript n = false → S n)
  (asBase : ∀ base script partner, S base → S (attach base script partner))
  (asScript : ∀ base script partner, P script → isPendingScript script = true →
    S (attach base script partner))
  (asPartner : ∀ base script partner, P partner → isPartner script partner = true →
    S (attach base script (some partner)))
include asBase

theorem exists_placeScripts_of_before {script : Node} {partner : Option Node} {places : List Node}
    (given : ∃ n ∈ before, S n) : ∃ n ∈ placeScripts before script partner places, S n := by
  obtain ⟨n, member, holds⟩ := given
  unfold placeScripts
  split
  case h_1 base found =>
    rcases mem_replace found member with same | kept
    · refine ⟨_, List.mem_append_right _ (List.mem_cons_of_mem _ ?_),
        asBase _ script partner (same ▸ holds)⟩
      exact List.mem_append_right _ List.mem_cons_self
    · exact ⟨n, List.mem_append_right _ (List.mem_cons_of_mem _ (kept _)), holds⟩
  case h_2 => exact ⟨n, List.mem_append_right _ (List.mem_cons_of_mem _ member), holds⟩

include plain asScript asPartner

theorem exists_attachScriptsFrom (given : (∃ n ∈ before, S n) ∨ ∃ n ∈ nodes, P n) :
    ∃ n ∈ attachScriptsFrom before nodes, S n := by
  fun_induction attachScriptsFrom before nodes with
  | case1 before =>
    rcases given with passed | ⟨n, member, -⟩
    · exact exists_reverse passed
    · cases member
  | case2 before n script =>
    rcases given with passed | ⟨m, member, holds⟩
    · exact exists_reverse (exists_placeScripts_of_before asBase passed)
    · cases List.mem_singleton.mp member
      exact exists_reverse (exists_placeScripts fun base => asScript base _ _ holds script)
  | case3 before n other =>
    rcases given with passed | ⟨m, member, holds⟩
    · exact exists_reverse (List.exists_mem_cons_of_exists passed)
    · cases List.mem_singleton.mp member
      have kept := plain _ holds (Bool.eq_false_iff.mpr other)
      exact exists_reverse ⟨_, List.mem_cons_self, kept⟩
  | case4 before n next rest script partner ih =>
    rw [List.exists_mem_cons_iff, List.exists_mem_cons_iff] at given
    rcases given with passed | here | after | later
    · exact ih (.inl (exists_placeScripts_of_before asBase passed))
    · exact ih (.inl (exists_placeScripts fun base => asScript base _ _ here script))
    · exact ih (.inl (exists_placeScripts fun base => asPartner base _ _ after partner))
    · exact ih (.inr later)
  | case5 before n next rest script other ih =>
    rw [List.exists_mem_cons_iff] at given
    rcases given with passed | here | later
    · exact ih (.inl (exists_placeScripts_of_before asBase passed))
    · exact ih (.inl (exists_placeScripts fun base => asScript base _ _ here script))
    · exact ih (.inr later)
  | case6 before n next rest other ih =>
    rw [List.exists_mem_cons_iff] at given
    rcases given with passed | here | later
    · exact ih (.inl (List.exists_mem_cons_of_exists passed))
    · exact ih (.inl ⟨_, List.mem_cons_self, plain _ here (Bool.eq_false_iff.mpr other)⟩)
    · exact ih (.inr later)

end Scripts

/-! ### Fractions -/

section Fractions
variable (plain : ∀ n, P n → (n.marks.isOperand && !n.marks.hidden) = false → S n)
  (asUpper : ∀ (f : Fraction) upper lower, S upper → S (f.node upper lower))
  (asLower : ∀ upper n, P n → (n.marks.isOperand && !n.marks.hidden) = true →
    S ((operandFraction n.marks).node upper { n with marks := n.marks.withoutOperand }))
include plain asUpper asLower

theorem exists_buildFractionsFrom (given : (∃ n ∈ before, S n) ∨ ∃ n ∈ nodes, P n) :
    ∃ n ∈ buildFractionsFrom before nodes, S n := by
  induction nodes generalizing before with
  | nil =>
    rcases given with passed | ⟨n, member, -⟩
    · exact exists_reverse passed
    · cases member
  | cons n rest ih =>
    rw [List.exists_mem_cons_iff] at given
    unfold buildFractionsFrom
    split
    case isTrue operand =>
      simp only
      split
      case h_1 base found =>
        have placed : ∀ other, other ∈ placeholder :: base.replace other := fun _ =>
          List.mem_cons_of_mem _ (List.mem_append_right _ List.mem_cons_self)
        rcases given with ⟨m, member, holds⟩ | here | later
        · rcases mem_replace found member with same | kept
          · exact ih (.inl ⟨_, placed _, asUpper _ _ _ (same ▸ holds)⟩)
          · exact ih (.inl ⟨m, List.mem_cons_of_mem _ (kept _), holds⟩)
        · exact ih (.inl ⟨_, placed _, asLower _ _ here operand⟩)
        · exact ih (.inr later)
      case h_2 =>
        rcases given with passed | here | later
        · exact ih (.inl (List.exists_mem_cons_of_exists passed))
        · exact ih (.inl ⟨_, List.mem_cons_self, asLower _ _ here operand⟩)
        · exact ih (.inr later)
    case isFalse other =>
      rcases given with passed | here | later
      · exact ih (.inl (List.exists_mem_cons_of_exists passed))
      · exact ih (.inl ⟨_, List.mem_cons_self, plain _ here (Bool.eq_false_iff.mpr other)⟩)
      · exact ih (.inr later)

end Fractions

/-! ### Spaces and characters -/

/-- Whether a node is neither a space nor a text, so that no pass over characters changes it. -/
structure Firm (n : Node) : Prop where
  named : n.tag ≠ ""
  space : n.tag ≠ "mspace"
  text : n.text = ""

theorem firm_of_tag {n : Node} (tag : String) (same : n.tag = tag)
    (other : tag ≠ "" ∧ tag ≠ "mspace") (text : n.text = "") : Firm n :=
  ⟨same ▸ other.1, same ▸ other.2, text⟩

theorem Firm.isPlaceholder {n : Node} (firm : Firm n) : n.isPlaceholder = false := by
  simp [Node.isPlaceholder, firm.named]

theorem Firm.spaceWidth? {n : Node} (firm : Firm n) : spaceWidth? n = none := by
  simp [Row.spaceWidth?, firm.space]

theorem Firm.isPrime {n : Node} (firm : Firm n) : isPrime n = false := by
  simp [Row.isPrime, firm.text]

theorem Firm.fixMinus {n : Node} (firm : Firm n) : fixMinus n = n := by
  simp [Row.fixMinus, firm.text]

section Characters
variable (firm : ∀ n, S n → Firm n)
include firm

theorem exists_absorbSpaces (given : ∃ n ∈ nodes, S n) : ∃ n ∈ (absorbSpaces nodes).2, S n := by
  induction nodes with
  | nil => exact given
  | cons n rest ih =>
    rw [List.exists_mem_cons_iff] at given
    unfold absorbSpaces
    split
    · exact (List.exists_mem_cons_iff _ _ _).mpr (given.imp_right ih)
    · split
      · exact (List.exists_mem_cons_iff _ _ _).mpr given
      case h_2 width space =>
        rcases given with here | later
        · cases (firm n here).spaceWidth?.symm.trans space
        · exact List.exists_mem_cons_of_exists (ih later)

theorem exists_joinSpaces (given : ∃ n ∈ nodes, S n) : ∃ n ∈ joinSpaces nodes, S n := by
  fun_induction joinSpaces nodes with
  | case1 => exact given
  | case2 n rest other ih =>
    rw [List.exists_mem_cons_iff] at given ⊢
    exact given.imp_right ih
  | case3 n rest width space ih =>
    rcases (List.exists_mem_cons_iff _ _ _).mp given with here | later
    · cases (firm n here).spaceWidth?.symm.trans space
    · exact List.exists_mem_cons_of_exists (ih (exists_absorbSpaces firm later))

theorem exists_absorbPrimes (given : ∃ n ∈ nodes, S n) : ∃ n ∈ (absorbPrimes nodes).2, S n := by
  induction nodes with
  | nil => exact given
  | cons n rest ih =>
    rw [List.exists_mem_cons_iff] at given
    unfold absorbPrimes
    split
    case isTrue free =>
      rcases given with here | later
      · cases (firm n here).isPlaceholder.symm.trans free
      · exact List.exists_mem_cons_of_exists (ih later)
    · split
      case isTrue prime =>
        rcases given with here | later
        · cases (firm n here).isPrime.symm.trans prime
        · exact List.exists_mem_cons_of_exists (ih later)
      · exact (List.exists_mem_cons_iff _ _ _).mpr given

variable (primed : ∀ base prime, S base → S (attachPrime base prime))
include primed

theorem exists_fixCharactersFrom (given : (∃ n ∈ before, S n) ∨ ∃ n ∈ nodes, S n) :
    ∃ n ∈ fixCharactersFrom before nodes, S n := by
  fun_induction fixCharactersFrom before nodes with
  | case1 before =>
    rcases given with passed | ⟨n, member, -⟩
    · exact exists_reverse passed
    · cases member
  | case2 before n rest hidden ih =>
    rw [List.exists_mem_cons_iff] at given
    rcases given with passed | here | later
    · exact ih (.inl (List.exists_mem_cons_of_exists passed))
    · exact ih (.inl ⟨n, List.mem_cons_self, here⟩)
    · exact ih (.inr later)
  | case3 before n rest shown apostrophe prime base found ih =>
    rw [List.exists_mem_cons_iff] at given
    rcases given with ⟨m, member, holds⟩ | here | later
    · rcases mem_replace found member with same | kept
      · refine ih (.inl ⟨_, List.mem_cons_of_mem _ ?_, primed _ prime (same ▸ holds)⟩)
        exact List.mem_append_right _ List.mem_cons_self
      · exact ih (.inl ⟨m, List.mem_cons_of_mem _ (kept _), holds⟩)
    · cases (firm n here).isPrime.symm.trans apostrophe
    · exact ih (.inr (exists_absorbPrimes firm later))
  | case4 before n rest shown apostrophe prime baseless ih =>
    rw [List.exists_mem_cons_iff] at given
    rcases given with passed | here | later
    · exact ih (.inl (List.exists_mem_cons_of_exists passed))
    · cases (firm n here).isPrime.symm.trans apostrophe
    · exact ih (.inr (exists_absorbPrimes firm later))
  | case5 before n rest shown other ih =>
    rw [List.exists_mem_cons_iff] at given
    rcases given with passed | here | later
    · exact ih (.inl (List.exists_mem_cons_of_exists passed))
    · exact ih (.inl ⟨_, List.mem_cons_self, (firm n here).fixMinus.symm ▸ here⟩)
    · exact ih (.inr later)

end Characters

end TexFormula.Row
