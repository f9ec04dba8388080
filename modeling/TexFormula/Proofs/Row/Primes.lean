import TexFormula.Proofs.Row.ScriptOrder
import TexFormula.Proofs.Row.Settling

/-! Primes and a subscript at one base. Scripts go to their bases before apostrophes do, so the
order in which the two are written matters. Apostrophes behind the subscript find a base that has
one already, and become its superscript (`arrange_subscript_primes`). The last apostrophe in front
of the subscript is a base itself by then: it gets the subscript and is no prime any more
(`arrange_apostrophe_subscript`). -/
namespace TexFormula.Row

open Node

variable {b n p s : Node} {nodes apostrophes : List Node}

/-- Whether a node is an apostrophe as it is read. -/
structure Apostrophe (n : Node) : Prop where
  prime : isPrime n = true
  unmarked : n.marks = {}

/-- Whether a node is a subscript that is written. -/
structure Subscript (n : Node) : Prop where
  below : n.marks.subscript = true
  shown : n.marks.hidden = false
  noSwitch : n.marks.isLimitSwitch = false

/-- Whether a node is written and stands for itself. -/
structure Standing (n : Node) : Prop where
  shown : n.marks.hidden = false
  noBreak : n.marks.isBreak = false
  noScript : n.marks.isScript = false
  noOperand : n.marks.isOperand = false

/-- A base with a subscript and, as its superscript, the glyphs for a number of primes. -/
def primedSubscript (b s : Node) (count : Nat) : Node where
  tag := if b.marks.stackedLimits then "munderover" else "msubsup"
  marks := { assembled := true }
  children := [b, unscripted s, primes count]

/-- A base with a subscript. -/
def subscripted (b s : Node) : Node where
  tag := if b.marks.stackedLimits then "munder" else "msub"
  marks := { assembled := true }
  children := [b, unscripted s]

theorem Standing.noOperands (base : Standing b) : b.marks.overOperand = false ∧
    b.marks.chooseOperand = false ∧ b.marks.atopOperand = false := by
  have none := base.noOperand
  simp only [Marks.isOperand, Bool.or_eq_false_iff] at none
  exact ⟨none.1.1, none.1.2, none.2⟩

theorem Standing.withoutOperand (base : Standing b) :
    { b with marks := b.marks.withoutOperand } = b := by
  obtain ⟨lined, choose, atop⟩ := base.noOperands
  obtain ⟨_, _, _, _, marks, _, _, _⟩ := b
  cases marks
  cases lined
  cases choose
  cases atop
  rfl

theorem Standing.operandOnly (base : Standing b) : b.marks.operandOnly = {} := by
  obtain ⟨lined, choose, atop⟩ := base.noOperands
  rw [Marks.operandOnly, lined, choose, atop]

theorem Standing.isBase (base : Standing b) : IsBase b :=
  ⟨base.shown, base.noBreak⟩

theorem Standing.plain (base : Standing b) : isPendingScript b = false := by
  rw [isPendingScript, base.noScript, Bool.false_and]

namespace Apostrophe

theorem standing (apostrophe : Apostrophe p) : Standing p := by
  constructor <;> rw [apostrophe.unmarked] <;> rfl

theorem noSwitch (apostrophe : Apostrophe p) : p.marks.isLimitSwitch = false := by
  rw [apostrophe.unmarked]
  rfl

/-- An apostrophe stands for no command, so it is no space. -/
theorem noSpace (apostrophe : Apostrophe p) : isFixedSpace p = false := by
  have other := (Bool.and_eq_true_iff.mp apostrophe.prime).2
  rw [Bool.not_eq_true'] at other
  simp [isFixedSpace, spaceWidth?, other]

end Apostrophe

/-! ### A base with its subscript -/

theorem unscripted_mark (s : Node) :
    unscripted (s.mark { subscript := true }) = unscripted s := by
  simp [unscripted, mark, Marks.union, Marks.withoutScript]

theorem subscript_mark (shown : s.marks.hidden = false) (noSwitch : s.marks.isLimitSwitch = false) :
    Subscript (s.mark { subscript := true }) where
  below := by simp [mark, Marks.union]
  shown := by simp [mark, Marks.union, shown]
  noSwitch := by simpa [mark, Marks.union, Marks.isLimitSwitch] using noSwitch

theorem Subscript.pending (script : Subscript s) : isPendingScript s = true := by
  simp [isPendingScript, Marks.isScript, script.below, script.shown]

theorem attach_subscript (base : Standing b) (script : Subscript s) :
    attach b s none = subscripted b s := by
  rw [attach, if_pos script.below, assemble, base.withoutOperand, base.operandOnly, subscripted]
  cases b.marks.stackedLimits <;> simp [scriptTag]

theorem attachScriptsFrom_subscript (base : Standing b) (script : Subscript s)
    (apart : ∀ n ∈ nodes.head?, isPendingScript n = false) (before : List Node) :
    attachScriptsFrom before (b :: s :: nodes) =
      attachScriptsFrom (.placeholder :: subscripted b s :: before) nodes := by
  have alone : Partner s nodes none nodes := .alone fun n first other => by
    have pending := isPendingScript_of_isPartner (isPartner_iff.mpr other)
    cases pending.symm.trans (apart n first)
  have settled : settleScript s none (b :: before) = .placeholder :: attach b s none :: before :=
    settle_of_nearest (List.forall_mem_nil _) base.isBase _ _ _ _
  rw [attachScriptsFrom_plain base.plain, attachScriptsFrom_settle script.pending alone, settled,
    attach_subscript base script]

section Subscripted
variable (b s : Node)

theorem noSpace_subscripted : isFixedSpace (subscripted b s) = false := by
  unfold subscripted isFixedSpace spaceWidth?
  cases b.marks.stackedLimits <;> rfl

theorem noPrime_subscripted : isPrime (subscripted b s) = false := rfl

theorem fixMinus_subscripted : fixMinus (subscripted b s) = subscripted b s := by
  unfold subscripted fixMinus
  cases b.marks.stackedLimits <;> rfl

theorem taken_subscripted : (subscripted b s).isPlaceholder = false :=
  isPlaceholder_of_shown rfl

/-- A base with a subscript takes primes as its superscript. -/
theorem attachPrime_subscripted (count : Nat) :
    attachPrime (subscripted b s) (primes count) = primedSubscript b s count := by
  unfold subscripted primedSubscript attachPrime
  cases b.marks.stackedLimits <;> simp [append]

end Subscripted

/-! ### Subscript first -/

theorem applySwitchesFrom_of_none (none : ∀ n ∈ nodes, n.marks.isLimitSwitch = false) (b : Node) :
    applySwitchesFrom b nodes = b :: nodes := by
  induction nodes generalizing b with
  | nil => rfl
  | cons n rest ih =>
    obtain ⟨here, later⟩ := List.forall_mem_cons.mp none
    rw [applySwitchesFrom, if_neg (by simp [here]), ih later]

theorem fixCharactersFrom_apostrophes (are : ∀ p ∈ apostrophes, Apostrophe p)
    (some : apostrophes ≠ []) (base : IsBase b) (before : List Node) :
    fixCharactersFrom (.placeholder :: b :: before) apostrophes =
      before.reverse ++ attachPrime b (primes apostrophes.length) ::
        List.replicate (apostrophes.length + 1) .placeholder := by
  cases apostrophes with
  | nil => exact absurd rfl some
  | cons p rest =>
    obtain ⟨first, later⟩ := List.forall_mem_cons.mp are
    have continues : ∀ n ∈ rest, continuesPrimes n = true := fun n member => by
      rw [continuesPrimes, (later n member).prime, Bool.or_true]
    have count : countPrimes rest = rest.length := by
      have taken : occupied rest = rest := List.filter_eq_self.mpr fun n member => by
        rw [isPlaceholder_of_shown (later n member).standing.shown, Bool.not_false]
      rw [countPrimes, taken, List.countP_eq_length]
      exact fun n member => (later n member).prime
    have settled : settlePrimes (rest.length + 1) (.placeholder :: b :: before) =
        .placeholder :: .placeholder :: attachPrime b (primes (rest.length + 1)) :: before :=
      settle_of_nearest (hidden_replicate 1) base _ _ _ _
    rw [fixCharactersFrom_prime first.standing.shown first.prime,
      List.takeWhile_eq_self_iff.mpr continues, List.dropWhile_eq_nil_iff.mpr continues, count,
      fixCharactersFrom, settled]
    simp [List.replicate_succ]

/-- Apostrophes behind a base with a subscript become its superscript. -/
theorem arrange_subscript_primes (base : Standing b) (script : Subscript s)
    (are : ∀ p ∈ apostrophes, Apostrophe p) (some : apostrophes ≠ []) :
    arrange (b :: s :: apostrophes) = primedSubscript b s apostrophes.length ::
      List.replicate (apostrophes.length + 1) .placeholder := by
  have switched : applySwitches (b :: s :: apostrophes) = b :: s :: apostrophes :=
    applySwitchesFrom_of_none
      (List.forall_mem_cons.mpr ⟨script.noSwitch, fun p member => (are p member).noSwitch⟩) b
  have plain : ∀ p ∈ apostrophes, isPendingScript p = false := fun p member =>
    (are p member).standing.plain
  have apart : ∀ p ∈ apostrophes.head?, isPendingScript p = false := fun p first =>
    plain p (List.mem_of_head? first)
  have scripts : attachScripts (b :: s :: apostrophes) =
      subscripted b s :: .placeholder :: apostrophes := by
    rw [attachScripts, attachScriptsFrom_subscript base script apart,
      ← List.append_nil apostrophes, attachScriptsFrom_append_of_plain plain, attachScriptsFrom]
    simp
  have operands : ∀ n ∈ subscripted b s :: .placeholder :: apostrophes,
      (n.marks.isOperand && !n.marks.hidden) = false := by
    refine List.forall_mem_cons.mpr ⟨rfl, List.forall_mem_cons.mpr ⟨rfl, fun p member => ?_⟩⟩
    rw [(are p member).standing.noOperand, Bool.false_and]
  have fractions : buildFractions (subscripted b s :: .placeholder :: apostrophes) =
      subscripted b s :: .placeholder :: apostrophes := by
    rw [buildFractions, ← List.append_nil (_ :: _ :: _),
      buildFractionsFrom_append_of_other operands, buildFractionsFrom]
    simp
  have spaces : joinSpaces (subscripted b s :: .placeholder :: apostrophes) =
      subscripted b s :: .placeholder :: apostrophes := by
    have others : ∀ n ∈ subscripted b s :: .placeholder :: apostrophes, isFixedSpace n = false :=
      List.forall_mem_cons.mpr ⟨noSpace_subscripted b s,
        List.forall_mem_cons.mpr ⟨rfl, fun p member => (are p member).noSpace⟩⟩
    have kept := joinSpaces_append_of_other others []
    rwa [List.append_nil, joinSpaces, List.append_nil] at kept
  have characters : fixCharacters (subscripted b s :: .placeholder :: apostrophes) =
      primedSubscript b s apostrophes.length ::
        List.replicate (apostrophes.length + 1) .placeholder := by
    rw [fixCharacters, fixCharactersFrom_other rfl (noPrime_subscripted b s), fixMinus_subscripted,
      fixCharactersFrom_hidden rfl, fixCharactersFrom_apostrophes are some ⟨rfl, rfl⟩,
      attachPrime_subscripted]
    rfl
  rw [arrange, switched, scripts, fractions, spaces, characters]

/-! ### Primes first -/

/-- An apostrophe with a subscript right behind it is the base of that subscript. It is no prime of
the row before it, and it stays an apostrophe. -/
theorem arrange_apostrophe_subscript (apostrophe : Apostrophe p) (script : Subscript s)
    (row : List Node) :
    arrange (row ++ [p, s]) = arrange row ++ [subscripted p s, .placeholder] := by
  have switched : applySwitches (row ++ [p, s]) = applySwitches row ++ [p, s] := by
    rw [applySwitches_append (by rintro _ ⟨⟩; exact apostrophe.noSwitch)]
    exact congrArg (applySwitches row ++ ·)
      (applySwitchesFrom_of_none (List.forall_mem_singleton.mpr script.noSwitch) p)
  have scripts : ∀ row, attachScripts (row ++ [p, s]) =
      attachScripts row ++ [subscripted p s, .placeholder] := by
    intro row
    rw [attachScripts, attachScriptsFrom_cut (by rintro _ ⟨⟩; exact apostrophe.standing.plain),
      attachScriptsFrom_subscript apostrophe.standing script (by simp), attachScriptsFrom]
    simp [attachScripts]
  have fractions : ∀ row, buildFractions (row ++ [subscripted p s, .placeholder]) =
      buildFractions row ++ [subscripted p s, .placeholder] := by
    intro row
    rw [buildFractions, buildFractionsFrom_append, buildFractionsFrom_other rfl,
      buildFractionsFrom_other rfl, buildFractionsFrom]
    simp [buildFractions]
  have spaces : ∀ row, joinSpaces (row ++ [subscripted p s, .placeholder]) =
      joinSpaces row ++ [subscripted p s, .placeholder] := by
    intro row
    have stop : ∀ n ∈ [subscripted p s, .placeholder].head?, continuesSpaces n = false := by
      rintro _ ⟨⟩
      rw [continuesSpaces, taken_subscripted, noSpace_subscripted, Bool.or_false]
    rw [joinSpaces_cut stop, joinSpaces_other (noSpace_subscripted p s), joinSpaces_other rfl,
      joinSpaces]
  have characters : ∀ row, fixCharacters (row ++ [subscripted p s, .placeholder]) =
      fixCharacters row ++ [subscripted p s, .placeholder] := by
    intro row
    have stop : ∀ n ∈ [subscripted p s, .placeholder].head?, continuesPrimes n = false := by
      rintro _ ⟨⟩
      rw [continuesPrimes, taken_subscripted, noPrime_subscripted, Bool.or_false]
    rw [fixCharacters, fixCharactersFrom_cut stop,
      fixCharactersFrom_other rfl (noPrime_subscripted p s), fixMinus_subscripted,
      fixCharactersFrom_hidden rfl, fixCharactersFrom]
    simp [fixCharacters]
  rw [arrange, switched, scripts, fractions, spaces, characters, ← arrange]

end TexFormula.Row
