import TexFormula.Proofs.Row.Clusters
import TexFormula.Proofs.Row.Runs

/-! How nodes go to their bases. Scripts, second operands and apostrophes are three kinds of nodes
that a pass takes out of their places and joins with their base, or with an empty one if there is
none. What this does to the nodes before the place is the same for all of them (`settle`), so what a
pass does is said here by what it makes of a base. -/
namespace TexFormula.Row

open Node

variable {n : Node} {before front rest after : List Node} {partner : Option Node}

/-- The nodes before a place, listed from right to left, once something there has gone to their
base. What `make` makes of the base stands for the base. Without a base `bare` stands in the place
itself. `places` are the places behind it that become free as well. -/
def settle (make : Node → Node) (bare : Node) (places before : List Node) : List Node :=
  match base? before with
  | some base => places ++ .placeholder :: base.replace (make base.node)
  | none => places ++ bare :: before

theorem settle_of_nearest {between : List Node} (hidden : ∀ n ∈ between, n.marks.hidden = true)
    (base : IsBase n) (make : Node → Node) (bare : Node) (places before : List Node) :
    settle make bare places (between ++ n :: before) =
      places ++ .placeholder :: (between ++ make n :: before) := by
  rw [settle, base?_of_nearest hidden base]
  rfl

/-! ### Scripts -/

/-- The nodes before a script once it has gone to its base, with its partner if it has one. -/
def settleScript (script : Node) (partner : Option Node) (before : List Node) : List Node :=
  settle (attach · script partner) (attach (.element "none") script partner)
    (partner.toList.map fun _ => .placeholder) before

theorem attachScriptsFrom_settle (pending : isPendingScript n = true)
    (pair : Partner n rest partner after) :
    attachScriptsFrom before (n :: rest) =
      attachScriptsFrom (settleScript n partner before) after := by
  have placed : placeScripts before n partner (partner.toList.map fun _ => .placeholder) =
      settleScript n partner before := by
    cases found : base? before <;> simp only [placeScripts, settleScript, settle, found]
  rw [attachScriptsFrom_script pending pair, placed]

theorem attachScriptsFrom_append_of_plain (plain : ∀ n ∈ front, isPendingScript n = false) :
    attachScriptsFrom before (front ++ rest) =
      attachScriptsFrom (front.reverse ++ before) rest := by
  induction front generalizing before with
  | nil => rfl
  | cons n front ih =>
    obtain ⟨here, later⟩ := List.forall_mem_cons.mp plain
    rw [List.cons_append, attachScriptsFrom_plain here, ih later, List.reverse_cons,
      List.append_assoc, List.singleton_append]

/-- A node that is no script is no partner. -/
theorem Partner.append_of_plain {script : Node} (pair : Partner script front partner after)
    (plain : ∀ n ∈ rest.head?, isPendingScript n = false) :
    Partner script (front ++ rest) partner (after ++ rest) := by
  cases pair with
  | pair other => exact .pair other
  | alone unpaired =>
    refine .alone fun n first other => ?_
    have pending := isPendingScript_of_isPartner (isPartner_iff.mpr other)
    cases front with
    | nil => cases pending.symm.trans (plain n first)
    | cons m front => exact unpaired n first other

/-- In front of a node that is no script the pass can be cut. -/
theorem attachScriptsFrom_cut (plain : ∀ n ∈ rest.head?, isPendingScript n = false)
    (before front : List Node) :
    attachScriptsFrom before (front ++ rest) =
      attachScriptsFrom (attachScriptsFrom before front).reverse rest :=
  attachScriptsFrom_append_of_partners before front rest fun _ _ _ _ _ _ pair =>
    pair.append_of_plain plain

/-! ### Fractions -/

/-- The nodes before a second operand once it has gone to the first one. -/
def settleOperand (operand : Node) (before : List Node) : List Node :=
  let build := (operandFraction operand.marks).node
  let lower := { operand with marks := operand.marks.withoutOperand }
  settle (build · lower) (build (.row []) lower) [] before

theorem buildFractionsFrom_other (other : (n.marks.isOperand && !n.marks.hidden) = false) :
    buildFractionsFrom before (n :: rest) = buildFractionsFrom (n :: before) rest := by
  rw [buildFractionsFrom, if_neg (by simp [other])]

theorem buildFractionsFrom_hidden (hidden : n.marks.hidden = true) :
    buildFractionsFrom before (n :: rest) = buildFractionsFrom (n :: before) rest :=
  buildFractionsFrom_other (by simp [hidden])

theorem buildFractionsFrom_settle (operand : (n.marks.isOperand && !n.marks.hidden) = true) :
    buildFractionsFrom before (n :: rest) = buildFractionsFrom (settleOperand n before) rest := by
  rw [buildFractionsFrom, if_pos operand, settleOperand, settle]
  cases base? before <;> rfl

theorem buildFractionsFrom_append_of_other
    (other : ∀ n ∈ front, (n.marks.isOperand && !n.marks.hidden) = false) :
    buildFractionsFrom before (front ++ rest) =
      buildFractionsFrom (front.reverse ++ before) rest := by
  induction front generalizing before with
  | nil => rfl
  | cons n front ih =>
    obtain ⟨here, later⟩ := List.forall_mem_cons.mp other
    rw [List.cons_append, buildFractionsFrom_other here, ih later, List.reverse_cons,
      List.append_assoc, List.singleton_append]

theorem buildFractionsFrom_append (before front rest : List Node) :
    buildFractionsFrom before (front ++ rest) =
      buildFractionsFrom (buildFractionsFrom before front).reverse rest := by
  induction front generalizing before with
  | nil => rw [buildFractionsFrom, List.reverse_reverse]; rfl
  | cons n front ih =>
    cases operand : n.marks.isOperand && !n.marks.hidden with
    | false =>
      rw [List.cons_append, buildFractionsFrom_other operand, buildFractionsFrom_other operand, ih]
    | true =>
      rw [List.cons_append, buildFractionsFrom_settle operand, buildFractionsFrom_settle operand,
        ih]

/-! ### Characters -/

/-- The nodes before a number of apostrophes once these have gone to their base. -/
def settlePrimes (count : Nat) (before : List Node) : List Node :=
  settle (attachPrime · (primes count)) (.branch "msup" [.element "none", primes count]) [] before

theorem fixCharactersFrom_hidden (hidden : n.marks.hidden = true) :
    fixCharactersFrom before (n :: rest) = fixCharactersFrom (n :: before) rest := by
  rw [fixCharactersFrom, if_pos hidden]

theorem fixCharactersFrom_other (shown : n.marks.hidden = false) (other : isPrime n = false) :
    fixCharactersFrom before (n :: rest) = fixCharactersFrom (fixMinus n :: before) rest := by
  rw [fixCharactersFrom, if_neg (by simp [shown]), if_neg (by simp [other])]

theorem fixCharactersFrom_append_of_hidden (hidden : ∀ n ∈ front, n.marks.hidden = true) :
    fixCharactersFrom before (front ++ rest) =
      fixCharactersFrom (front.reverse ++ before) rest := by
  induction front generalizing before with
  | nil => rfl
  | cons n front ih =>
    obtain ⟨here, later⟩ := List.forall_mem_cons.mp hidden
    rw [List.cons_append, fixCharactersFrom_hidden here, ih later, List.reverse_cons,
      List.append_assoc, List.singleton_append]

theorem hidden_replicate (count : Nat) :
    ∀ n ∈ List.replicate count placeholder, n.marks.hidden = true := by
  intro n member
  rw [List.eq_of_mem_replicate member]
  rfl

/-- Apostrophes go to their base together. -/
theorem fixCharactersFrom_prime (shown : n.marks.hidden = false) (prime : isPrime n = true) :
    fixCharactersFrom before (n :: rest) =
      fixCharactersFrom
        (List.replicate (rest.takeWhile continuesPrimes).length .placeholder ++
          settlePrimes (countPrimes (rest.takeWhile continuesPrimes) + 1) before)
        (rest.dropWhile continuesPrimes) := by
  rw [fixCharactersFrom, if_neg (by simp [shown]), if_pos prime, settlePrimes, settle]
  simp only [absorbPrimes_eq, fixCharactersFrom_append_of_hidden (hidden_replicate _),
    List.reverse_replicate]
  cases base? before <;> rfl

/-- In front of a node that does not continue a run of apostrophes the pass can be cut. -/
theorem fixCharactersFrom_cut (stop : ∀ n ∈ rest.head?, continuesPrimes n = false)
    (before front : List Node) :
    fixCharactersFrom before (front ++ rest) =
      fixCharactersFrom (fixCharactersFrom before front).reverse rest := by
  match front with
  | [] => rw [fixCharactersFrom, List.reverse_reverse]; rfl
  | n :: front =>
    cases hidden : n.marks.hidden with
    | true =>
      rw [List.cons_append, fixCharactersFrom_hidden hidden, fixCharactersFrom_hidden hidden]
      exact fixCharactersFrom_cut stop _ front
    | false =>
      cases prime : isPrime n with
      | false =>
        rw [List.cons_append, fixCharactersFrom_other hidden prime,
          fixCharactersFrom_other hidden prime]
        exact fixCharactersFrom_cut stop _ front
      | true =>
        obtain ⟨taken, left⟩ := takeWhile_append_of_stop stop front
        have shorter : (front.dropWhile continuesPrimes).length ≤ front.length :=
          (List.dropWhile_sublist _).length_le
        rw [List.cons_append, fixCharactersFrom_prime hidden prime,
          fixCharactersFrom_prime hidden prime, taken, left]
        exact fixCharactersFrom_cut stop _ (front.dropWhile continuesPrimes)
termination_by front.length

end TexFormula.Row
