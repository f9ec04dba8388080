import Mathlib
import TexFormula.Proofs.Macro.Declaration

/-! Tables that agree on some of their names. What a macro depends on is all that decides how it is
flattened, and whether it is on a cycle. So if two lists of sources declare the same macros under
some names, and these macros only call each other, then they are prepared in the same way, whatever
else is declared beside them (`get?_declareAll_among`). -/
namespace TexFormula.Macro
open Token Relation

variable {Q : Token → Prop} {table other plain others flat : Table} {tokens body : List Token}
  {sources further : List (String × String)} {within : String → Prop} {a b name : String}

/-! ### Expansion -/

/-- Tables that agree on the macros that are called expand tokens in the same way, or both fail.
They may fail with different errors, for an error can name a call of a macro that was not replaced.
-/
theorem expandRounds_among (persistent : Persistent Q) (closed : table.Closed Q)
    (same : ∀ t, Q t → table.callee? t = other.callee? t) (n : Nat) (holds : ∀ t ∈ tokens, Q t) :
    (expandRounds table n tokens).toOption = (expandRounds other n tokens).toOption :=
  expandRounds_related (R := fun one another => one.toOption = another.toOption) persistent closed
    same (fun _ => rfl) (fun _ => rfl) n holds

theorem settled_among (persistent : Persistent Q) (closed : table.Closed Q)
    (same : ∀ t, Q t → table.callee? t = other.callee? t) (holds : ∀ t ∈ body, Q t) :
    table.settled body = other.settled body := by
  have agree := expandRounds_among persistent closed same maxDepth holds
  rw [← expand_eq_expandRounds, ← expand_eq_expandRounds] at agree
  unfold Table.settled
  generalize expand table body = expanded at agree
  generalize expand other body = expanded' at agree
  cases expanded <;> cases expanded' <;> cases agree <;> rfl

/-! ### Flattening -/

/-- What macros among the names depend on is among the names. -/
theorem among_of_transGen (closed : ∀ a b, within a → plain.Calls a b → within b)
    (inside : within a) (way : TransGen plain.Calls a b) : within b := by
  induction way with
  | single call => exact closed _ _ inside call
  | tail _ call ih => exact closed _ _ ih call

/-- Macros that only call each other have the same flattening in two tables that hold their bodies.
-/
theorem Flattens.get?_among (flattens : Flattens flat plain) (again : Flattens other others)
    (declared : plain.Declared) (acyclic : ∀ name, ¬ plain.OnCycle name)
    (same : ∀ name, within name → others.get? name = plain.get? name)
    (closed : ∀ a b, within a → plain.Calls a b → within b) (name : String)
    (inside : within name) : other.get? name = flat.get? name := by
  induction name using Table.call_induction acyclic with
  | step name ih =>
    rw [again.get?, flattens.get?, same name inside]
    refine Option.map_congr fun m found => ?_
    have agree : flat.settled m.body = other.settled m.body := by
      refine settled_among (lasting_command.persistent (TransGen plain.Calls name)) ?_ ?_
        fun t member command => .single ⟨m, found, t, member, command, rfl⟩
      · intro t called reached call
        obtain ⟨command, found, _⟩ := Table.callee?_eq_some.mp call
        refine ⟨fun u member command' => ?_, by simp [(flattens.declared declared _ _ found).1]⟩
        have reads := flattens.forall_mem_body declared acyclic
          (lasting_command.persistent fun _ => True) (by simp) t.value called found u member
        exact (reached command).trans (reads.2 command')
      · intro t reached
        by_cases command : t.isCommand = true
        · have among := among_of_transGen closed inside (reached command)
          exact callee?_congr (ih t.value (reached command) among).symm
        · simp [Table.callee?, command]
    rw [agree]

/-! ### Declarations -/

section Among
variable (same : ∀ name, within name → other.get? name = table.get? name)
  (closed : ∀ a b, within a → table.Calls a b → within b)
include same closed

omit closed in
theorem calls_among (inside : within a) : other.Calls a b ↔ table.Calls a b := by
  unfold Table.Calls
  rw [same a inside]

theorem transGen_among (inside : within a) :
    TransGen other.Calls a b ↔ TransGen table.Calls a b := by
  have closed' : ∀ a b, within a → other.Calls a b → within b := fun a b inside call =>
    closed a b inside ((calls_among same inside).mp call)
  constructor
  · intro way
    induction way with
    | single call => exact .single ((calls_among same inside).mp call)
    | tail before call ih =>
      have among := among_of_transGen closed' inside before
      exact .tail ih ((calls_among same among).mp call)
  · intro way
    induction way with
    | single call => exact .single ((calls_among same inside).mpr call)
    | tail before call ih =>
      have among := among_of_transGen closed inside before
      exact .tail ih ((calls_among same among).mpr call)

/-- Cycles among the names are the same. -/
theorem onCycle_among (inside : within name) : other.OnCycle name ↔ table.OnCycle name :=
  transGen_among same closed inside

theorem get?_markCyclic_among (inside : within name) :
    (markCyclic other).get? name = (markCyclic table).get? name := by
  by_cases cycle : table.OnCycle name
  · rw [get?_markCyclic_of_onCycle cycle,
      get?_markCyclic_of_onCycle ((onCycle_among same closed inside).mpr cycle)]
  · rw [get?_markCyclic_of_acyclic cycle,
      get?_markCyclic_of_acyclic (mt (onCycle_among same closed inside).mp cycle), same name inside]

end Among

/-- Macros that only call each other are prepared in the same way by all sources that declare them.
-/
theorem get?_declareAll_among
    (same : ∀ name, within name → (readAll further).get? name = (readAll sources).get? name)
    (closed : ∀ a b, within a → (readAll sources).Calls a b → within b) (inside : within name) :
    (declareAll further).get? name = (declareAll sources).get? name :=
  (flattens_declareAll sources).get?_among (flattens_declareAll further)
    (declared_markCyclic_readAll sources) (acyclic_markCyclic _)
    (fun _ inside => get?_markCyclic_among same closed inside)
    (fun a b inside call => closed a b inside (calls_markCyclic.mp call).1) name inside

end TexFormula.Macro
