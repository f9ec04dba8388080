import TexFormula.Proofs.Formula.Invariant

/-! Definitions while a formula is read. The only thing that a formula does to the known macros is
that its definitions bind names, each to a macro that is marked as defined in a formula and does not
call itself by its name. So a property of tables that such bindings keep is kept while a formula is
read (`macros_read`). -/
namespace TexFormula

/-- A macro as definitions in formulas bind it to a name: its body does not call the name. -/
structure Macro.Defined (name : String) (m : Macro) : Prop where
  inFormula : m.inFormula = true
  unnamed : ∀ t ∈ m.body, t.isNamed name = false

variable {bound : Queue}

/-- If an action binds a name, it binds it to a macro that does not call itself. -/
def Action.Sound : Action bound → Prop
  | .define name m => m.Defined name
  | _ => True

namespace Plan

theorem sound_definition (macros : Macro.Table) (command : Definition.Command)
    (q : Queue.Below bound) : (definition macros command q).1.Sound := by
  unfold definition
  simp only
  split
  · trivial
  case h_2 d read =>
    split
    · trivial
    case isFalse steady =>
      split
      · trivial
      · refine ⟨rfl, fun t inside => ?_⟩
        have free : ¬ ∃ t ∈ d.body, t.isNamed d.name = true := by
          simpa [Definition.isRecursive] using steady
        exact Bool.eq_false_iff.mpr fun named => free ⟨t, inside, named⟩

theorem sound_perform (o : Options) (macros : Macro.Table) (command : Command) (t : Token)
    (c : Context) (q : Queue.Below bound) : (perform o macros command t c q).1.Sound := by
  cases command with
  | definition command => exact sound_definition macros command q
  | _ => trivial

theorem sound_command (o : Options) (macros : Macro.Table) (t : Token) (c : Context)
    (q : Queue.Below bound) : (command o macros t c q).1.Sound := by
  unfold command
  split
  · exact sound_perform _ _ _ _ _ _
  · split
    · trivial
    · exact sound_perform _ _ _ _ _ _

end Plan

namespace Step

theorem sound_plain (o : Options) (macros : Macro.Table) (t : Token) (c : Context)
    (q : Queue.Below bound) : (plain o macros t c q).1.Sound := by
  unfold plain
  simp only
  repeat' split
  all_goals first | trivial | exact Plan.sound_command _ _ _ _ _

theorem sound_single (o : Options) (macros : Macro.Table) (t : Token) (c : Context)
    (q : Queue.Below bound) : (single o macros t c q).1.Sound := by
  unfold single
  split
  · trivial
  · split
    · unfold endRow
      split <;> trivial
    · split
      · trivial
      · exact sound_plain _ _ _ _ _

theorem sound_ofExpr (o : Options) (macros : Macro.Table) (c : Context) (e : Expr)
    (rest : Queue) : (ofExpr o macros c e rest).action.Sound := by
  unfold ofExpr
  simp only
  split
  · unfold whitespace
    split <;> trivial
  · trivial
  · trivial
  · trivial
  · exact sound_single _ _ _ _ _
  · exact sound_single _ _ _ _ _

end Step

namespace Formula

/-- A property of the known macros, whatever is read. -/
def tables (P : Macro.Table → Prop) : Invariant where
  job _ := True
  queue _ _ := True
  node _ := True
  draft _ _ := True
  scope s := P s.macros

variable {P : Macro.Table → Prop}
  (kept : ∀ table name m, m.Defined name → P table → P (table.insert name m))
include kept

theorem kept_tables (o : Options) : (tables P).Kept o where
  start _ := ⟨trivial, trivial⟩
  step {c e rest s} _ scope := by
    refine ⟨trivial, ?_⟩
    have sound := Step.sound_ofExpr o s.macros c e rest
    split
    · trivial
    · exact fun _ _ => trivial
    · exact fun _ _ => trivial
    case h_4 plan _ => exact Plan.yields_of_all (fun _ => trivial) (fun _ _ _ => trivial) plan
    case h_5 name m action =>
      rw [action] at sound
      exact kept _ _ _ sound scope
    · exact ⟨trivial, fun _ _ => trivial⟩
  add _ _ := trivial
  blank := trivial
  refusal _ := trivial
  failure _ _ := trivial
  count scope := scope
  finish _ _ _ _ := trivial

/-- What definitions keep of a table is kept by reading a formula. -/
theorem macros_read (o : Options) (c : Context) (tokens : List Token) {s : Scope}
    (start : P s.macros) : P (read o c tokens s).2.macros :=
  ((kept_tables kept o).readJob 0 trivial start).2

end Formula

end TexFormula
