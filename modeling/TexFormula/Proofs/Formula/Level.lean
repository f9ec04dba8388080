import TexFormula.Proofs.Formula.Invariant
import TexFormula.Proofs.Plan.Carried
import TexFormula.Proofs.Row.Shape

/-! Rows that are divided alike. While a row is read, all that counts for its cells is what divides
it so far, and the marks that are meant for the next node. Two rows that agree in this do so again
after the same step (`Change.level_apply`), so the same queue is read at the end of both into rows
that agree (`level_readRow`). This is so because all breaks that are read are bare (`bareness`). -/
namespace TexFormula

open Table (division)

/-- Rows that are divided alike, with the same marks for the next node. -/
structure Row.Draft.Level (d d' : Row.Draft) : Prop where
  division : division d.nodes = division d'.nodes
  pending : d.pending = d'.pending
  promise : d.pending.IsPromise

variable {o : Options} {depth : Nat} {c : Context} {bound : Queue} {s : Scope} {d d' : Row.Draft}
  {n n' : Node} {nodes nodes' : List Node} {t t' : Token}

/-! ### Single changes -/

theorem Marks.IsPromise.union {m m' : Marks} (promise : m.IsPromise) (other : m'.IsPromise) :
    (m.union m').IsPromise := by
  obtain ⟨inside, shown, noSwitch⟩ := promise
  have plain := other.noSwitch
  rw [Marks.isLimitSwitch, Bool.or_eq_false_iff] at noSwitch plain
  refine ⟨(Table.isBreak_union other m).trans inside, ?_, ?_⟩
  · simp [Marks.union, shown, other.shown]
  · simp [Marks.union, Marks.isLimitSwitch, noSwitch, plain]

namespace Row.Draft

/-- Nodes with the same marks divide a row in the same way. -/
theorem after_congr {v : Table.Division} (marks : nodes.map (·.marks) = nodes'.map (·.marks)) :
    v.after nodes = v.after nodes' := by
  have folded (nodes : List Node) :
      v.after nodes = (nodes.map (·.marks)).foldl Table.Division.next v := List.foldl_map.symm
  rw [folded, folded, marks]

namespace Level

variable (level : Level d d')
include level

theorem promote {marks : Marks} (promise : marks.IsPromise) :
    Level (d.promote marks) (d'.promote marks) :=
  ⟨level.division, congrArg (·.union marks) level.pending, level.promise.union promise⟩

theorem place (marks : nodes.map (·.marks) = nodes'.map (·.marks)) :
    Level (d.place nodes) (d'.place nodes') := by
  refine ⟨?_, level.pending, level.promise⟩
  have split (d : Row.Draft) (nodes : List Node) :
      Table.division (d.place nodes).nodes = (Table.division d.nodes).after nodes := by
    rw [Formula.nodes_place]
    exact Table.Division.after_append {} _ _
  rw [split, split, level.division, after_congr marks]

/-- Nodes that come behind two rows that are divided alike, and divide them alike. -/
theorem add_of_next (bare : n.Bare) (bare' : n'.Bare)
    (same : ∀ v : Table.Division,
      v.next (n.marks.union d.pending) = v.next (n'.marks.union d.pending)) :
    Level (d.add c t n) (d'.add c t' n') := by
  have promise : d'.pending.IsPromise := level.pending ▸ level.promise
  refine ⟨?_, ?_, ?_⟩
  · rw [Table.division_add bare level.promise, Table.division_add bare' promise, same,
      level.division, level.pending]
  · rw [pending_add, pending_add]
  · rw [pending_add]
    exact ⟨rfl, rfl, rfl⟩

theorem add (bare : n.Bare) : Level (d.add c t n) (d'.add c t' n) :=
  level.add_of_next bare bare fun _ => rfl

/-- It does not matter to the cells which one of two ordinary nodes comes behind a row. -/
theorem add_ordinary (ordinary : n.Ordinary) (ordinary' : n'.Ordinary) :
    Level (d.add c t n) (d'.add c t' n') := by
  have next {n : Node} (ordinary : n.Ordinary) (v : Table.Division) :
      v.next (n.marks.union d.pending) = { v with last := some false } := by
    refine Table.Division.next_of_inside ?_ ?_
    · have plain := ordinary.noSwitch
      have promised := level.promise.noSwitch
      rw [Marks.isLimitSwitch, Bool.or_eq_false_iff] at plain promised
      simp [Marks.union, Marks.isLimitSwitch, plain, promised]
    · rw [Marks.divides, Table.isBreak_union level.promise, ordinary.inside]
      rfl
  exact level.add_of_next (Node.Carried.fresh ordinary) (Node.Carried.fresh ordinary') fun v => by
    rw [next ordinary, next ordinary']

end Level

theorem level_self (promise : d.pending.IsPromise) : Level d d :=
  ⟨rfl, rfl, promise⟩

end Row.Draft

namespace Formula

/-! ### Breaks that are read -/

/-- All breaks that are read are bare, and the marks for the next node only say what it is for the
nodes before it. -/
def bareness : Invariant where
  job := Job.IntoOrdinary
  queue _ _ := True
  node := Node.Bare
  draft _ d := (∀ n ∈ d.nodes, n.Bare) ∧ d.pending.IsPromise
  scope _ := True

/-- A job that reads into a node gives an ordinary one. Otherwise it gives the only node that is
there, or a row. -/
theorem finish_cases {job : Job} (into : job.IntoOrdinary) (nodes : List Node) :
    ∀ n ∈ job.finish nodes, n.Ordinary ∨ job.parent = none ∧ nodes = [n] := by
  intro n given
  unfold Job.finish at given
  cases parent : job.parent with
  | some parent' =>
    rw [parent] at given
    obtain rfl := Option.some.inj given
    have ordinary := into parent' parent
    exact .inl ⟨ordinary.inside, ordinary.noSwitch⟩
  | none =>
    rw [parent] at given
    match nodes with
    | [] => cases given
    | [m] =>
      cases given
      exact .inr ⟨rfl, rfl⟩
    | m :: m' :: rest =>
      cases given
      exact .inl (Node.ordinary_of_marks rfl)

theorem kept_bareness (o : Options) : bareness.Kept o where
  start _ := ⟨trivial, List.forall_mem_nil _, ⟨rfl, rfl, rfl⟩⟩
  step {c e rest s} _ _ := by
    have carries := Step.carries_ofExpr o s.macros c e rest
    refine ⟨trivial, ?_⟩
    generalize (Step.ofExpr o s.macros c e rest).action = action at carries
    cases action with
    | skip => trivial
    | promote marks => exact fun d kept => ⟨kept.1, kept.2.union carries⟩
    | place nodes =>
      refine fun d kept => ⟨?_, kept.2⟩
      rw [nodes_place]
      exact List.forall_mem_append.mpr ⟨kept.1, carries⟩
    | add plan => exact carries
    | define => trivial
    | call => exact ⟨trivial, fun tokens _ => Plan.intoOrdinary_start Plan.ordinary_none⟩
  add {c t d n} kept bare := by
    obtain ⟨before, promise⟩ := kept
    refine ⟨?_, by rw [Row.Draft.pending_add]; exact ⟨rfl, rfl, rfl⟩⟩
    have added := Table.bare_added bare promise t
    rcases nodes_add d c t n with behind | ⟨front, last, same, -, text, marks, joined⟩
    · rw [behind]
      exact List.forall_mem_append.mpr ⟨before, List.forall_mem_singleton.mpr added⟩
    · rw [same] at before
      have inside : last.marks.isBreak = false := marks ▸ Table.unbroken_of_isText added text
      rw [joined]
      exact List.forall_mem_append.mpr ⟨(List.forall_mem_append.mp before).1,
        List.forall_mem_singleton.mpr (Step.bare_of_inside inside)⟩
  blank := Node.carried_of_marks (A := Node.Bare) rfl
  refusal _ := Node.carried_error (A := Node.Bare) _ _
  failure _ _ := Node.carried_error (A := Node.Bare) _ _
  count _ := trivial
  finish {job d} into kept n given := by
    rcases finish_cases into d.nodes n given with ordinary | ⟨-, alone⟩
    · exact Node.Carried.fresh (A := Node.Bare) ordinary
    · exact kept.1 n (alone ▸ List.mem_singleton_self n)

/-! ### The same queue -/

theorem bare_readers (o : Options) (depth : Nat) (bound : Queue) :
    (∀ job fits s, job.IntoOrdinary → True →
      Invariant.Kept.Reads bareness ((readers o depth bound).part job fits s)) ∧
      ∀ read ∈ (readers o depth bound).call?, ∀ job s, job.IntoOrdinary → True →
        Invariant.Kept.Reads bareness (read job s) := by
  have kept := kept_bareness o
  refine ⟨fun job _ s asked scope => kept.readJob depth asked scope, ?_⟩
  intro read given job s asked scope
  unfold readers at given
  split at given <;> cases given
  exact kept.readJob (depth + 1) asked scope

/-- The nodes that a step adds to a row are bare, and its marks for the next node are promises. -/
def Change.IsBare : Change → Prop
  | .promote marks => marks.IsPromise
  | change => ∀ n ∈ change.added, n.Bare

theorem bare_change {step : Step bound} (carries : step.action.Carries Node.Bare) (o : Options)
    (depth : Nat) (c : Context) (s : Scope) :
    (change (readers o depth bound) c step s).IsBare := by
  obtain ⟨parts, calls⟩ := bare_readers o depth bound
  have refused := Node.carried_error (A := Node.Bare)
  unfold change
  cases action : step.action with
  | skip => exact List.forall_mem_nil _
  | define name m => exact List.forall_mem_nil _
  | promote marks =>
    rw [action] at carries
    exact carries
  | place nodes =>
    rw [action] at carries
    exact carries
  | add plan =>
    rw [action] at carries
    obtain ⟨given, -⟩ := Plan.Yields.run (I := fun _ => True) (s := s) parts carries trivial
    dsimp only
    cases node : (plan.run (readers o depth bound).part s).1 with
    | none => exact List.forall_mem_nil _
    | some n => exact List.forall_mem_singleton.mpr (given n node)
  | call name m =>
    refine List.forall_mem_singleton.mpr ?_
    unfold callNode
    split
    · exact refused _ _
    case h_2 read given =>
      split
      · split
        · exact refused _ _
        · obtain ⟨found, -⟩ := calls read given _ s.count
            (Plan.intoOrdinary_start Plan.ordinary_none) trivial
          cases node : (read _ s.count).1 with
          | none => exact Node.carried_of_marks rfl
          | some n => exact found n node
      · exact refused _ _

/-- The same change leaves rows divided alike. -/
theorem Change.level_apply (level : d.Level d') {change : Change} (bare : change.IsBare)
    (c : Context) :
    (change.apply c d).Level (change.apply c d') := by
  cases change with
  | keep => exact level
  | promote marks => exact level.promote bare
  | place nodes => exact level.place rfl
  | add t n => exact level.add (bare n (List.mem_singleton_self n))

/-- The same queue is read at the end of rows that are divided alike into such rows again. -/
theorem level_readRow {d d' : Row.Draft} (level : d.Level d') (o : Options) (depth : Nat)
    (c : Context) (q : Queue) (s : Scope) :
    (readRow o depth c q d s).1.Level (readRow o depth c q d' s).1 := by
  match q with
  | [] =>
    rw [readRow, readRow]
    exact level
  | e :: rest =>
    let step := Step.ofExpr o s.macros c e rest
    let progress := perform (readers o depth (e :: rest)) c step d s
    obtain ⟨left, after⟩ := perform_draft (readers o depth (e :: rest)) c step d' d s
    have next : progress.draft.Level (perform (readers o depth (e :: rest)) c step d' s).draft := by
      have bare := bare_change (Step.carries_ofExpr o s.macros c e rest) o depth c s
      rw [draft_perform, draft_perform]
      exact Change.level_apply level bare c
    rw [readRow_cons, readRow_cons]
    dsimp only
    rw [left, after]
    exact level_readRow next o depth c progress.rest.val progress.scope
termination_by q.weight
decreasing_by exact progress.rest.property

end Formula

end TexFormula
