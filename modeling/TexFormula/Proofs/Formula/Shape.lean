import TexFormula.Proofs.Action.Shape
import TexFormula.Proofs.Formula.Machine

/-! Elements are in shape while a formula is read. What a row comes to when it ends, and what
becomes of a node that cannot be put into every element, is different for different things that are
asked of children, and is left open here (`Machine.Sound`). As long as states are sound in that
sense, all nodes that are kept are in shape (`InShape.next`). -/
namespace TexFormula.Formula

open Node (Fit Made Solid Usable Arranged ForNext solid_row made_error)

variable {F : Fit} {bound : Queue}

/-! ### States -/

/-- A row that is read into a blank node, if into any, and all nodes of which can stand there. -/
structure Reading.InShape (F : Fit) (r : Reading) : Prop where
  job : r.job.IsBlank
  draft : ∀ n ∈ r.draft.latest, n.Usable F
  pending : ForNext r.draft.pending

/-- A plan whose node, if it gives one, can come into a row with the marks that wait there. -/
def PlanInShape (F : Fit) (r : Reading) (plan : Plan bound (Option Node)) : Prop :=
  plan.Makes F fun node => ∀ n ∈ node, (n.mark r.draft.pending).Usable F

/-- What waits for a job is in shape, and goes on with what the job gives. -/
def Awaits (F : Fit) : Job → List Waiting → Prop
  | _, [] => True
  | job, .part _ next r :: others =>
    (∀ node, job.GivesSolid F node → PlanInShape F r (next node)) ∧
      r.InShape F ∧ Awaits F r.job others
  | _, .call _ r :: others => r.InShape F ∧ Awaits F r.job others

/-- Whether a node that is given to what waits for it comes into the row behind, itself or in
another node, and can stand there. -/
def Waiting.Keeps (F : Fit) (n : Node) : Waiting → Prop
  | .part _ next r => ∃ m, next (some n) = .done (some m) ∧
      (r.InShape F → n.Usable F → (m.mark r.draft.pending).Usable F)
  | .call _ r => r.InShape F → n.Usable F → (n.mark r.draft.pending).Usable F

namespace Machine

/-- Whether nothing gets out of shape in a state: a row that ends is put together as it should, only
fences that can be put into a row are put there, and a node that cannot be put into every element is
handed on. -/
structure Sound (F : Fit) (m : Machine) : Prop where
  row : ∀ r, m.focus = .row r → r.left = [] → (∀ n ∈ r.draft.nodes, n.Usable F) →
    ∀ n ∈ Row.arrange r.draft.nodes, n.Arranged F
  fences : ∀ r, m.focus = .row r → ∀ e ∈ r.left.head?, e.kind = .fenced →
    (∀ n ∈ Node.delimiter? e.first r.job.context, F.inside n) ∧
      ∀ n ∈ e.closer?.bind (Node.delimiter? · r.job.context), F.inside n
  done : ∀ n, m.focus = .done (some n) → ¬ (F.inside n ∧ F.part n) →
    ∀ first ∈ m.waiting.head?, first.Keeps F n

/-- Whether all nodes that the machine keeps are in shape. -/
def InShape (F : Fit) (m : Machine) : Prop :=
  match m.focus with
  | .row r => r.InShape F ∧ Awaits F r.job m.waiting
  | .plan _ left r => PlanInShape F r left ∧ r.InShape F ∧ Awaits F r.job m.waiting
  | .done node => ∃ job : Job, job.Gives F node ∧ Awaits F job m.waiting

end Machine

theorem Reading.inShape_start {job : Job} (blank : job.IsBlank) :
    (Reading.start job).InShape F :=
  ⟨blank, List.forall_mem_nil _, rfl, rfl⟩

namespace Reading.InShape

variable {r : Reading} (shaped : r.InShape F)
include shaped

theorem add (t : Token) {n : Node} (given : (n.mark r.draft.pending).Usable F) :
    (r.add t n).InShape F := by
  refine ⟨shaped.job, Row.Draft.usable_add _ t shaped.draft given, ?_⟩
  unfold Reading.add
  rw [Row.Draft.pending_add]
  exact ⟨rfl, rfl⟩

theorem addMade (t : Token) {n : Node} (made : n.Made F) : (r.add t n).InShape F :=
  shaped.add t (made.placed.mark shaped.pending)

theorem addOption (t : Token) {node : Option Node}
    (given : ∀ n ∈ node, (n.mark r.draft.pending).Usable F) :
    (r.addOption t node).InShape F := by
  cases node with
  | none => exact shaped
  | some n => exact shaped.add t (given n rfl)

end Reading.InShape

namespace Machine

variable {o : Options} {m after : Machine}

theorem InShape.call {r : Reading} (row : r.InShape F) (waits : Awaits F r.job m.waiting)
    (t : Token) (name : String) (f : Macro) : (m.call t name f r).InShape F := by
  have refused : (Scope.refusal name).Made F := made_error _ _
  have failed : ∀ e, (Scope.failure name e).Made F := fun _ => made_error _ _
  have behind : ∀ left, { r with left }.InShape F := fun _ =>
    ⟨row.job, row.draft, row.pending⟩
  unfold Machine.call
  split
  · exact ⟨row.addMade t refused, waits⟩
  · dsimp only
    cases m.scope.callTokens name f (f.collectArguments name r.left).1 with
    | error e => exact ⟨(behind _).addMade t (failed e), waits⟩
    | ok tokens =>
      exact ⟨Reading.inShape_start (Plan.isBlank_start Node.isBlank_none), behind _, waits⟩

theorem InShape.act (t : Token) {action : Action bound} (given : action.Shaped F) {r : Reading}
    (row : r.InShape F) (waits : Awaits F r.job m.waiting) :
    (m.act t action r).InShape F := by
  cases action with
  | skip => exact ⟨row, waits⟩
  | promote marks =>
    refine ⟨⟨row.job, row.draft, ?_, ?_⟩, waits⟩
    · simp [Row.Draft.promote, Marks.union, row.pending.visible, given.visible]
    · simp [Row.Draft.promote, Marks.union, row.pending.other, given.other]
  | place nodes =>
    exact ⟨⟨row.job, Row.Draft.forall_place row.draft given, row.pending⟩, waits⟩
  | add plan =>
    exact ⟨Plan.Delivers.mono given fun _ placed n member =>
      (placed n member).mark row.pending, row, waits⟩
  | define name f => exact ⟨row, waits⟩
  | call name f => exact InShape.call row waits t name f

/-- A plan goes on with the node of a job: one that can be put into every element is what it
expects, and any other one it gives on. -/
theorem planInShape_next {next : Option Node → Plan bound (Option Node)} {r : Reading} {job : Job}
    {node : Option Node} (t : Token) (row : r.InShape F) (gives : job.Gives F node)
    (expects : ∀ node, job.GivesSolid F node → PlanInShape F r (next node))
    (kept : ∀ n ∈ node, ¬ (F.inside n ∧ F.part n) → (Waiting.part t next r).Keeps F n) :
    PlanInShape F r (next node) := by
  by_cases fits : ∀ n ∈ node, F.inside n ∧ F.part n
  · exact expects node (gives.givesSolid fits)
  · simp only [not_forall] at fits
    obtain ⟨n, rfl, other⟩ := fits
    obtain ⟨k, given, into⟩ := kept n rfl other
    rw [given]
    rintro _ ⟨⟩
    exact into row (gives.usable n rfl)

/-- The state after a sound state in which everything is in shape. -/
theorem InShape.next (shaped : m.InShape F) (sound : m.Sound F)
    (follows : m.next? o = some after) : after.InShape F := by
  unfold InShape at shaped
  unfold next? at follows
  split at follows
  case h_1 r focus =>
    rw [focus] at shaped
    obtain ⟨row, waits⟩ := shaped
    split at follows
    case h_1 left =>
      cases follows
      have usable := Row.forall_reverse row.draft
      exact ⟨r.job, Job.gives_finish row.job usable (sound.row r focus left usable), waits⟩
    case h_2 e rest left =>
      cases follows
      have fences := sound.fences r focus e (by rw [left]; rfl)
      exact InShape.act _ (Step.shaped_ofExpr _ _ rest (fun kind => (fences kind).1)
        fun kind => (fences kind).2) ⟨row.job, row.draft, row.pending⟩ waits
  case h_2 t node r focus =>
    rw [focus] at shaped
    obtain ⟨made, row, waits⟩ := shaped
    cases follows
    exact ⟨row.addOption t made, waits⟩
  case h_3 t job _ next r focus =>
    rw [focus] at shaped
    obtain ⟨⟨blank, makes⟩, row, waits⟩ := shaped
    cases follows
    exact ⟨Reading.inShape_start blank, makes, row, waits⟩
  case h_4 node focus =>
    rw [focus] at shaped
    obtain ⟨job, gives, waits⟩ := shaped
    -- Soundness is asked for nodes only that not every element can have for a child.
    have kept : ∀ n ∈ node, ¬ (F.inside n ∧ F.part n) →
        ∀ first ∈ m.waiting.head?, first.Keeps F n := by
      rintro n ⟨⟩
      exact sound.done n focus
    split at follows
    · cases follows
    case h_2 bound t next r others stack =>
      rw [stack] at waits kept
      obtain ⟨expects, row, waits⟩ := waits
      cases follows
      exact ⟨planInShape_next t row gives expects fun n given other => kept n given other _ rfl,
        row, waits⟩
    case h_3 t r others stack =>
      rw [stack] at waits kept
      obtain ⟨row, waits⟩ := waits
      cases follows
      refine ⟨?_, waits⟩
      cases node with
      | none => exact row.addMade t (solid_row (List.forall_mem_nil _)).toMade
      | some n =>
        have usable := gives.usable n rfl
        by_cases fits : F.inside n ∧ F.part n
        · exact row.addMade t ⟨fits.2, usable.shaped⟩
        · exact row.add t (kept n rfl fits _ rfl row usable)

/-- What is in shape stays in shape as long as the states are sound. -/
theorem InShape.run (shaped : m.InShape F) (sound : ∀ between, Run o m between → between.Sound F)
    (run : Run o m after) : after.InShape F := by
  induction run with
  | refl => exact shaped
  | tail before follows ih => exact ih.next (sound _ before) follows

theorem inShape_start (depth : Nat) (s : Scope) (c : Context) (tokens : List Token) :
    (start depth s (.start (.ofTokens tokens) c none)).InShape F :=
  ⟨Reading.inShape_start (Plan.isBlank_start Node.isBlank_none), trivial⟩

end Machine

end TexFormula.Formula
