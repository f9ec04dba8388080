import TexFormula.Plan.Sideset

/-! What plans give. A plan does not know what its jobs will give, so a statement about its value
holds for all nodes that the jobs may give; and it is carried over to a run of the plan by whatever
does the jobs (`Yields.run`). -/
namespace TexFormula.Plan

variable {bound : Queue} {α β : Type} {J : Job → Prop} {N : Node → Prop} {R R' : α → Prop}
  {S : β → Prop}

/-- A plan all of whose jobs satisfy `J` and whose value satisfies `R`, as long as the jobs give
nodes that satisfy `N`. -/
def Yields (J : Job → Prop) (N : Node → Prop) (R : α → Prop) : Plan bound α → Prop
  | done value => R value
  | read job _ next => J job ∧ ∀ node : Option Node, (∀ n ∈ node, N n) → (next node).Yields J N R

/-- What holds of all jobs and all values holds of every plan. -/
theorem yields_of_all (jobs : ∀ job, J job) (values : ∀ value, R value) (plan : Plan bound α) :
    plan.Yields J N R := by
  induction plan with
  | done value => exact values value
  | read job fits next ih => exact ⟨jobs job, fun node _ => ih node⟩

theorem Yields.mono {plan : Plan bound α} (yields : plan.Yields J N R)
    (weaker : ∀ value, R value → R' value) : plan.Yields J N R' := by
  induction plan with
  | done value => exact weaker value yields
  | read job fits next ih =>
    exact ⟨yields.1, fun node given => ih node (yields.2 node given)⟩

theorem Yields.bind {plan : Plan bound α} (yields : plan.Yields J N R) {f : α → Plan bound β}
    (next : ∀ value, R value → (f value).Yields J N S) : (plan >>= f).Yields J N S := by
  induction plan with
  | done value => exact next value yields
  | read job fits after ih =>
    exact ⟨yields.1, fun node given => ih node (yields.2 node given)⟩

theorem Yields.map {plan : Plan bound α} (yields : plan.Yields J N R) {f : α → β}
    (next : ∀ value, R value → S (f value)) : (f <$> plan).Yields J N S :=
  Yields.bind yields next

/-- What a plan yields is what a run of it gives, if the jobs are done as the plan expects; and what
each job keeps of the state is kept by the run. -/
theorem Yields.run {σ : Type} {I : σ → Prop}
    {perform : (job : Job) → job.queue.weight < bound.weight → σ → Option Node × σ}
    (keeps : ∀ job fits s, J job → I s →
      (∀ n ∈ (perform job fits s).1, N n) ∧ I (perform job fits s).2)
    {plan : Plan bound α} (yields : plan.Yields J N R) {s : σ} (start : I s) :
    R (plan.run perform s).1 ∧ I (plan.run perform s).2 := by
  induction plan generalizing s with
  | done value => exact ⟨yields, start⟩
  | read job fits next ih =>
    obtain ⟨given, after⟩ := keeps job fits s yields.1 start
    exact ih _ (yields.2 _ given) after

/-! ### What jobs give -/

/-- A plan all of whose jobs satisfy `J` and whose value satisfies `R`, as long as each job gives
what `G` says of it. -/
def Delivers (J : Job → Prop) (G : Job → Option Node → Prop) (R : α → Prop) : Plan bound α → Prop
  | done value => R value
  | read job _ next => J job ∧ ∀ node : Option Node, G job node → (next node).Delivers J G R

section Delivers
variable {G : Job → Option Node → Prop} {plan : Plan bound α}

theorem delivers_pure {value : α} (holds : R value) :
    (pure value : Plan bound α).Delivers J G R :=
  holds

theorem Delivers.mono (delivers : plan.Delivers J G R) (weaker : ∀ value, R value → R' value) :
    plan.Delivers J G R' := by
  induction plan with
  | done value => exact weaker value delivers
  | read job fits next ih =>
    exact ⟨delivers.1, fun node given => ih node (delivers.2 node given)⟩

theorem Delivers.bind (delivers : plan.Delivers J G R) {f : α → Plan bound β}
    (next : ∀ value, R value → (f value).Delivers J G S) : (plan >>= f).Delivers J G S := by
  induction plan with
  | done value => exact next value delivers
  | read job fits after ih =>
    exact ⟨delivers.1, fun node given => ih node (delivers.2 node given)⟩

theorem Delivers.map (delivers : plan.Delivers J G R) {f : α → β}
    (next : ∀ value, R value → S (f value)) : (f <$> plan).Delivers J G S :=
  Delivers.bind delivers next

theorem yields_iff_delivers :
    plan.Yields J N R ↔ plan.Delivers J (fun _ node => ∀ n ∈ node, N n) R := by
  induction plan with
  | done value => exact Iff.rfl
  | read job fits next ih => exact and_congr_right fun _ => forall₂_congr fun node _ => ih node

end Delivers

/-! ### Reading -/

/-- The node that takes what is read stays the same when the job starts. -/
theorem parent_start (queue : Queue) (c : Context) (parent : Option Node) :
    (Job.start queue c parent).parent = parent := by
  unfold Job.start
  split
  · split <;> rfl
  · rfl

theorem yields_readQueue {q : Queue.Below bound} {c : Context} {parent : Option Node}
    (asked : J (.start q.val c parent)) :
    (readQueue q c parent).Yields J N fun node => ∀ n ∈ node, N n :=
  ⟨asked, fun _ given => given⟩

/-- Reading a queue into a node gives a node. -/
theorem yields_getD {q : Queue.Below bound} {c : Context} {parent : Option Node} {preset : Node}
    (asked : J (.start q.val c parent)) (blank : N preset) :
    (do return (← readQueue q c parent).getD preset : Plan bound Node).Yields J N N :=
  (yields_readQueue asked).map fun node given => by
    cases node with
    | none => exact blank
    | some n => exact given n rfl

/-! ### Scripts on one side -/

section Sides
variable {P : Node → Prop} (blank : P (.element "none"))
include blank

theorem delivers_readSideScripts {G : Job → Option Node → Prop} {c : Context}
    (argument : ∀ e : Expr.Below bound, (readArgument c e).Delivers J G P)
    (scripts : List (SideScript (Option (Expr.Below bound)))) :
    (readSideScripts c scripts).Delivers J G fun read => ∀ script ∈ read, P script.content := by
  induction scripts with
  | nil => exact List.forall_mem_nil _
  | cons script rest ih =>
    obtain ⟨above, content⟩ := script
    have more : ∀ n : Node, P n →
        (do return ⟨above, n⟩ :: (← readSideScripts c rest) : Plan bound _).Delivers J G
          fun read => ∀ script ∈ read, P script.content := by
      intro n holds
      refine ih.bind fun others known => delivers_pure fun script member => ?_
      rcases List.mem_cons.mp member with same | later
      · exact same ▸ holds
      · exact known script later
    cases content with
    | none => exact more _ blank
    | some e => exact (argument e).bind more

/-- The scripts of all pairs have a property. -/
def SidePairs.All (P : Node → Prop) (p : SidePairs) : Prop :=
  (∀ n ∈ p.below, P n) ∧ ∀ n ∈ p.above, P n

theorem SidePairs.All.add {p : SidePairs} (all : p.All P) {script : SideScript Node}
    (given : P script.content) : (p.add script).All P := by
  have missing : ∀ n ∈ (if p.lastAbove = some script.above then [Node.element "none"] else []),
      P n := by
    split
    · exact List.forall_mem_singleton.mpr blank
    · exact List.forall_mem_nil _
  have one := List.forall_mem_singleton.mpr given
  unfold SidePairs.add
  simp only
  split
  · exact ⟨List.forall_mem_append.mpr ⟨all.1, missing⟩, List.forall_mem_append.mpr ⟨all.2, one⟩⟩
  · exact ⟨List.forall_mem_append.mpr ⟨all.1, one⟩, List.forall_mem_append.mpr ⟨all.2, missing⟩⟩

theorem SidePairs.All.foldl {p : SidePairs} (all : p.All P) {scripts : List (SideScript Node)}
    (given : ∀ script ∈ scripts, P script.content) : (scripts.foldl SidePairs.add p).All P := by
  induction scripts generalizing p with
  | nil => exact all
  | cons script rest ih =>
    obtain ⟨here, later⟩ := List.forall_mem_cons.mp given
    exact ih (all.add blank here) later

theorem forall_fillWithNone (length : Nat) {nodes : List Node} (all : ∀ n ∈ nodes, P n) :
    ∀ n ∈ fillWithNone length nodes, P n :=
  List.forall_mem_append.mpr ⟨all, fun _ member => List.eq_of_mem_replicate member ▸ blank⟩

theorem SidePairs.All.nodes {p : SidePairs} (all : p.All P) : ∀ n ∈ p.nodes, P n := by
  intro n member
  obtain ⟨⟨sub, sup⟩, pair, inside⟩ := List.mem_flatMap.mp member
  obtain ⟨left, right⟩ := List.of_mem_zip pair
  simp only [List.mem_cons, List.not_mem_nil, or_false] at inside
  rcases inside with same | same
  · exact same ▸ forall_fillWithNone blank _ all.1 sub left
  · exact same ▸ forall_fillWithNone blank _ all.2 sup right

/-- Scripts on one side have a property if all arguments have it. -/
theorem delivers_readSide {G : Job → Option Node → Prop} {c : Context}
    (argument : ∀ e : Expr.Below bound, (readArgument c e).Delivers J G P)
    (e : Expr.Below bound) : (readSide c e).Delivers J G fun nodes => ∀ n ∈ nodes, P n := by
  have none : SidePairs.All P {} := ⟨List.forall_mem_nil _, List.forall_mem_nil _⟩
  exact (delivers_readSideScripts blank argument _).map fun read known =>
    (none.foldl blank known).nodes blank

end Sides

end TexFormula.Plan
