import Mathlib.Data.Fintype.Card
import Mathlib.Data.List.Perm.Basic
import Mathlib.Data.Set.Finite.List
import Mathlib.Logic.Relation
import TexFormula.Macro.Dependency

/-! Orders of names. Putting names in order takes each name when all the active names it depends on
have come. So a name on a cycle never comes, and a name that never comes depends on another one that
never comes: where no name is on a cycle, every name has its place in the order. -/

/-! ### Order -/

namespace TexFormula.Macro

open Relation

/-- Names that come one after the other, each of them active and new and behind the active names it
depends on. The names in `done` have come before. -/
inductive Ordered (next : String → List String) (active : List String) :
    List String → List String → Prop
  | nil {done} : Ordered next active done []
  | cons {done name rest} (member : name ∈ active) (new : name ∉ done)
    (after : ∀ other ∈ next name, other ∈ active → other ∈ done)
    (more : Ordered next active (name :: done) rest) : Ordered next active done (name :: rest)

section
variable {next : String → List String} {active done order : List String}

theorem Ordered.mem_active (ordered : Ordered next active done order) :
    ∀ name ∈ order, name ∈ active := by
  induction ordered with
  | nil => simp
  | cons member _ _ _ ih => exact List.forall_mem_cons.mpr ⟨member, ih⟩

theorem Ordered.not_mem_done (ordered : Ordered next active done order) :
    ∀ name ∈ order, name ∉ done := by
  induction ordered with
  | nil => simp
  | cons _ new _ _ ih =>
    exact List.forall_mem_cons.mpr
      ⟨new, fun name member => fun old => ih name member (List.mem_cons_of_mem _ old)⟩

/-- No name comes twice. -/
theorem Ordered.nodup (ordered : Ordered next active done order) : order.Nodup := by
  induction ordered with
  | nil => exact List.nodup_nil
  | cons _ _ _ more ih =>
    exact List.nodup_cons.mpr ⟨fun again => more.not_mem_done _ again List.mem_cons_self, ih⟩

/-- With fewer dependencies the order is still right. -/
theorem Ordered.mono {fewer : String → List String} (ordered : Ordered next active done order)
    (subset : ∀ name ∈ active, fewer name ⊆ next name) : Ordered fewer active done order := by
  induction ordered with
  | nil => exact .nil
  | @cons done name rest member new after _ ih =>
    exact .cons member new (fun other depends => after other (subset name member depends)) ih

/-- A rest of an order is an order when what stands before it has come. -/
theorem Ordered.drop {before : List String} (ordered : Ordered next active done (before ++ order)) :
    ∃ done, Ordered next active done order := by
  induction before generalizing done with
  | nil => exact ⟨done, ordered⟩
  | cons name before ih =>
    cases ordered with
    | cons _ _ _ more => exact ih more

/-- What a name depends on has come before it. -/
theorem Ordered.before {before after : List String} {name : String}
    (ordered : Ordered next active done (before ++ name :: after)) :
    ∀ other ∈ next name, other ∈ active → other ∈ before ∨ other ∈ done := by
  induction before generalizing done with
  | nil =>
    cases ordered with
    | cons _ _ after _ => exact fun other depends member => .inr (after other depends member)
  | cons first before ih =>
    cases ordered with
    | cons _ _ _ more =>
      intro other depends member
      rcases ih more other depends member with here | here
      · exact .inl (List.mem_cons_of_mem _ here)
      · rcases List.mem_cons.mp here with rfl | here
        · exact .inl List.mem_cons_self
        · exact .inr here

/-- What a name depends on through active names has come before it too. -/
theorem Ordered.before_of_way {before after : List String} {name other : String}
    (ordered : Ordered next active [] (before ++ name :: after))
    (way : TransGen (fun a b => b ∈ next a ∧ b ∈ active) name other) : other ∈ before := by
  induction way with
  | single step => simpa using ordered.before _ step.1 step.2
  | tail _ step ih =>
    obtain ⟨front, back, rfl⟩ := List.append_of_mem ih
    rw [List.append_assoc, List.cons_append] at ordered
    have earlier := ordered.before _ step.1 step.2
    exact List.mem_append_left _ (by simpa using earlier)

/-- What holds of a name if it holds of all active names it depends on holds of all names of an
order. -/
theorem Ordered.induction (ordered : Ordered next active done order) {motive : String → Prop}
    (known : ∀ name ∈ done, motive name)
    (step : ∀ name ∈ active, (∀ other ∈ next name, other ∈ active → motive other) → motive name) :
    ∀ name ∈ order, motive name := by
  induction ordered with
  | nil => simp
  | @cons done name rest member _ after _ ih =>
    have here : motive name := step name member fun other depends active =>
      known other (after other depends active)
    exact List.forall_mem_cons.mpr ⟨here, ih (List.forall_mem_cons.mpr ⟨here, known⟩)⟩

/-- No name of an order depends on itself through active names. -/
theorem Ordered.acyclic (ordered : Ordered next active [] order) :
    ∀ name ∈ order, ¬ TransGen (fun a b => b ∈ next a ∧ b ∈ active) name name := by
  refine ordered.induction (by simp) fun name _ ih cycle => ?_
  obtain ⟨other, ⟨depends, member⟩, back⟩ := TransGen.head'_iff.mp cycle
  exact ih other depends member (.tail' back ⟨depends, member⟩)

/-! ### Counting down -/

/-- The number of active names that a name still waits for when those in `done` have come. -/
def missing (next : String → List String) (active done : List String) (name : String) : Nat :=
  active.countP fun other => (next name).contains other && !done.contains other

theorem missing_nil (name : String) : missing next active [] name = waitCount next active name := by
  unfold missing waitCount
  exact congrArg (List.countP · active) (funext fun other => by simp)

/-- A name that comes is missing no longer. -/
theorem missing_cons {name : String} (once : active.Nodup) (member : name ∈ active)
    (new : name ∉ done) (other : String) :
    missing next active (name :: done) other =
      if (next other).contains name then missing next active done other - 1
      else missing next active done other := by
  have split : active.Perm (name :: active.erase name) := List.perm_cons_erase member
  have others : (active.erase name).countP
        (fun x => (next other).contains x && !(name :: done).contains x) =
      (active.erase name).countP fun x => (next other).contains x && !done.contains x := by
    refine List.countP_congr fun x inside => ?_
    have different : x ≠ name := fun same =>
      once.not_mem_erase (same ▸ inside)
    simp [different]
  unfold missing
  rw [split.countP_eq, split.countP_eq, List.countP_cons, List.countP_cons, others]
  by_cases depends : name ∈ next other <;> simp [depends, new]

/-- How far the names have been put in order: those in `done` have come, the ready ones wait for
nothing, and each waiting one has the number of names it still waits for. -/
structure Progress (next : String → List String) (active done ready : List String)
    (waiting : List (String × Nat)) : Prop where
  parts : (done ++ (ready ++ waiting.map Prod.fst)).Perm active
  ready : ∀ name ∈ ready, ∀ other ∈ next name, other ∈ active → other ∈ done
  counted : ∀ entry ∈ waiting, entry.2 = missing next active done entry.1 ∧ entry.2 ≠ 0

theorem perm_freed_blocked (counted : List (String × Nat)) :
    (freed counted ++ (blocked counted).map Prod.fst).Perm (counted.map Prod.fst) := by
  rw [freed, blocked, ← List.map_append]
  refine List.Perm.map _ ?_
  simpa using List.filter_append_perm (fun entry : String × Nat => decide (entry.2 = 0)) counted

theorem forall_done_of_missing_eq_zero {name : String} (none : missing next active done name = 0) :
    ∀ other ∈ next name, other ∈ active → other ∈ done := by
  intro other depends member
  simpa [depends] using List.countP_eq_zero.mp none other member

/-- Sorting counted names into those that are free and those that still wait makes progress. -/
theorem Progress.sort {ready more : List String} {counted : List (String × Nat)}
    (parts : (done ++ (ready ++ counted.map Prod.fst)).Perm active)
    (known : ∀ name ∈ ready, ∀ other ∈ next name, other ∈ active → other ∈ done)
    (counts : ∀ entry ∈ counted, entry.2 = missing next active done entry.1)
    (joined : more.Perm (ready ++ freed counted)) :
    Progress next active done more (blocked counted) := by
  refine ⟨List.Perm.trans ?_ parts, ?_, ?_⟩
  · refine ((joined.append_right _).trans ?_).append_left _
    rw [List.append_assoc]
    exact (perm_freed_blocked counted).append_left _
  · intro name member
    rcases List.mem_append.mp (joined.subset member) with old | free
    · exact known name old
    · obtain ⟨entry, inside, rfl⟩ := List.mem_map.mp free
      obtain ⟨inside, zero⟩ := List.mem_filter.mp inside
      exact forall_done_of_missing_eq_zero ((counts entry inside).symm.trans (by simpa using zero))
  · intro entry member
    obtain ⟨inside, nonzero⟩ := List.mem_filter.mp member
    exact ⟨counts entry inside, by simpa using nonzero⟩

/-- When a ready name comes, progress is made. -/
theorem Progress.step {name : String} {rest : List String} {waiting : List (String × Nat)}
    (progress : Progress next active done (name :: rest) waiting) (once : active.Nodup) :
    Progress next active (name :: done)
      ((freed (countAll next name waiting)).reverse ++ rest)
      (blocked (countAll next name waiting)) := by
  obtain ⟨parts, ready, counted⟩ := progress
  have names : (countAll next name waiting).map Prod.fst = waiting.map Prod.fst := by
    rw [countAll, List.map_map]
    refine congrArg (List.map · waiting) (funext fun entry => ?_)
    simp only [Function.comp, countDown]
    split <;> rfl
  have distinct := parts.nodup_iff.mpr once
  have member : name ∈ active := parts.subset (by simp)
  have new : name ∉ done := fun old =>
    (List.nodup_append.mp distinct).2.2 name old name (by simp) rfl
  refine Progress.sort ?_ ?_ ?_
    (((List.reverse_perm _).append_right _).trans List.perm_append_comm)
  · rw [names]
    exact (List.perm_middle.symm).trans parts
  · intro other inside further depends active
    exact List.mem_cons_of_mem _
      (ready other (List.mem_cons_of_mem _ inside) further depends active)
  · intro entry inside
    obtain ⟨old, waits, rfl⟩ := List.mem_map.mp inside
    have same : (countDown next name old).1 = old.1 := by unfold countDown; split <;> rfl
    rw [same, missing_cons once member new, ← (counted old waits).1]
    unfold countDown
    split <;> rfl

/-- The names come in order, and each of those that never come depends on one that does not come
either. -/
theorem Progress.ordered {ready : List String} {waiting : List (String × Nat)}
    (progress : Progress next active done ready waiting) (once : active.Nodup) :
    Ordered next active done (releaseOrder next ready waiting) ∧
      ∀ name ∈ active, name ∉ done → name ∉ releaseOrder next ready waiting →
        ∃ other ∈ next name, other ∈ active ∧ other ∉ done ∧
          other ∉ releaseOrder next ready waiting := by
  fun_induction releaseOrder next ready waiting generalizing done with
  | case1 waiting =>
    refine ⟨.nil, fun name member new _ => ?_⟩
    have waits : name ∈ waiting.map Prod.fst := by
      simpa [new] using progress.parts.symm.subset member
    obtain ⟨entry, inside, rfl⟩ := List.mem_map.mp waits
    obtain ⟨count, nonzero⟩ := progress.counted entry inside
    obtain ⟨other, active, still⟩ :=
      List.countP_pos_iff.mp (Nat.pos_of_ne_zero (count ▸ nonzero : missing _ _ _ _ ≠ 0))
    exact ⟨other, by simp_all, active, by simp_all, List.not_mem_nil⟩
  | case2 waiting name rest counted =>
    rename_i ih
    obtain ⟨ordered, stuck⟩ := ih (progress.step once)
    have member : name ∈ active := progress.parts.subset (by simp)
    have distinct := progress.parts.nodup_iff.mpr once
    have new : name ∉ done := fun old =>
      (List.nodup_append.mp distinct).2.2 name old name (by simp) rfl
    refine ⟨.cons member new (progress.ready name List.mem_cons_self) ordered, ?_⟩
    intro other active fresh absent
    obtain ⟨different, later⟩ := not_or.mp (mt List.mem_cons.mpr absent)
    obtain ⟨further, depends, member, missing, never⟩ :=
      stuck other active (List.not_mem_cons_of_ne_of_not_mem different fresh) later
    obtain ⟨distinct, older⟩ := not_or.mp (mt List.mem_cons.mpr missing)
    exact ⟨further, depends, member, older, List.not_mem_cons_of_ne_of_not_mem distinct never⟩

theorem progress_start :
    Progress next active [] (freed (active.map fun name => (name, waitCount next active name)))
      (blocked (active.map fun name => (name, waitCount next active name))) := by
  have parts : ([] ++ ([] ++ (active.map fun name => (name, waitCount next active name)).map
      Prod.fst)).Perm active := by
    rw [List.nil_append, List.nil_append, List.map_map]
    exact List.Perm.of_eq (List.map_id _)
  refine Progress.sort parts (by simp) ?_ (.refl _)
  intro entry member
  obtain ⟨name, _, rfl⟩ := List.mem_map.mp member
  exact (missing_nil name).symm

/-- The order of the active names is one in which each follows the active names it depends on. -/
theorem ordered_dependencyOrder (next : String → List String) (once : active.Nodup) :
    Ordered next active [] (dependencyOrder next active) :=
  (progress_start.ordered once).1

/-- An active name that is left out depends on one that is left out. -/
theorem left_out_of_left_out (next : String → List String) (once : active.Nodup) {name : String}
    (member : name ∈ active) (absent : name ∉ dependencyOrder next active) :
    ∃ other ∈ next name, other ∈ active ∧ other ∉ dependencyOrder next active := by
  obtain ⟨other, depends, active, _, out⟩ :=
    (progress_start.ordered once).2 name member List.not_mem_nil absent
  exact ⟨other, depends, active, out⟩

/-- Where every name of a list depends on one of the list, one of them depends on itself. -/
theorem exists_cycle {names : List String} {R : String → String → Prop} {name : String}
    (member : name ∈ names) (stuck : ∀ a ∈ names, ∃ b ∈ names, R a b) :
    ∃ a ∈ names, TransGen R a a := by
  by_contra none
  push Not at none
  let Below : {a // a ∈ names} → {a // a ∈ names} → Prop := fun b a => TransGen R a.1 b.1
  have irrefl : Std.Irrefl Below := ⟨fun a => none a.1 a.2⟩
  have trans : IsTrans _ Below := ⟨fun _ _ _ lower higher => higher.trans lower⟩
  have finite : Finite {a // a ∈ names} := names.finite_toSet.to_subtype
  have wellFounded : WellFounded Below := Finite.wellFounded_of_trans_of_irrefl Below
  have absent : ∀ a : {a // a ∈ names}, False := fun a =>
    wellFounded.induction (C := fun _ => False) a fun a ih => by
      obtain ⟨b, inside, depends⟩ := stuck a.1 a.2
      exact ih ⟨b, inside⟩ (.single depends)
  exact absent ⟨name, member⟩

/-- An order of active names lacks no name, if none of them depends on itself. -/
theorem mem_dependencyOrder (once : active.Nodup)
    (acyclic : ∀ name ∈ active, ¬ TransGen (fun a b => b ∈ next a) name name) {name : String} :
    name ∈ dependencyOrder next active ↔ name ∈ active := by
  refine ⟨(ordered_dependencyOrder next once).mem_active name, fun member => ?_⟩
  by_contra absent
  let left : List String := active.filter (· ∉ dependencyOrder next active)
  have stuck : ∀ a ∈ left, ∃ b ∈ left, b ∈ next a := by
    intro a inside
    obtain ⟨active, out⟩ := List.mem_filter.mp inside
    obtain ⟨b, depends, member, never⟩ := left_out_of_left_out next once active (by simpa using out)
    exact ⟨b, List.mem_filter.mpr ⟨member, by simpa using never⟩, depends⟩
  obtain ⟨a, inside, cycle⟩ :=
    exists_cycle (List.mem_filter.mpr ⟨member, by simpa using absent⟩ : name ∈ left) stuck
  exact acyclic a (List.mem_filter.mp inside).1 cycle

end

end TexFormula.Macro

/-! ### Cycles

Cycles of macros. The macros on a cycle are among those that are left out when all macros are
put in order, and the search among these finds exactly them. The macros that only lead to a cycle
are told apart from them, and have their place in the order of the remaining macros. -/

namespace TexFormula.Macro

open Relation

section
variable {next : String → List String}

/-! ### Searching -/

/-- A way from one name to another that passes through names of `within` only. The last name may be
any. -/
def Trail (next : String → List String) (within : List String) : String → String → Prop :=
  ReflTransGen fun a b => a ∈ within ∧ b ∈ next a

variable {within : List String} {name target start : String}

theorem Trail.mono {wider : List String} (subset : within ⊆ wider)
    (trail : Trail next within start target) : Trail next wider start target :=
  ReflTransGen.mono (fun _ _ step => ⟨subset step.1, step.2⟩) _ _ trail

/-- A way can do without coming back to a name, if it may start behind that name. -/
theorem Trail.avoid (trail : Trail next within start target) (name : String) :
    Trail next (within.erase name) start target ∨
      ∃ other ∈ next name, Trail next (within.erase name) other target := by
  induction trail using ReflTransGen.head_induction_on with
  | refl => exact .inl .refl
  | @head a b step _ ih =>
    rcases ih with later | behind
    · by_cases same : a = name
      · exact .inr ⟨b, same ▸ step.2, later⟩
      · exact .inl (.head ⟨(List.mem_erase_of_ne same).mpr step.1, step.2⟩ later)
    · exact .inr behind

/-- The search finds the target if there is a way to it through names that were not visited. -/
theorem reaches_iff (next : String → List String) (target : String) (unseen todo : List String) :
    reaches next target unseen todo = true ↔ ∃ start ∈ todo, Trail next unseen start target := by
  fun_induction reaches next target unseen todo with
  | case1 unseen => simp
  | case2 unseen rest => simpa using .inl .refl
  | case3 unseen name rest different fresh ih =>
    rw [ih]
    constructor
    · rintro ⟨start, member, trail⟩
      have wider := trail.mono (List.erase_subset (a := name))
      rcases List.mem_append.mp member with behind | later
      · exact ⟨name, List.mem_cons_self, .head ⟨fresh, behind⟩ wider⟩
      · exact ⟨start, List.mem_cons_of_mem _ later, wider⟩
    · rintro ⟨start, member, trail⟩
      rcases trail.avoid name with direct | ⟨other, behind, direct⟩
      · rcases List.mem_cons.mp member with rfl | later
        · -- The way leaves the first name, for that is not the target.
          rcases ReflTransGen.cases_head direct with same | ⟨other, step, direct⟩
          · exact absurd same different
          · exact ⟨other, List.mem_append_left _ step.2, direct⟩
        · exact ⟨start, List.mem_append_right _ later, direct⟩
      · exact ⟨other, List.mem_append_left _ behind, direct⟩
  | case4 unseen name rest different seen ih =>
    rw [ih]
    constructor
    · rintro ⟨start, member, trail⟩
      exact ⟨start, List.mem_cons_of_mem _ member, trail⟩
    · rintro ⟨start, member, trail⟩
      rcases List.mem_cons.mp member with rfl | later
      · rcases ReflTransGen.cases_head trail with same | ⟨other, step, _⟩
        · exact absurd same different
        · exact absurd step.1 seen
      · exact ⟨start, later, trail⟩

end

/-! ### Cycles of a table -/

/-- Whether the body of one macro has a call of another name in it. -/
def Table.Calls (table : Table) (name other : String) : Prop :=
  ∃ m, table.get? name = some m ∧ ∃ t ∈ m.body, t.isCommand = true ∧ t.value = other

/-- Whether a macro depends on itself, directly or through others. -/
def Table.OnCycle (table : Table) (name : String) : Prop :=
  TransGen table.Calls name name

variable {table : Table} {name other : String}

theorem Table.mem_dependencies :
    other ∈ table.dependencies name ↔ table.Calls name other ∧ other ∈ table.names := by
  unfold Table.dependencies Table.Calls
  cases found : table.get? name with
  | none => simp
  | some m => simp [Registry.contains]; tauto

theorem Table.Calls.mem_names (calls : table.Calls name other) : name ∈ table.names := by
  obtain ⟨m, found, _⟩ := calls
  exact Registry.mem_names_iff.mpr ⟨m, found⟩

/-- A way over calls to a macro of the table passes through macros of the table only. -/
theorem Table.transGen_dependencies (member : other ∈ table.names)
    (way : TransGen table.Calls name other) :
    TransGen (fun a b => b ∈ table.dependencies a) name other := by
  induction way with
  | single call => exact .single (Table.mem_dependencies.mpr ⟨call, member⟩)
  | tail _ call ih => exact .tail (ih call.mem_names) (Table.mem_dependencies.mpr ⟨call, member⟩)

/-- A macro on a cycle is on a cycle of dependencies, and the other way round. -/
theorem Table.onCycle_iff :
    table.OnCycle name ↔ TransGen (fun a b => b ∈ table.dependencies a) name name := by
  constructor
  · intro cycle
    obtain ⟨_, call, _⟩ := TransGen.head'_iff.mp cycle
    exact Table.transGen_dependencies call.mem_names cycle
  · exact TransGen.mono (fun _ _ depends => (Table.mem_dependencies.mp depends).1) _ _

theorem Table.OnCycle.mem_names (cycle : table.OnCycle name) : name ∈ table.names := by
  obtain ⟨_, call, _⟩ := TransGen.head'_iff.mp cycle
  exact call.mem_names

/-- A way around a cycle stays among the macros that are left out of the order of all macros. -/
theorem Table.trail_of_onCycle {leftover : List String}
    (left : ∀ name, table.OnCycle name → name ∈ leftover)
    (there : TransGen (fun a b => b ∈ table.dependencies a) name other)
    (back : ReflTransGen (fun a b => b ∈ table.dependencies a) other name) :
    Trail table.dependencies leftover other name := by
  induction back using ReflTransGen.head_induction_on with
  | refl => exact .refl
  | @head a b step rest ih =>
    have cycle : table.OnCycle a := Table.onCycle_iff.mpr ((TransGen.head' step rest).trans there)
    exact .head ⟨left a cycle, step⟩ (ih (there.tail step))

/-- The macros that are found to depend on themselves are those on a cycle: no macro on a cycle can
be put in order, and the way around a cycle never leaves the macros that were left out. -/
theorem Table.mem_cyclicNames : name ∈ table.cyclicNames ↔ table.OnCycle name := by
  have ordered := ordered_dependencyOrder table.dependencies table.nodup_names
  have left : ∀ name, table.OnCycle name →
      name ∈ table.names.filter fun name =>
        !(dependencyOrder table.dependencies table.names).contains name := by
    intro name cycle
    have absent : name ∉ dependencyOrder table.dependencies table.names := fun member =>
      ordered.acyclic name member (TransGen.mono
        (fun _ _ depends => ⟨depends, (Table.mem_dependencies.mp depends).2⟩) _ _
        (Table.onCycle_iff.mp cycle))
    exact List.mem_filter.mpr ⟨cycle.mem_names, by simpa using absent⟩
  unfold Table.cyclicNames
  simp only [List.mem_filter (p := fun name => reaches _ name _ _), reaches_iff]
  constructor
  · rintro ⟨_, start, first, trail⟩
    have rest : ReflTransGen (fun a b => b ∈ table.dependencies a) start name :=
      ReflTransGen.mono (fun _ _ step => step.2) _ _ trail
    exact Table.onCycle_iff.mpr (.head' first rest)
  · intro cycle
    obtain ⟨start, first, rest⟩ := TransGen.head'_iff.mp (Table.onCycle_iff.mp cycle)
    exact ⟨left name cycle, start, first, Table.trail_of_onCycle left (.single first) rest⟩

theorem Table.ordered_flattenOrder (table : Table) :
    Ordered table.dependencies (table.names.filter (!table.cyclicNames.contains ·)) []
      table.flattenOrder :=
  ordered_dependencyOrder table.dependencies (table.nodup_names.filter _)

/-- Every macro that is not on a cycle has its place in the order. -/
theorem Table.mem_flattenOrder :
    name ∈ table.flattenOrder ↔ name ∈ table.names ∧ ¬ table.OnCycle name := by
  simp only [Table.flattenOrder]
  rw [mem_dependencyOrder (table.nodup_names.filter _), List.mem_filter, Bool.not_eq_true',
    ← Bool.not_eq_true, List.contains_iff_mem, Table.mem_cyclicNames]
  intro other inside cycle
  have acyclic : other ∉ table.cyclicNames := by simpa using (List.mem_filter.mp inside).2
  exact acyclic (Table.mem_cyclicNames.mpr (Table.onCycle_iff.mpr cycle))

/-- Where no macro is on a cycle, what holds of a name if it holds of all names it depends on holds
of all names. -/
theorem Table.call_induction (acyclic : ∀ name, ¬ table.OnCycle name) {motive : String → Prop}
    (step : ∀ name, (∀ other, TransGen table.Calls name other → motive other) → motive name)
    (name : String) : motive name := by
  -- A name without a macro calls nothing.
  have absent : ∀ name, name ∉ table.names → motive name := by
    intro name absent
    refine step name fun other way => ?_
    obtain ⟨_, first, _⟩ := TransGen.head'_iff.mp way
    exact absurd first.mem_names absent
  by_cases member : name ∈ table.names
  · have ordered := ordered_dependencyOrder table.dependencies table.nodup_names
    have placed : name ∈ dependencyOrder table.dependencies table.names :=
      (mem_dependencyOrder table.nodup_names
        fun name _ cycle => acyclic name (Table.onCycle_iff.mpr cycle)).mpr member
    refine (ordered.induction
      (motive := fun name => ∀ other, ReflTransGen table.Calls name other → motive other)
      (by simp) ?_ name placed) name .refl
    intro name _ ih
    have behind : ∀ other, TransGen table.Calls name other → motive other := by
      intro other way
      obtain ⟨next, first, rest⟩ := TransGen.head'_iff.mp way
      by_cases known : next ∈ table.names
      · exact ih next (Table.mem_dependencies.mpr ⟨first, known⟩) known other rest
      · rcases ReflTransGen.cases_head rest with rfl | ⟨_, further, _⟩
        · exact absent next known
        · exact absurd further.mem_names known
    intro other way
    rcases ReflTransGen.cases_head way with rfl | ⟨next, first, rest⟩
    · exact step name behind
    · exact behind other (.head' first rest)
  · exact absent name member

end TexFormula.Macro
