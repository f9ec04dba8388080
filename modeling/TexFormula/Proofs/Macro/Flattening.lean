import TexFormula.Proofs.Macro.Cycle
import TexFormula.Proofs.Macro.Locality

/-! Flattened tables. The macros of a table are flattened one after the other, each time with the
table as it is then. Since a macro comes after those it depends on, nothing that its body calls
changes later: in the end every body is what the finished table makes of the body that was read.
This equation tells all about a flattened table, and it does not mention an order. -/
namespace TexFormula.Macro
open Token Relation

/-- What the table makes of a body: the body with its calls expanded, if they can be. -/
def Table.settled (table : Table) (body : List Token) : List Token :=
  match expand table body with
  | .ok expanded => expanded
  | .error _ => body

/-- A table whose macros are those of another one with their calls expanded by the table itself. -/
structure Flattens (flat plain : Table) : Prop where
  names : flat.names = plain.names
  get? : ∀ name, flat.get? name =
    (plain.get? name).map fun m => { m with body := flat.settled m.body }

/-- A table of declared macros. None of them takes an optional argument. -/
def Table.Declared (table : Table) : Prop :=
  ∀ name m, table.get? name = some m → m.optional = none ∧ m.inFormula = false

variable {Q : Token → Prop} {table other plain flat : Table} {name : String} {body : List Token}

/-! ### One macro -/

theorem settled_of_uncalled (uncalled : ∀ t ∈ body, table.callee? t = none) :
    table.settled body = body := by
  unfold Table.settled
  rw [expand_eq_expandRounds, maxDepth, expandRounds_of_uncalled 63 uncalled]

/-- What holds of a body and of the bodies it calls holds of what the table makes of it. -/
theorem forall_mem_settled (persistent : Persistent Q) (closed : table.Closed Q)
    (holds : ∀ t ∈ body, Q t) : ∀ t ∈ table.settled body, Q t := by
  unfold Table.settled
  split
  case h_1 expanded done =>
    rw [expand_eq_expandRounds] at done
    exact forall_mem_expandRounds persistent closed holds done
  case h_2 => exact holds

/-- Tables that agree on the macros that a body calls expand it in the same way. -/
theorem expand_congr (persistent : Persistent Q) (closed : table.Closed Q)
    (same : ∀ t, Q t → table.callee? t = other.callee? t)
    (contains : ∀ name, table.contains name = other.contains name)
    (holds : ∀ t ∈ body, Q t) : expand table body = expand other body := by
  rw [expand_eq_expandRounds, expand_eq_expandRounds,
    expandRounds_congr persistent closed same contains maxDepth holds]

theorem settled_congr (same : expand table body = expand other body) :
    table.settled body = other.settled body := by
  unfold Table.settled
  rw [same]

theorem get?_flatten (table : Table) (name other : String) :
    (flatten table name).get? other =
      if other = name then (table.get? name).map fun m => { m with body := table.settled m.body }
      else table.get? other := by
  unfold flatten
  split
  case h_1 absent =>
    split
    case isTrue same => rw [same, absent]; rfl
    case isFalse => rfl
  case h_2 m found =>
    rw [found, Option.map_some, Table.settled]
    cases expand table m.body with
    | ok body => rw [Registry.get?_insert]
    | error e =>
      dsimp only
      split
      case isTrue same => rw [same, found]
      case isFalse => rfl

theorem names_flatten (table : Table) (name : String) :
    (flatten table name).names = table.names := by
  unfold flatten
  split
  case h_1 => rfl
  case h_2 m found =>
    split
    · rw [Registry.names_insert, if_pos (Registry.mem_names_iff.mpr ⟨m, found⟩)]
    · rfl

theorem callee?_congr {t : Token} (same : table.get? t.value = other.get? t.value) :
    table.callee? t = other.callee? t := by
  unfold Table.callee?
  rw [same]

/-! ### One after the other -/

/-- Tokens that call none of the pending names. -/
def Clear (pending : List String) (t : Token) : Prop :=
  t.isCommand = true → t.value ∉ pending

theorem persistent_clear (pending : List String) : Persistent (Clear pending) :=
  lasting_command.persistent (· ∉ pending)

theorem Clear.tail {pending : List String} {t : Token} (clear : Clear (name :: pending) t) :
    Clear pending t :=
  fun command member => clear command (List.mem_cons_of_mem _ member)

/-- How far a table is flattened. The pending macros are as they were, and what is done depends on
none of them. -/
structure Stage (plain : Table) (pending : List String) (table : Table) : Prop where
  names : table.names = plain.names
  untouched : ∀ name ∈ pending, table.get? name = plain.get? name
  done : ∀ name, name ∉ pending →
    table.get? name = (plain.get? name).map fun m => { m with body := table.settled m.body }
  before : ∀ name, name ∉ pending → ∀ m, plain.get? name = some m → ∀ t ∈ m.body, Clear pending t
  after : ∀ name, name ∉ pending → ∀ m, table.get? name = some m → ∀ t ∈ m.body, Clear pending t

theorem Stage.declared {pending : List String} (stage : Stage plain pending table)
    (declared : plain.Declared) : table.Declared := by
  intro name m found
  by_cases waits : name ∈ pending
  · exact declared name m ((stage.untouched name waits).symm.trans found)
  · rw [stage.done name waits] at found
    obtain ⟨old, before, rfl⟩ := Option.map_eq_some_iff.mp found
    exact declared name old before

/-- What does not call a pending macro never meets one. -/
theorem Stage.closed {pending : List String} (stage : Stage plain pending table)
    (declared : plain.Declared) : table.Closed (Clear pending) := by
  intro t m clear called
  obtain ⟨command, found, _⟩ := Table.callee?_eq_some.mp called
  refine ⟨stage.after t.value (clear command) m found, ?_⟩
  simp [(stage.declared declared t.value m found).1]

/-- Flattening a pending macro changes nothing for what does not call a pending macro. -/
theorem Stage.expand_flatten {rest : List String} (stage : Stage plain (name :: rest) table)
    (declared : plain.Declared) (clear : ∀ t ∈ body, Clear (name :: rest) t) :
    expand (flatten table name) body = expand table body := by
  have contains : ∀ other, table.contains other = (flatten table name).contains other := by
    intro other
    rw [Registry.contains, Registry.contains, names_flatten]
  refine (expand_congr (persistent_clear _) (stage.closed declared) (fun t here => ?_) contains
    clear).symm
  by_cases command : t.isCommand = true
  · have different : t.value ≠ name := fun same => here command (same ▸ List.mem_cons_self)
    refine callee?_congr ?_
    rw [get?_flatten, if_neg different]
  · simp [Table.callee?, command]

/-- The next macro can be flattened if it depends on no macro that is pending. -/
theorem Stage.step {rest : List String} (stage : Stage plain (name :: rest) table)
    (declared : plain.Declared)
    (ready : ∀ m, plain.get? name = some m → ∀ t ∈ m.body, Clear (name :: rest) t)
    (once : name ∉ rest) : Stage plain rest (flatten table name) := by
  have unchanged : ∀ {body : List Token}, (∀ t ∈ body, Clear (name :: rest) t) →
      table.settled body = (flatten table name).settled body := fun clear =>
    settled_congr (stage.expand_flatten declared clear).symm
  have here : table.get? name = plain.get? name := stage.untouched name List.mem_cons_self
  refine ⟨(names_flatten table name).trans stage.names, ?_, ?_, ?_, ?_⟩
  · intro later member
    have different : later ≠ name := fun same => once (same ▸ member)
    rw [get?_flatten, if_neg different]
    exact stage.untouched later (List.mem_cons_of_mem _ member)
  · intro other absent
    rw [get?_flatten]
    split
    case isTrue same =>
      rw [same, here]
      refine Option.map_congr fun m found => ?_
      rw [unchanged (ready m found)]
    case isFalse different =>
      have old : other ∉ name :: rest := List.not_mem_cons_of_ne_of_not_mem different absent
      rw [stage.done other old]
      refine Option.map_congr fun m found => ?_
      rw [unchanged (stage.before other old m found)]
  · intro other absent m found t inside
    by_cases same : other = name
    · exact (ready m (same ▸ found) t inside).tail
    · have old : other ∉ name :: rest := List.not_mem_cons_of_ne_of_not_mem same absent
      exact (stage.before other old m found t inside).tail
  · intro other absent m found t inside
    rw [get?_flatten] at found
    split at found
    · obtain ⟨old, before, rfl⟩ := Option.map_eq_some_iff.mp found
      have clear := forall_mem_settled (persistent_clear _) (stage.closed declared)
        (ready old (here ▸ before))
      exact (clear t inside).tail
    case isFalse different =>
      have old : other ∉ name :: rest := List.not_mem_cons_of_ne_of_not_mem different absent
      exact (stage.after other old m found t inside).tail

/-- An order in which each active macro follows those that its body calls. -/
structure Scheduled (plain : Table) (active done order : List String) : Prop where
  ordered : Ordered plain.dependencies active done order
  known : ∀ name ∈ active, name ∈ plain.names

theorem Scheduled.clear {active done rest : List String}
    (scheduled : Scheduled plain active done (name :: rest)) {m : Macro}
    (found : plain.get? name = some m) : ∀ t ∈ m.body, Clear (name :: rest) t := by
  intro t inside command waits
  have active := scheduled.ordered.mem_active t.value waits
  have depends : t.value ∈ plain.dependencies name :=
    Table.mem_dependencies.mpr ⟨⟨m, found, t, inside, command, rfl⟩, scheduled.known _ active⟩
  refine scheduled.ordered.not_mem_done t.value waits ?_
  cases scheduled.ordered with
  | cons _ _ after _ => exact after t.value depends active

/-- Flattening macros in such an order takes a table from stage to stage, and changes nothing for
what calls none of the macros that were pending. -/
theorem Stage.run {active done before rest : List String}
    (scheduled : Scheduled plain active done (before ++ rest)) (declared : plain.Declared)
    (stage : Stage plain (before ++ rest) table) :
    Stage plain rest (before.foldl flatten table) ∧
      ∀ body, (∀ t ∈ body, Clear (before ++ rest) t) →
        expand (before.foldl flatten table) body = expand table body := by
  induction before generalizing table done with
  | nil => exact ⟨stage, fun _ _ => rfl⟩
  | cons name before ih =>
    obtain ⟨ordered, known⟩ := id scheduled
    cases ordered with
    | cons member new after more =>
      have once : name ∉ before ++ rest := fun again =>
        more.not_mem_done name again List.mem_cons_self
      have next := stage.step declared (fun m found => scheduled.clear found) once
      obtain ⟨last, unchanged⟩ := ih ⟨more, known⟩ next
      refine ⟨last, fun body clear => ?_⟩
      rw [List.foldl_cons, unchanged body fun t inside => (clear t inside).tail]
      exact stage.expand_flatten declared clear

theorem Stage.flattens (stage : Stage plain [] table) : Flattens table plain :=
  ⟨stage.names, fun name => stage.done name List.not_mem_nil⟩

/-! ### What a flattening is -/

theorem Flattens.declared (flattens : Flattens flat plain) (declared : plain.Declared) :
    flat.Declared := by
  intro name m found
  rw [flattens.get?] at found
  obtain ⟨old, before, rfl⟩ := Option.map_eq_some_iff.mp found
  exact declared name old before

/-- The bodies of a flattening call only what the bodies that were read depend on, and have the
properties of these that last. -/
theorem Flattens.forall_mem_body (flattens : Flattens flat plain) (declared : plain.Declared)
    (acyclic : ∀ name, ¬ plain.OnCycle name) (persistent : Persistent Q)
    (holds : ∀ name m, plain.get? name = some m → ∀ t ∈ m.body, Q t) (name : String) :
    ∀ m, flat.get? name = some m → ∀ t ∈ m.body,
      Q t ∧ (t.isCommand = true → TransGen plain.Calls name t.value) := by
  induction name using Table.call_induction acyclic with
  | step name ih =>
    intro m found
    rw [flattens.get?] at found
    obtain ⟨old, before, rfl⟩ := Option.map_eq_some_iff.mp found
    refine forall_mem_settled
      (persistent.and (lasting_command.persistent (TransGen plain.Calls name))) ?_ ?_
    · rintro t called ⟨_, reached⟩ call
      obtain ⟨command, found, _⟩ := Table.callee?_eq_some.mp call
      refine ⟨fun u inside => ?_, by simp [(flattens.declared declared _ _ found).1]⟩
      obtain ⟨here, further⟩ := ih t.value (reached command) called found u inside
      exact ⟨here, fun command' => (reached command).trans (further command')⟩
    · intro t inside
      exact ⟨holds name old before t inside,
        fun command => .single ⟨old, before, t, inside, command, rfl⟩⟩

/-- Tables without cycles that hold the same bodies have the same flattening, whatever the order of
their macros. -/
theorem Flattens.unique {others : Table} (flattens : Flattens flat plain)
    (again : Flattens other others) (declared : plain.Declared)
    (acyclic : ∀ name, ¬ plain.OnCycle name) (same : ∀ name, others.get? name = plain.get? name)
    (name : String) : other.get? name = flat.get? name := by
  have contains : ∀ name, flat.contains name = other.contains name := by
    intro name
    rw [Bool.eq_iff_iff, Registry.contains_iff, Registry.contains_iff, flattens.names, again.names,
      Registry.mem_names_iff, Registry.mem_names_iff, same]
  induction name using Table.call_induction acyclic with
  | step name ih =>
    rw [again.get?, flattens.get?, same]
    refine Option.map_congr fun m found => ?_
    have agree : flat.settled m.body = other.settled m.body := by
      refine settled_congr (expand_congr (lasting_command.persistent (TransGen plain.Calls name))
        ?_ ?_ contains fun t inside command => .single ⟨m, found, t, inside, command, rfl⟩)
      · intro t called reached call
        obtain ⟨command, found, _⟩ := Table.callee?_eq_some.mp call
        refine ⟨fun u inside command' => ?_, by simp [(flattens.declared declared _ _ found).1]⟩
        have reads := flattens.forall_mem_body declared acyclic
          (lasting_command.persistent fun _ => True) (by simp) t.value called found u inside
        exact (reached command).trans (reads.2 command')
      · intro t reached
        by_cases command : t.isCommand = true
        · exact callee?_congr (ih t.value (reached command)).symm
        · simp [Table.callee?, command]
    rw [agree]

end TexFormula.Macro
