import TexFormula.Formula
import TexFormula.Proofs.Macro.Completeness
import TexFormula.Proofs.Macro.Locality
import TexFormula.Proofs.Token.Thinning

/-! Macros of two readings. Macros go together if their bodies do, and tables if they bind every
name that tokens mention to macros that go together. Expanding with such tables goes the same way in
both readings: the same calls are found, their arguments go together, and so do the rounds
(`alike_expand`). -/
namespace TexFormula
open Queue Token

/-- A name that a command in one of the readings can have. -/
def Difference.Names (D : Difference) (name : String) : Prop :=
  ∃ t, D.holds t ∧ t.kind.command = true ∧ t.value = name

/-- A name that a definition in one of the readings can bind. -/
def Difference.Binds (D : Difference) (name : String) : Prop :=
  ∃ t, D.holds t ∧ t.isCommand = true ∧ t.value = name

theorem Difference.Binds.names {D : Difference} {name : String} (binds : D.Binds name) :
    D.Names name := by
  obtain ⟨t, holds, command, value⟩ := binds
  simp only [isCommand, Bool.and_eq_true] at command
  exact ⟨t, holds, command.1, value⟩

/-- Macros of two readings. -/
structure Macro.Alike (D : Difference) (m m' : Macro) : Prop where
  body : Thins D False m.body m'.body
  optional : Option.Rel (Thins D False) m.optional m'.optional
  arity : m.arity = m'.arity
  inFormula : m.inFormula = m'.inFormula

/-- Tables that bind every name that a command can have to macros that `R` relates. -/
def Macro.Table.Related (D : Difference) (R : Macro → Macro → Prop) (table table' : Macro.Table) :
    Prop :=
  ∀ name, D.Names name → Option.Rel R (table.get? name) (table'.get? name)

/-- Tables of known macros in two readings. -/
structure Macro.Table.Alike (D : Difference) (table table' : Macro.Table) : Prop where
  related : table.Related D (Macro.Alike D) table'
  same : D.macros ∨ table = table'

/-- The queues of pieces at the ends of two lists, which are cut in the same places. -/
def Queue.Behind (D : Difference) (ends : Prop) (base base' : List Token) (q q' : Queue) : Prop :=
  ∃ l l', q = ofTokens l ∧ q' = ofTokens l' ∧ l <:+ base ∧ l' <:+ base' ∧ Aligned D ends l l'

namespace Macro

variable {D : Difference} {ends : Prop} {t t' : Token} {l l' base base' : List Token}
  {q q' : Queue} {m m' : Macro} {table table' : Table} {name : String}
  {arguments arguments' : List (List Token)}

namespace Alike

/-- Where no comments are missing the macros are the same. -/
theorem eq (alike : Macro.Alike D m m') (complete : ¬ D.comments) : m = m' := by
  obtain ⟨body, optional, arity, inFormula⟩ := alike
  obtain ⟨tokens, preset, count, defined⟩ := m
  obtain ⟨tokens', preset', count', defined'⟩ := m'
  cases body.eq complete
  cases arity
  cases inFormula
  cases optional with
  | none => rfl
  | some thins => cases thins.eq complete; rfl

/-- What all tokens have in common is true of what macros store. -/
theorem holds (alike : Macro.Alike D m m') : (∀ t ∈ m'.body, D.holds t) ∧
    ∀ preset ∈ m'.optional, ∀ t ∈ preset, D.holds t := by
  refine ⟨alike.body.holds, ?_⟩
  have presets := alike.optional
  generalize m.optional = preset at presets
  generalize m'.optional = preset' at presets ⊢
  cases presets with
  | none => exact nofun
  | some thins =>
    rintro _ ⟨⟩
    exact thins.holds

end Alike

/-- A macro goes together with itself if its tokens are like all others. -/
theorem alike_self (body : ∀ t ∈ m.body, D.holds t)
    (optional : ∀ preset ∈ m.optional, ∀ t ∈ preset, D.holds t) : Macro.Alike D m m := by
  refine ⟨.refl body, ?_, rfl, rfl⟩
  cases given : m.optional with
  | none => exact .none
  | some preset => exact .some (.refl (optional preset given))

/-- A table goes together with itself if all tokens of its macros are like all others. -/
theorem Table.alike_self (known : ∀ name m, table.get? name = some m → Macro.Alike D m m) :
    Table.Alike D table table where
  related name _ := by
    cases found : table.get? name with
    | none => exact .none
    | some m => exact .some (known name m found)
  same := .inr rfl

namespace Table.Related

variable {R : Macro → Macro → Prop} (tables : table.Related D R table') (names : D.Names name)
include tables names

theorem contains_eq : table.contains name = table'.contains name := by
  have bound := tables name names
  rw [Bool.eq_iff_iff, Registry.contains_iff, Registry.contains_iff, Registry.mem_names_iff,
    Registry.mem_names_iff]
  generalize table.get? name = found at bound
  generalize table'.get? name = found' at bound
  cases bound with
  | none => rfl
  | some => simp

/-- Macros of a sort are known by the same names. -/
theorem filter {p : Macro → Bool} (blind : ∀ m m', R m m' → p m = p m') :
    Option.Rel R ((table.get? name).filter p) ((table'.get? name).filter p) := by
  have bound := tables name names
  generalize table.get? name = found at bound
  generalize table'.get? name = found' at bound
  cases bound with
  | none => exact .none
  | @some m m' alike =>
    rw [Option.filter_some, Option.filter_some, blind m m' alike]
    split
    · exact .some alike
    · exact .none

end Table.Related

namespace Table.Alike

theorem insert (tables : Table.Alike D table table') (alike : Macro.Alike D m m')
    (name : String) :
    Table.Alike D (Registry.insert table name m) (Registry.insert table' name m') where
  related other names := by
    rw [Registry.get?_insert, Registry.get?_insert]
    split
    · exact .some alike
    · exact tables.related other names
  same := by
    by_cases complete : D.comments
    · exact .inl (D.stored complete)
    · exact tables.same.imp_right fun same => by rw [same, alike.eq complete]

theorem callee? (tables : Table.Alike D table table') (alike : Token.Alike D t t') :
    Option.Rel (Macro.Alike D) (table.callee? t) (table'.callee? t') := by
  unfold Table.callee?
  rw [← alike.eq_of_blind (f := Token.isCommand) fun _ => rfl, ← alike.value]
  split
  case isTrue command =>
    refine tables.related.filter ⟨t, alike.holds, ?_, rfl⟩ fun m m' alike => by
      rw [alike.inFormula]
    simp only [isCommand, Bool.and_eq_true] at command
    exact command.1
  case isFalse => exact .none

end Table.Alike

/-! ### Arguments -/

theorem unconses_behind : Unconses D (Queue.Behind D ends base base') := by
  rintro q q' ⟨l, l', rfl, rfl, suffix, suffix', aligned⟩
  have behind : ∀ {t : Token} {l base : List Token} (n : Nat), t :: l <:+ base →
      l.drop n <:+ base := fun n suffix =>
    (List.drop_suffix n _).trans ((List.suffix_cons _ _).trans suffix)
  cases aligned with
  | nil =>
    rw [ofTokens]
    exact .nil
  | drop _ comment _ more =>
    rw [ofTokens_comment comment]
    exact .drop rfl ⟨_, _, rfl, rfl, behind 0 suffix, suffix', more⟩
  | keep alike kind whole inner rest more =>
    rw [ofTokens_cons, ofTokens_cons]
    exact .cons (alike_cut alike kind whole inner)
      ⟨_, _, rfl, rfl, behind _ suffix, behind _ suffix', rest⟩

section Arguments
variable {R : Queue → Queue → Prop} (uncons : Unconses D R)
include uncons

theorem alike_takeArguments (n : Nat) (related : R q q') :
    List.Forall₂ (Thins D False) (takeArguments n q).1 (takeArguments n q').1 ∧
      R (takeArguments n q).2 (takeArguments n q').2 := by
  induction n generalizing q q' with
  | zero => exact ⟨.nil, related⟩
  | succ n ih =>
    obtain ⟨found, left⟩ := taken_popArgument uncons related
    unfold takeArguments
    cases one : q.popArgument with
    | mk first behind =>
      cases other : q'.popArgument with
      | mk first' behind' =>
        rw [one, other] at found left
        cases found with
        | none => exact ⟨.nil, left⟩
        | @some e e' alike =>
          have closes : closesOutside e = closesOutside e' := by
            have outside : (e.first.offset != 0) = (e'.first.offset != 0) := by
              rw [Bool.eq_iff_iff]
              simpa using not_congr alike.first.alone
            rw [closesOutside, closesOutside, alike.kind, alike.first.kind, outside]
          simp only [← closes]
          split
          · exact ⟨.nil, left⟩
          · obtain ⟨others, rest⟩ := ih left
            exact ⟨.cons alike.argument.thins others, rest⟩

theorem alike_takeOptional (alike : Macro.Alike D m m') (related : R q q') :
    List.Forall₂ (Thins D False) (m.takeOptional q).1 (m'.takeOptional q').1 ∧
      R (m.takeOptional q).2 (m'.takeOptional q').2 := by
  obtain ⟨found, left⟩ := taken_popOptions uncons related
  have presets := alike.optional
  unfold takeOptional
  cases given : m.optional <;> cases given' : m'.optional <;> rw [given, given'] at presets <;>
    cases presets
  · exact ⟨.nil, related⟩
  case some.some preset preset' thins =>
    simp only [← alike.arity]
    split
    · exact ⟨.nil, related⟩
    · cases one : q.popOptions with
      | mk first behind =>
        cases other : q'.popOptions with
        | mk first' behind' =>
          rw [one, other] at found left
          cases found with
          | none => exact ⟨.cons thins .nil, left⟩
          | some same => exact ⟨.cons same.inner.thins .nil, left⟩

/-- The arguments of a call go together, or both calls have too few of them. -/
theorem alike_collectArguments (name : String) (alike : Macro.Alike D m m') (related : R q q') :
    Outcome D (List.Forall₂ (Thins D False)) (m.collectArguments name q).1
        (m'.collectArguments name q').1 ∧
      R (m.collectArguments name q).2 (m'.collectArguments name q').2 := by
  obtain ⟨first, behind⟩ := alike_takeOptional uncons alike related
  obtain ⟨others, left⟩ :=
    alike_takeArguments uncons (m.arity - (m.takeOptional q).1.length) behind
  have together := List.rel_append first others
  have count := together.length_eq
  unfold collectArguments
  simp only [← alike.arity, ← first.length_eq, ← count]
  split
  · exact ⟨.error _, left⟩
  · exact ⟨.ok together, left⟩

end Arguments

/-! ### Bodies -/

/-- The same arguments are put in the place of a placeholder. -/
theorem alike_substituteToken (name : String) (alike : Token.Alike D t t')
    (given : List.Forall₂ (Thins D False) arguments arguments') :
    Outcome D (Thins D False) (substituteToken name arguments t)
      (substituteToken name arguments' t') := by
  have alone : Thins D False [t.unpaired] [t'.unpaired] := .keep alike.unpaired .nil
  unfold substituteToken
  rw [← alike.kind, ← alike.value]
  split
  · split
    · exact .error _
    · exact .ok alone
    case h_3 k _ =>
      have argument : Option.Rel (Thins D False) arguments[k]? arguments'[k]? := by
        by_cases known : k < arguments.length
        · have known' : k < arguments'.length := given.length_eq ▸ known
          rw [List.getElem?_eq_getElem known, List.getElem?_eq_getElem known']
          exact .some (given.get known known')
        · have size := given.length_eq
          rw [List.getElem?_eq_none (by omega), List.getElem?_eq_none (by omega)]
          exact .none
      cases one : arguments[k]? <;> cases other : arguments'[k]? <;>
        rw [one, other] at argument <;> cases argument
      · exact .ok alone
      case some.some thins => exact .ok thins.map_unpaired
  · exact .ok alone

theorem Gap.substitute (gap : TexFormula.Gap ends l) {expanded : List Token}
    (done : substitute name arguments l = .ok expanded) : TexFormula.Gap ends expanded := by
  cases l with
  | nil =>
    cases done
    exact gap
  | cons t rest =>
    have kind : t.kind = { whitespace := true } := gap
    have here : substituteToken name arguments t = .ok [t.unpaired] := by
      simp [substituteToken, kind]
    simp only [Macro.substitute, here, bind_eq_ok_iff] at done
    obtain ⟨_, first, others, later, result⟩ := done
    cases first
    cases result
    exact kind

theorem alike_substitute (name : String) (thins : Thins D False l l')
    (given : List.Forall₂ (Thins D False) arguments arguments') :
    Outcome D (Thins D False) (substitute name arguments l) (substitute name arguments' l') := by
  induction thins with
  | nil => exact .ok .nil
  | @drop c l l' allowed comment gap _ ih =>
    have here : substituteToken name arguments c = .ok [c.unpaired] := by
      simp [substituteToken, comment]
    have first : substitute name arguments (c :: l) =
        (substitute name arguments l >>= fun others => .ok (c.unpaired :: others)) := by
      rw [substitute, here]
      rfl
    rw [first]
    refine ih.known.bind_left fun expanded others known => ?_
    obtain ⟨done, thins⟩ := known
    exact .ok (.drop allowed comment (Gap.substitute gap done) thins)
  | keep alike _ ih =>
    rw [substitute, substitute]
    refine (alike_substituteToken name alike given).bind fun here here' first => ?_
    exact ih.bind fun others others' later => .ok (first.append later)

/-! ### Rounds -/

theorem Gap.expandRound (gap : TexFormula.Gap ends l) {round : List Token × Bool}
    (done : expandRound table l = .ok round) : TexFormula.Gap ends round.1 := by
  cases l with
  | nil =>
    rw [Macro.expandRound] at done
    cases done
    exact gap
  | cons t rest =>
    have kind : t.kind = { whitespace := true } := gap
    have uncalled : table.callee? t = none := by simp [Table.callee?, isCommand, kind]
    simp only [Macro.expandRound, uncalled, bind_eq_ok_iff] at done
    obtain ⟨others, later, result⟩ := done
    cases result
    exact kind

/-- The arguments of a call that is followed by tokens go together, and so do the tokens that the
call leaves. -/
theorem alike_callRest (name : String) (alike : Macro.Alike D m m') (aligned : Aligned D ends l l') :
    let taken := m.collectArguments name (ofTokens l)
    let taken' := m'.collectArguments name (ofTokens l')
    Outcome D (List.Forall₂ (Thins D False)) taken.1 taken'.1 ∧
      Aligned D ends (l.drop (l.length - taken.2.weight))
        (l'.drop (l'.length - taken'.2.weight)) := by
  have whole : Queue.Behind D ends l l' (ofTokens l) (ofTokens l') :=
    ⟨l, l', rfl, rfl, List.suffix_rfl, List.suffix_rfl, aligned⟩
  obtain ⟨given, left, left', behind, behind', suffix, suffix', aligned⟩ :=
    alike_collectArguments unconses_behind name alike whole
  refine ⟨given, ?_⟩
  rw [behind, behind', weight_ofTokens, weight_ofTokens, ← List.suffix_iff_eq_drop.mp suffix,
    ← List.suffix_iff_eq_drop.mp suffix']
  exact aligned

/-- A round replaces the same calls. -/
theorem alike_expandRound (tables : Table.Alike D table table') (aligned : Aligned D ends l l') :
    Outcome D (fun round round' => Thins D ends round.1 round'.1 ∧ round.2 = round'.2)
      (expandRound table l) (expandRound table' l') := by
  induction l using expandRound.induct table generalizing l' with
  | case1 =>
    cases aligned
    rw [expandRound, expandRound]
    exact .ok ⟨.nil, rfl⟩
  | case2 t rest uncalled ih =>
    cases aligned with
    | drop allowed comment gap more =>
      have first : expandRound table (t :: rest) =
          (expandRound table rest >>= fun others => .ok (t.unpaired :: others.1, others.2)) := by
        rw [expandRound, uncalled]
        rfl
      rw [first]
      refine (ih more).known.bind_left fun round round' known => ?_
      obtain ⟨done, thins, called⟩ := known
      exact .ok ⟨.drop allowed comment (Gap.expandRound gap done) thins, called⟩
    | @keep _ _ t' _ rest' alike _ _ _ _ more =>
      have found := tables.callee? alike
      rw [uncalled] at found
      have uncalled' : table'.callee? t' = none := by
        generalize table'.callee? t' = found' at found
        cases found
        rfl
      rw [expandRound, expandRound, uncalled, uncalled']
      exact (ih more).bind fun others others' related =>
        .ok ⟨.keep alike.unpaired related.1, related.2⟩
  | case3 t rest m called taken =>
    rename_i ih
    cases aligned with
    | drop _ comment =>
      have uncalled : table.callee? t = none := by simp [Table.callee?, isCommand, comment]
      cases uncalled.symm.trans called
    | @keep _ _ t' _ rest' alike _ _ _ _ more =>
      have found := tables.callee? alike
      rw [called] at found
      obtain ⟨m', called', same⟩ : ∃ m', table'.callee? t' = some m' ∧ Macro.Alike D m m' := by
        generalize table'.callee? t' = found' at found
        cases found with
        | some same => exact ⟨_, rfl, same⟩
      obtain ⟨given, left⟩ := alike_callRest t.value same more
      rw [expandRound, expandRound, called, called', ← alike.value]
      simp only
      refine given.bind fun arguments arguments' given => ?_
      refine (alike_substitute t.value same.body given).bind fun here here' first => ?_
      exact (ih left).bind fun others others' related => .ok ⟨first.append related.1, rfl⟩

theorem firstCall_eq (tables : Table.Alike D table table') (thins : Thins D ends l l') :
    firstCall table l = firstCall table' l' := by
  have same : (l.find? fun t => t.kind.command && table.contains t.value).map (·.value) =
      (l'.find? fun t => t.kind.command && table'.contains t.value).map (·.value) := by
    induction thins with
    | nil => rfl
    | drop _ comment _ _ ih =>
      rw [List.find?_cons_of_neg (by simp [comment])]
      exact ih
    | @keep t t' l l' alike _ ih =>
      have agree : (t.kind.command && table.contains t.value) =
          (t'.kind.command && table'.contains t'.value) := by
        rw [← alike.kind, ← alike.value]
        cases command : t.kind.command with
        | false => rfl
        | true => rw [tables.related.contains_eq ⟨t, alike.holds, command, rfl⟩]
      simp only [List.find?_cons, ← agree]
      split
      · exact congrArg some alike.value
      · exact ih
  rw [firstCall, firstCall, same]

theorem alike_expandRounds (tables : Table.Alike D table table') (n : Nat)
    (aligned : Aligned D ends l l') :
    Outcome D (Aligned D ends) (expandRounds table n l) (expandRounds table' n l') := by
  induction n generalizing l l' with
  | zero =>
    rw [expandRounds, expandRounds, firstCall_eq tables aligned.thins]
    exact .error _
  | succ n ih =>
    rw [expandRounds, expandRounds]
    refine (alike_expandRound tables aligned).bind fun round round' related => ?_
    rw [← related.2]
    split
    · exact related.1.prepare.bind fun prepared prepared' again => ih again
    · exact .ok aligned

/-- Tokens are expanded in the same way. -/
theorem alike_expand (tables : Table.Alike D table table') (aligned : Aligned D ends l l') :
    Outcome D (Aligned D ends) (expand table l) (expand table' l') := by
  rw [expand_eq_expandRounds, expand_eq_expandRounds]
  exact alike_expandRounds tables maxDepth aligned

end Macro

/-- What a call stands for goes together in both readings. -/
theorem Scope.alike_callTokens {D : Difference} {s s' : Scope} {m m' : Macro}
    {arguments arguments' : Except Error (List (List Token))}
    (tables : Macro.Table.Alike D s.macros s'.macros) (name : String) (alike : Macro.Alike D m m')
    (given : Outcome D (List.Forall₂ (Thins D False)) arguments arguments') :
    Outcome D (Aligned D False) (s.callTokens name m arguments)
      (s'.callTokens name m' arguments') := by
  unfold Scope.callTokens
  refine given.bind fun arguments arguments' given => ?_
  refine (Macro.alike_substitute name alike.body given).bind fun tokens tokens' thins => ?_
  exact thins.prepare.bind fun prepared prepared' aligned => Macro.alike_expand tables aligned

end TexFormula
