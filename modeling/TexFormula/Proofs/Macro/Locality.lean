import TexFormula.Macro.Declaration
import TexFormula.Proofs.Macro.Arguments
import TexFormula.Proofs.Token.Persistence

/-! Locality of expansion. An expansion reads the bodies of those macros only that its tokens call,
directly or through these bodies: two tables that agree on them give the same result. What is true
of the tokens and of the bodies they call is true of the result, if it lasts through preparation. -/
namespace TexFormula.Macro
open Token

/-- The bodies that tokens with a property call have no tokens without it. -/
def Table.Closed (table : Table) (Q : Token → Prop) : Prop :=
  ∀ t m, Q t → table.callee? t = some m →
    (∀ u ∈ m.body, Q u) ∧ ∀ preset ∈ m.optional, ∀ u ∈ preset, Q u

variable {Q : Token → Prop} {table other : Table} {tokens : List Token}

/-! ### What lasts -/

theorem forall_mem_substituteToken (persistent : Persistent Q) {name : String}
    {arguments : List (List Token)} {t : Token} {expanded : List Token} (here : Q t)
    (given : ∀ a ∈ arguments, ∀ u ∈ a, Q u)
    (done : substituteToken name arguments t = .ok expanded) : ∀ u ∈ expanded, Q u := by
  have alone : ∀ u ∈ [t.unpaired], Q u :=
    List.forall_mem_singleton.mpr (persistent.unpaired (t := t) rfl here)
  unfold substituteToken at done
  split at done
  · split at done
    · cases done
    · cases done
      exact alone
    · split at done
      case h_1 a found =>
        cases done
        exact persistent.map_unpaired (given a (List.mem_of_getElem? found))
      case h_2 =>
        cases done
        exact alone
  · cases done
    exact alone

theorem forall_mem_substitute (persistent : Persistent Q) {name : String}
    {arguments : List (List Token)} {body expanded : List Token} (holds : ∀ t ∈ body, Q t)
    (given : ∀ a ∈ arguments, ∀ u ∈ a, Q u)
    (done : substitute name arguments body = .ok expanded) : ∀ u ∈ expanded, Q u := by
  induction body generalizing expanded with
  | nil => cases done; simp
  | cons t rest ih =>
    obtain ⟨here, later⟩ := List.forall_mem_cons.mp holds
    simp only [substitute, bind_eq_ok_iff] at done
    obtain ⟨first, now, others, after, result⟩ := done
    cases result
    exact List.forall_mem_append.mpr
      ⟨forall_mem_substituteToken persistent here given now, ih later after⟩

/-- A round keeps a property of tokens that the called bodies have too. -/
theorem forall_mem_expandRound (persistent : Persistent Q) (closed : table.Closed Q)
    {round : List Token × Bool} (holds : ∀ t ∈ tokens, Q t)
    (done : expandRound table tokens = .ok round) : ∀ t ∈ round.1, Q t := by
  induction tokens using expandRound.induct table generalizing round with
  | case1 =>
    rw [expandRound] at done
    cases done
    exact holds
  | case2 t rest uncalled ih =>
    obtain ⟨here, later⟩ := List.forall_mem_cons.mp holds
    simp only [expandRound, uncalled, bind_eq_ok_iff] at done
    obtain ⟨others, ran, result⟩ := done
    cases result
    exact List.forall_mem_cons.mpr ⟨persistent.unpaired (t := t) rfl here, ih later ran⟩
  | case3 t rest m called taken =>
    rename_i ih
    obtain ⟨here, later⟩ := List.forall_mem_cons.mp holds
    simp only [expandRound, called, bind_eq_ok_iff] at done
    obtain ⟨arguments, collected, expanded, substituted, others, ran, result⟩ := done
    cases result
    obtain ⟨body, presets⟩ := closed t m here called
    have given : ∀ a ∈ arguments, ∀ u ∈ a, Q u := by
      intro a member u inside
      rcases infix_of_mem_collectArguments collected a member with piece | preset
      · exact later u (piece.subset inside)
      · exact presets a preset u inside
    exact List.forall_mem_append.mpr ⟨forall_mem_substitute persistent body given substituted,
      ih (fun u member => later u (List.mem_of_mem_drop member)) ran⟩

/-! ### What is not called -/

/-- Without a call a round only takes the partners away. -/
theorem expandRound_of_uncalled (uncalled : ∀ t ∈ tokens, table.callee? t = none) :
    expandRound table tokens = .ok (tokens.map Token.unpaired, false) := by
  induction tokens with
  | nil => rw [expandRound]; rfl
  | cons t rest ih =>
    obtain ⟨here, later⟩ := List.forall_mem_cons.mp uncalled
    simp only [expandRound, here, ih later]
    rfl

/-- A round that reports no call found none. -/
theorem uncalled_of_expandRound {round : List Token × Bool}
    (done : expandRound table tokens = .ok round) (quiet : round.2 = false) :
    ∀ t ∈ tokens, table.callee? t = none := by
  induction tokens using expandRound.induct table generalizing round with
  | case1 => simp
  | case2 t rest uncalled ih =>
    simp only [expandRound, uncalled, bind_eq_ok_iff] at done
    obtain ⟨others, ran, result⟩ := done
    cases result
    exact List.forall_mem_cons.mpr ⟨uncalled, ih ran quiet⟩
  | case3 t rest m called taken =>
    simp only [expandRound, called, bind_eq_ok_iff] at done
    obtain ⟨_, _, _, _, _, _, result⟩ := done
    cases result
    cases quiet

theorem expandRounds_of_uncalled (n : Nat) (uncalled : ∀ t ∈ tokens, table.callee? t = none) :
    expandRounds table (n + 1) tokens = .ok tokens := by
  rw [expandRounds, expandRound_of_uncalled uncalled]
  rfl

/-! ### Rounds -/

/-- Rounds that come to an end either go on behind a first one, with the list that it leaves made
ready again, or they keep the list because nothing is called. -/
theorem expandRounds_cases {n : Nat} {expanded : List Token}
    (done : expandRounds table (n + 1) tokens = .ok expanded) :
    (∃ round prepared, expandRound table tokens = .ok round ∧ prepare round.1 = .ok prepared ∧
        expandRounds table n prepared = .ok expanded) ∨
      (expanded = tokens ∧ ∀ t ∈ tokens, table.callee? t = none) := by
  simp only [expandRounds, bind_eq_ok_iff] at done
  obtain ⟨round, ran, done⟩ := done
  split at done
  · obtain ⟨prepared, again, done⟩ := bind_eq_ok_iff.mp done
    exact .inl ⟨round, prepared, ran, again, done⟩
  case isFalse quiet =>
    cases done
    exact .inr ⟨rfl, uncalled_of_expandRound ran (by simpa using quiet)⟩

/-- What every round keeps is true of the list that the rounds end with. -/
theorem expandRounds_invariant {P : List Token → Prop}
    (step : ∀ before round prepared, P before → expandRound table before = .ok round →
      prepare round.1 = .ok prepared → P prepared) {n : Nat} {expanded : List Token}
    (start : P tokens) (done : expandRounds table n tokens = .ok expanded) : P expanded := by
  induction n generalizing tokens with
  | zero => cases done
  | succ n ih =>
    rcases expandRounds_cases done with ⟨round, prepared, ran, again, done⟩ | ⟨rfl, -⟩
    · exact ih (step tokens round prepared start ran again) done
    · exact start

theorem forall_mem_expandRounds (persistent : Persistent Q) (closed : table.Closed Q) {n : Nat}
    {expanded : List Token} (holds : ∀ t ∈ tokens, Q t)
    (done : expandRounds table n tokens = .ok expanded) : ∀ t ∈ expanded, Q t :=
  expandRounds_invariant (P := fun list => ∀ t ∈ list, Q t)
    (fun _ _ _ before ran again =>
      persistent.prepare (forall_mem_expandRound persistent closed before ran) again) holds done

/-- Rounds end when nothing is called any more. -/
theorem uncalled_of_expandRounds {n : Nat} {expanded : List Token}
    (done : expandRounds table n tokens = .ok expanded) :
    ∀ t ∈ expanded, table.callee? t = none := by
  induction n generalizing tokens with
  | zero => cases done
  | succ n ih =>
    rcases expandRounds_cases done with ⟨_, _, _, _, done⟩ | ⟨rfl, uncalled⟩
    · exact ih done
    · exact uncalled

/-- A table without declared macros is no special case. -/
theorem expand_eq_expandRounds (table : Table) (tokens : List Token) :
    expand table tokens = expandRounds table maxDepth tokens := by
  unfold expand
  split
  case isTrue undeclared =>
    have uncalled : ∀ t ∈ tokens, table.callee? t = none := by
      intro t _
      refine Option.eq_none_iff_forall_ne_some.mpr fun m called => ?_
      obtain ⟨_, found, declared⟩ := Table.callee?_eq_some.mp called
      have inside := List.all_eq_true.mp undeclared _ (Entries.mem_of_lookup found)
      rw [declared] at inside
      cases inside
    exact (expandRounds_of_uncalled 63 uncalled).symm
  case isFalse => rfl

theorem expand_of_uncalled (uncalled : ∀ t ∈ tokens, table.callee? t = none) :
    expand table tokens = .ok tokens := by
  rw [expand_eq_expandRounds]
  exact expandRounds_of_uncalled 63 uncalled

/-- A token calls no declared macro if it is no command, or a command without a macro, or one whose
macro a formula defines. -/
theorem callee?_eq_none_iff {t : Token} :
    table.callee? t = none ↔
      (t.isCommand = true → ∀ m, table.get? t.value = some m → m.inFormula = true) := by
  rw [Option.eq_none_iff_forall_ne_some]
  simp only [ne_eq, Table.callee?_eq_some]
  grind

/-! ### What is read -/

theorem expandRound_congr (same : ∀ t ∈ tokens, table.callee? t = other.callee? t) :
    expandRound table tokens = expandRound other tokens := by
  induction tokens using expandRound.induct table with
  | case1 => rw [expandRound, expandRound]
  | case2 t rest uncalled ih =>
    obtain ⟨here, later⟩ := List.forall_mem_cons.mp same
    simp only [expandRound, uncalled, here.symm.trans uncalled, ih later]
  | case3 t rest m called taken =>
    rename_i ih
    obtain ⟨here, later⟩ := List.forall_mem_cons.mp same
    simp only [expandRound, called, here.symm.trans called]
    rw [ih fun u member => later u (List.mem_of_mem_drop member)]

theorem firstCall_congr (names : ∀ name, table.contains name = other.contains name)
    (tokens : List Token) : firstCall table tokens = firstCall other tokens := by
  simp only [firstCall, names]

/-- Rounds with tables that agree on the macros that are called go together, if they do so where no
round is left. -/
theorem expandRounds_related {R : Except Error (List Token) → Except Error (List Token) → Prop}
    (persistent : Persistent Q) (closed : table.Closed Q)
    (same : ∀ t, Q t → table.callee? t = other.callee? t) (refl : ∀ result, R result result)
    (last : ∀ tokens, R (expandRounds table 0 tokens) (expandRounds other 0 tokens)) (n : Nat)
    (holds : ∀ t ∈ tokens, Q t) : R (expandRounds table n tokens) (expandRounds other n tokens) := by
  induction n generalizing tokens with
  | zero => exact last tokens
  | succ n ih =>
    rw [expandRounds, expandRounds, ← expandRound_congr fun t member => same t (holds t member)]
    cases ran : expandRound table tokens with
    | error e => exact refl _
    | ok round =>
      have kept := forall_mem_expandRound persistent closed holds ran
      simp only [bind, Except.bind]
      split
      · cases again : prepare round.1 with
        | error e => exact refl _
        | ok prepared => exact ih (persistent.prepare kept again)
      · exact refl _

/-- Tables that agree on the macros that are called expand tokens in the same way. -/
theorem expandRounds_congr (persistent : Persistent Q) (closed : table.Closed Q)
    (same : ∀ t, Q t → table.callee? t = other.callee? t)
    (names : ∀ name, table.contains name = other.contains name) (n : Nat)
    (holds : ∀ t ∈ tokens, Q t) : expandRounds table n tokens = expandRounds other n tokens := by
  refine expandRounds_related persistent closed same (fun _ => rfl) (fun tokens => ?_) n holds
  rw [expandRounds, expandRounds, firstCall_congr names]

end TexFormula.Macro
