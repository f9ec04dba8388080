import TexFormula.Proofs.Expr.Spans
import TexFormula.Proofs.Macro.Locality
import TexFormula.Proofs.Macro.Unfolding
import TexFormula.Proofs.Token.Settled

/-! Rounds over complete lists. In a paired list a complete call finds its arguments where its shape
says they are. So a round keeps a list complete, and the list goes on to stand for what it stood
for: if the rounds come to an end, they end with what the list unfolds to. -/
namespace TexFormula.Macro
open Token Pairing

variable {table : Table} {t opener closer : Token} {m : Macro} {n : Nat}
  {tokens front inner rest after expanded : List Token} {arguments : List (List Token)}

/-! ### Arguments -/

/-- A group in a paired list is one expression. -/
theorem ofTokens_group (paired : Paired (opener :: (inner ++ closer :: rest)))
    (braces : Braces opener closer) (nested : Nested (wordOf Family.curly.mark? inner)) :
    Queue.ofTokens (opener :: (inner ++ closer :: rest)) =
      ⟨.group, opener, inner ++ [closer]⟩ :: Queue.ofTokens rest := by
  obtain ⟨name, close, behind, split, nested', closes, offset⟩ :=
    paired.spanned [] opener _ rfl braces.opens
  obtain ⟨rfl, rfl, rfl⟩ := append_closer_unique split nested nested' braces.mark?_closer
    (Family.mark?_eq_closes.mpr ⟨closes, rfl⟩)
  exact Queue.ofTokens_curly braces.solid.1 braces.curly offset

/-- A token that is no delimiter is an expression by itself. -/
theorem ofTokens_bare (paired : Paired (t :: rest)) (bare : Bare t) :
    Queue.ofTokens (t :: rest) = ⟨.single, t, []⟩ :: Queue.ofTokens rest :=
  Queue.ofTokens_alone bare.solid (paired.alone t List.mem_cons_self bare.single.1 bare.single.2)

/-- In a paired list the arguments are where the shape of the list says they are. -/
theorem takeArguments_of_takes (takes : Takes n rest arguments after) (paired : Paired rest) :
    takeArguments n (Queue.ofTokens rest) = (arguments, Queue.ofTokens after) := by
  induction takes with
  | done => rfl
  | @blank n t rest arguments after blank _ _ _ ih =>
    rw [← ih (@Paired.suffix rest [t] paired), takeArguments, takeArguments,
      Queue.popArgument_blank blank]
  | @group n opener inner closer rest arguments after braces nested _ ih =>
    have behind : Paired rest := by
      refine @Paired.suffix rest (opener :: (inner ++ [closer])) ?_
      simpa using paired
    have popped : (Queue.ofTokens (opener :: (inner ++ closer :: rest))).popArgument =
        (some ⟨.group, opener, inner ++ [closer]⟩, Queue.ofTokens rest) := by
      rw [ofTokens_group paired braces nested]
      rfl
    have argument : (⟨.group, opener, inner ++ [closer]⟩ : Expr).argument = inner :=
      List.dropLast_concat
    have inside : closesOutside ⟨.group, opener, inner ++ [closer]⟩ = false := rfl
    rw [takeArguments, popped]
    simp only [inside, Bool.false_eq_true, if_false, argument, ih behind]
  | @single n t rest arguments after bare _ ih =>
    have popped : (Queue.ofTokens (t :: rest)).popArgument =
        (some ⟨.single, t, []⟩, Queue.ofTokens rest) := by
      rw [ofTokens_bare paired bare]
      rfl
    have inside : closesOutside ⟨.single, t, []⟩ = false := by
      simp [closesOutside, bare.single.2]
    rw [takeArguments, popped]
    simp only [inside, Bool.false_eq_true, if_false, ih (@Paired.suffix rest [t] paired)]
    rfl

/-- A call in a complete list takes the arguments that follow it, and leaves what is behind them. -/
theorem collectArguments_of_takes (name : String) (required : m.optional = none)
    (takes : Takes m.arity rest arguments after) (paired : Paired rest) :
    (m.collectArguments name (Queue.ofTokens rest)).1 = .ok arguments ∧
      rest.drop (rest.length - (m.collectArguments name (Queue.ofTokens rest)).2.weight) =
        after := by
  have first : m.takeOptional (Queue.ofTokens rest) = ([], Queue.ofTokens rest) := by
    rw [takeOptional, required]
  have enough : ¬ arguments.length < m.arity := by rw [takes.length]; exact Nat.lt_irrefl _
  obtain ⟨front, rfl⟩ := takes.suffix
  have length : (front ++ after).length - after.length = front.length := by simp
  unfold collectArguments
  simp only [first, List.length_nil, Nat.sub_zero, takeArguments_of_takes takes paired,
    List.nil_append, if_neg enough, Queue.weight_ofTokens, length, List.drop_left, and_self]

/-! ### One round -/

/-- A list in which every call is complete and that preparation leaves in its place. -/
structure Orderly (table : Table) (tokens : List Token) : Prop where
  complete : Complete table tokens
  settled : ∀ t ∈ tokens, t.Settled

/-- A table of orderly bodies. No macro in it has an optional argument. -/
structure Table.Orderly (table : Table) : Prop where
  body : ∀ t m, table.callee? t = some m → Macro.Orderly table m.body
  coherent : ∀ t m, table.callee? t = some m → ∀ u ∈ m.body, u.kind.Coherent
  required : ∀ t m, table.callee? t = some m → m.optional = none

theorem expandRound_uncalled {round : List Token × Bool} (uncalled : table.callee? t = none)
    (done : expandRound table (t :: rest) = .ok round) :
    ∃ others, expandRound table rest = .ok others ∧ round.1 = t.unpaired :: others.1 := by
  rw [expandRound, uncalled] at done
  simp only [bind_eq_ok_iff] at done
  obtain ⟨others, ran, result⟩ := done
  cases result
  exact ⟨others, ran, rfl⟩

theorem expandRound_called {round : List Token × Bool} (called : table.callee? t = some m)
    (required : m.optional = none) (takes : Takes m.arity rest arguments after)
    (paired : Paired rest) (done : expandRound table (t :: rest) = .ok round) :
    ∃ others, expandRound table after = .ok others ∧
      round.1 = fill arguments m.body ++ others.1 := by
  obtain ⟨collected, left⟩ := collectArguments_of_takes t.value required takes paired
  rw [expandRound, called] at done
  simp only [bind_eq_ok_iff, collected, left] at done
  obtain ⟨_, given, expanded, substituted, others, ran, result⟩ := done
  cases given
  cases result
  exact ⟨others, ran, by rw [substitute_eq_fill substituted]⟩

/-- What a round makes of a complete list: one without pairs that stands for the same. -/
structure Rewrites (table : Table) (tokens result : List Token) : Prop where
  complete : Complete table result
  bare : result.map unpaired = result
  same : ∀ out, Unfolds table result out → Unfolds table tokens out

theorem Rewrites.token {result : List Token} (uncalled : table.callee? t = none)
    (plain : t.kind.curly = false) (rewrites : Rewrites table rest result) :
    Rewrites table (t :: rest) (t.unpaired :: result) := by
  refine ⟨.token uncalled plain rewrites.complete, by rw [List.map_cons, rewrites.bare]; rfl, ?_⟩
  intro out unfolds
  obtain ⟨more, rfl, later⟩ := (unfolds_token (t := t.unpaired) uncalled plain).mp unfolds
  exact .token uncalled plain (rewrites.same more later)

theorem Rewrites.group {within result : List Token} (braces : Braces opener closer)
    (inside : Rewrites table inner within) (rewrites : Rewrites table rest result) :
    Rewrites table (opener :: (inner ++ closer :: rest))
      (opener.unpaired :: (within ++ closer.unpaired :: result)) := by
  have braces' := braces_unpaired.mpr braces
  refine ⟨.group braces' inside.complete rewrites.complete, ?_, fun out unfolds => ?_⟩
  · rw [List.map_cons, List.map_append, List.map_cons, inside.bare, rewrites.bare]
    rfl
  · obtain ⟨first, more, rfl, front, later⟩ :=
      (unfolds_group braces' inside.complete.nested).mp unfolds
    exact .group braces (inside.same first front) (rewrites.same more later)

theorem Rewrites.call {result : List Token} (called : table.callee? t = some m)
    (plain : t.kind.curly = false) (takes : Takes m.arity rest arguments after)
    (filled : Complete table (fill arguments m.body)) (rewrites : Rewrites table after result) :
    Rewrites table (t :: rest) (fill arguments m.body ++ result) := by
  refine ⟨filled.append rewrites.complete, ?_, fun out unfolds => ?_⟩
  · rw [List.map_append, map_unpaired_fill, rewrites.bare]
  · obtain ⟨here, more, rfl, body, later⟩ := unfolds.split filled
    exact .call called plain takes body (rewrites.same more later)

/-- A round rewrites a complete list, whatever is behind it. -/
theorem expandRound_of_complete (orderly : table.Orderly) (complete : Complete table front)
    {round : List Token × Bool} (paired : Paired (front ++ rest))
    (done : expandRound table (front ++ rest) = .ok round) :
    ∃ result others, expandRound table rest = .ok others ∧ round.1 = result ++ others.1 ∧
      Rewrites table front result := by
  induction complete generalizing rest round with
  | nil => exact ⟨[], round, done, rfl, .nil, rfl, fun _ => id⟩
  | @token t front uncalled plain _ ih =>
    obtain ⟨behind, ran, here⟩ := expandRound_uncalled uncalled done
    obtain ⟨result, others, last, later, rewrites⟩ := ih (@Paired.suffix _ [t] paired) ran
    exact ⟨t.unpaired :: result, others, last, by rw [here, later]; rfl,
      rewrites.token uncalled plain⟩
  | @group opener inner closer front braces _ _ inside_ih ih =>
    -- The group is read up to its end first, with the rest of the list behind it.
    rw [List.cons_append, List.append_assoc, List.cons_append] at done paired
    obtain ⟨inside, ran_inside, opened⟩ := expandRound_uncalled braces.callee?_eq_none.1 done
    have paired_inside := @Paired.suffix _ [opener] paired
    obtain ⟨within, closing, ran_closing, filled, first⟩ := inside_ih paired_inside ran_inside
    obtain ⟨behind, ran, closed⟩ := expandRound_uncalled braces.callee?_eq_none.2 ran_closing
    obtain ⟨result, others, last, later, rewrites⟩ :=
      ih (@Paired.suffix _ [closer] paired_inside.suffix) ran
    refine ⟨_, others, last, ?_, first.group braces rewrites⟩
    simp [opened, filled, closed, later]
  | @call t m front arguments after called plain _ takes inside _ _ ih =>
    have paired_rest : Paired (front ++ rest) := @Paired.suffix _ [t] paired
    have takes_rest := takes.append rest
    obtain ⟨behind, ran, here⟩ :=
      expandRound_called called (orderly.required t m called) takes_rest paired_rest done
    obtain ⟨skipped, cut⟩ := takes_rest.suffix
    obtain ⟨result, others, last, later, rewrites⟩ := ih (Paired.suffix (cut ▸ paired_rest)) ran
    have filled := (orderly.body t m called).complete.fill fun a member =>
      (inside a member).map_unpaired
    exact ⟨_, others, last, by rw [here, later, List.append_assoc],
      rewrites.call called plain takes filled⟩

/-! ### Rounds -/

theorem persistent_steady : Persistent fun t => t.Settled ∧ t.kind.Coherent :=
  persistent_settled.and persistent_coherent

theorem Table.Orderly.closed (orderly : table.Orderly) :
    table.Closed fun t => t.Settled ∧ t.kind.Coherent := by
  intro t m _ called
  exact ⟨fun u inside => ⟨(orderly.body t m called).settled u inside,
    orderly.coherent t m called u inside⟩, by simp [orderly.required t m called]⟩

/-- Rounds that come to an end end with what a complete list unfolds to. -/
theorem unfolds_of_expandRounds (bodies : table.Orderly) (complete : Complete table tokens)
    (paired : Paired tokens) (steady : ∀ t ∈ tokens, t.Settled ∧ t.kind.Coherent)
    (done : expandRounds table n tokens = .ok expanded) :
    Unfolds table tokens (expanded.map unpaired) := by
  induction n generalizing tokens with
  | zero => cases done
  | succ n ih =>
    rcases expandRounds_cases done with ⟨round, prepared, ran, again, done⟩ | ⟨rfl, uncalled⟩
    · have steady_round := forall_mem_expandRound persistent_steady bodies.closed steady ran
      have steady_prepared := persistent_steady.prepare steady_round again
      rw [← List.append_nil tokens] at ran paired
      obtain ⟨result, others, last, split, rewrites⟩ :=
        expandRound_of_complete bodies complete paired ran
      rw [expandRound] at last
      cases last
      rw [List.append_nil] at split
      have same : prepared.map unpaired = result := by
        rw [map_unpaired_of_prepare (fun t member => (steady_round t member).1) again, split,
          rewrites.bare]
      have complete_prepared : Complete table prepared :=
        .of_map_unpaired (same ▸ rewrites.complete)
      have unfolds := ih complete_prepared
        (paired_of_prepare (fun t member => (steady_round t member).2) again) steady_prepared done
      exact rewrites.same _ (same ▸ unfolds.map_unpaired)
    · exact complete.unfolds uncalled

end TexFormula.Macro
