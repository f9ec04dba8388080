import TexFormula.Macro.Declaration
import TexFormula.Proofs.Pairing.Strict

/-! Complete lists. In a complete list every call is followed by all its arguments, each of them a
group in curly braces or a single token that is no delimiter, and the groups themselves are
complete. What is said here about calls goes by the shape of a list and not by offsets. Filling the
placeholders of a complete body with complete arguments gives a complete list. -/
namespace TexFormula.Macro
open Token Pairing

/-- The tokens that a token of a body becomes in a call with the given arguments. -/
def fillToken (arguments : List (List Token)) (t : Token) : List Token :=
  match placeholder? t with
  | some (k + 1) =>
    match arguments[k]? with
    | some tokens => tokens.map unpaired
    | none => [t.unpaired]
  | _ => [t.unpaired]

/-- The body with the arguments in place of the placeholders. A placeholder without a number stays,
as one without an argument does. -/
def fill (arguments : List (List Token)) (body : List Token) : List Token :=
  body.flatMap (fillToken arguments)

/-- Curly braces around a group, which stand for themselves: they are not skipped, called or filled.
-/
structure Braces (opener closer : Token) : Prop where
  opens : Family.curly.Opens opener
  closes : Family.curly.Closes closer
  solid : opener.isBlank = false ∧ closer.isBlank = false
  uncalled : opener.isCommand = false ∧ closer.isCommand = false
  fixed : opener.kind.argument = false ∧ closer.kind.argument = false

/-- A token that is an argument by itself: it is not blank and neither a delimiter nor a
placeholder. -/
structure Bare (t : Token) : Prop where
  solid : t.isBlank = false
  single : t.kind.opens = false ∧ t.kind.closes = false
  fixed : t.kind.argument = false

/-- The arguments that a call takes from the tokens behind it, and what is left. -/
inductive Takes : Nat → List Token → List (List Token) → List Token → Prop
  | done {rest} : Takes 0 rest [] rest
  | blank {n t rest arguments after} (blank : t.isBlank = true) (plain : t.kind.curly = false)
    (fixed : t.kind.argument = false) (more : Takes (n + 1) rest arguments after) :
    Takes (n + 1) (t :: rest) arguments after
  | group {n opener inner closer rest arguments after} (braces : Braces opener closer)
    (nested : Nested (wordOf Family.curly.mark? inner)) (more : Takes n rest arguments after) :
    Takes (n + 1) (opener :: (inner ++ closer :: rest)) (inner :: arguments) after
  | single {n t rest arguments after} (bare : Bare t) (more : Takes n rest arguments after) :
    Takes (n + 1) (t :: rest) ([t] :: arguments) after

/-- A list in which every call has its arguments, and these are complete too. -/
inductive Complete (table : Table) : List Token → Prop
  | nil : Complete table []
  | token {t rest} (uncalled : table.callee? t = none) (plain : t.kind.curly = false)
    (more : Complete table rest) : Complete table (t :: rest)
  | group {opener inner closer rest} (braces : Braces opener closer)
    (inside : Complete table inner) (more : Complete table rest) :
    Complete table (opener :: (inner ++ closer :: rest))
  | call {t m rest arguments after} (called : table.callee? t = some m)
    (plain : t.kind.curly = false) (fixed : t.kind.argument = false)
    (takes : Takes m.arity rest arguments after)
    (inside : ∀ a ∈ arguments, Complete table a) (more : Complete table after) :
    Complete table (t :: rest)

variable {table : Table} {arguments outer : List (List Token)} {t : Token}
  {tokens body front inner rest after : List Token} {n : Nat}

/-! ### Filling a body -/

/-- Where substitution succeeds it fills the body. -/
theorem substitute_eq_fill {name : String} {expanded : List Token}
    (done : substitute name arguments body = .ok expanded) : expanded = fill arguments body := by
  induction body generalizing expanded with
  | nil => cases done; rfl
  | cons t rest ih =>
    simp only [substitute] at done
    cases here : substituteToken name arguments t with
    | error e => rw [here] at done; cases done
    | ok first =>
      cases later : substitute name arguments rest with
      | error e => rw [here, later] at done; cases done
      | ok others =>
        rw [here, later] at done
        cases done
        have token : first = fillToken arguments t := by
          unfold substituteToken at here
          unfold fillToken placeholder?
          grind
        rw [token, ih later]
        rfl

@[simp] theorem fill_nil : fill arguments [] = [] := rfl

@[simp] theorem fill_cons :
    fill arguments (t :: rest) = fillToken arguments t ++ fill arguments rest :=
  List.flatMap_cons

@[simp] theorem fill_append :
    fill arguments (front ++ rest) = fill arguments front ++ fill arguments rest :=
  List.flatMap_append

theorem fillToken_of_fixed (fixed : t.kind.argument = false) :
    fillToken arguments t = [t.unpaired] := by
  simp [fillToken, placeholder?, fixed]

@[simp] theorem fillToken_unpaired : fillToken arguments t.unpaired = fillToken arguments t := rfl

@[simp] theorem fill_map_unpaired :
    fill arguments (tokens.map unpaired) = fill arguments tokens := by
  induction tokens with
  | nil => rfl
  | cons t rest ih => rw [List.map_cons, fill_cons, fill_cons, ih, fillToken_unpaired]

/-- What a token becomes: itself or the argument that its number asks for. -/
theorem fillToken_cases (arguments : List (List Token)) (t : Token) :
    fillToken arguments t = [t.unpaired] ∨
      ∃ k a, placeholder? t = some (k + 1) ∧ arguments[k]? = some a ∧
        fillToken arguments t = a.map unpaired := by
  unfold fillToken
  split
  case h_1 k number =>
    split
    case h_1 a found => exact .inr ⟨k, a, number, found, rfl⟩
    case h_2 => exact .inl rfl
  case h_2 => exact .inl rfl

theorem map_unpaired_fillToken : (fillToken arguments t).map unpaired = fillToken arguments t := by
  rcases fillToken_cases arguments t with stays | ⟨_, _, _, _, filled⟩
  · rw [stays]; rfl
  · rw [filled, List.map_map]; rfl

theorem map_unpaired_fill : (fill arguments tokens).map unpaired = fill arguments tokens := by
  induction tokens with
  | nil => rfl
  | cons t rest ih => rw [fill_cons, List.map_append, map_unpaired_fillToken, ih]

/-- Without arguments only the offsets go away. -/
theorem fill_no_arguments : fill [] tokens = tokens.map unpaired := by
  induction tokens with
  | nil => rfl
  | cons t rest ih =>
    have stays : fillToken [] t = [t.unpaired] := by
      rcases fillToken_cases [] t with stays | ⟨_, _, _, found, _⟩
      · exact stays
      · cases found
    rw [fill_cons, stays, ih]
    rfl

theorem fill_arguments_unpaired :
    fill (arguments.map (List.map unpaired)) body = fill arguments body := by
  have token : fillToken (arguments.map (List.map unpaired)) = fillToken arguments := by
    funext t
    unfold fillToken
    split
    case h_1 k number =>
      rw [List.getElem?_map]
      cases arguments[k]? with
      | none => rfl
      | some a => simp only [Option.map_some, List.map_map]; rfl
    case h_2 => rfl
  rw [fill, fill, token]

/-- A body whose placeholders all have an argument can be filled first, and what its arguments leave
open afterwards, or the arguments can be filled first. -/
theorem fill_fill (bounded : ∀ t ∈ body, ∀ k, placeholder? t = some k → k ≤ arguments.length) :
    fill outer (fill arguments body) = fill (arguments.map (fill outer)) body := by
  induction body with
  | nil => rfl
  | cons t rest ih =>
    obtain ⟨here, later⟩ := List.forall_mem_cons.mp bounded
    rw [fill_cons, fill_append, ih later, fill_cons]
    congr 1
    cases number : placeholder? t with
    | none => simp [fillToken, number, show placeholder? t.unpaired = none from number]
    | some k =>
      cases k with
      | zero => simp [fillToken, number, show placeholder? t.unpaired = some 0 from number]
      | succ k =>
        have inside : k < arguments.length := here (k + 1) number
        simp only [fillToken, number, List.getElem?_eq_getElem inside, List.getElem?_map,
          Option.map_some, fill_map_unpaired, map_unpaired_fill]

/-! ### Arguments -/

theorem Braces.mark?_closer {opener closer : Token} (braces : Braces opener closer) :
    Family.curly.mark? closer = some (.closes .curly) :=
  Family.mark?_eq_closes.mpr ⟨braces.closes, rfl⟩

theorem Braces.mark?_opener {opener closer : Token} (braces : Braces opener closer) :
    Family.curly.mark? opener = some (.opens .curly) :=
  Family.mark?_eq_opens.mpr ⟨braces.opens, rfl⟩

theorem braces_unpaired {opener closer : Token} :
    Braces opener.unpaired closer.unpaired ↔ Braces opener closer :=
  ⟨fun braces => ⟨braces.opens, braces.closes, braces.solid, braces.uncalled, braces.fixed⟩,
    fun braces => ⟨braces.opens, braces.closes, braces.solid, braces.uncalled, braces.fixed⟩⟩

theorem mark?_of_plain (plain : t.kind.curly = false) : Family.curly.mark? t = none := by
  simp [Family.mark?, Family.has, plain]

theorem mark?_of_bare (bare : Bare t) : Family.curly.mark? t = none := by
  simp [Family.mark?, bare.single.1, bare.single.2]

/-- Two lists that start with a group and a brace behind it are cut at the same brace. -/
theorem group_unique {inner' rest' : List Token} {opener opener' closer closer' : Token}
    (same : inner ++ closer :: rest = inner' ++ closer' :: rest') (braces : Braces opener closer)
    (braces' : Braces opener' closer') (nested : Nested (wordOf Family.curly.mark? inner))
    (nested' : Nested (wordOf Family.curly.mark? inner')) :
    inner = inner' ∧ closer = closer' ∧ rest = rest' :=
  append_closer_unique same nested nested' braces.mark?_closer braces'.mark?_closer

theorem Takes.length (takes : Takes n rest arguments after) : arguments.length = n := by
  induction takes with
  | done => rfl
  | blank _ _ _ _ ih => exact ih
  | group _ _ _ ih | single _ _ ih => rw [List.length_cons, ih]

theorem Takes.suffix (takes : Takes n rest arguments after) : after <:+ rest := by
  induction takes with
  | done => exact List.suffix_refl _
  | blank _ _ _ _ ih | single _ _ ih => exact ih.trans (List.suffix_cons _ _)
  | @group n opener inner closer rest arguments after _ _ _ ih =>
    have behind : rest <:+ inner ++ closer :: rest :=
      (List.suffix_cons closer rest).trans (List.suffix_append _ _)
    exact (ih.trans behind).trans (List.suffix_cons _ _)

theorem Takes.append (takes : Takes n rest arguments after) (more : List Token) :
    Takes n (rest ++ more) arguments (after ++ more) := by
  induction takes with
  | done => exact .done
  | blank blank plain fixed _ ih => exact .blank blank plain fixed ih
  | group braces nested _ ih =>
    rw [List.cons_append, List.append_assoc, List.cons_append]
    exact .group braces nested ih
  | single bare _ ih => exact .single bare ih

/-- There is only one way to take arguments. -/
theorem Takes.unique {others : List (List Token)} {left : List Token}
    (takes : Takes n rest arguments after) (again : Takes n rest others left) :
    arguments = others ∧ after = left := by
  induction takes generalizing others left with
  | done => cases again; exact ⟨rfl, rfl⟩
  | blank blank plain _ _ ih =>
    cases again with
    | blank _ _ _ more => exact ih more
    | group braces => exact absurd (blank.symm.trans braces.solid.1) (by simp)
    | single bare => exact absurd (blank.symm.trans bare.solid) (by simp)
  | @group n opener inner closer rest arguments after braces nested _ ih =>
    generalize same : opener :: (inner ++ closer :: rest) = whole at again
    cases again with
    | blank blank =>
      cases same
      exact absurd (blank.symm.trans braces.solid.1) (by simp)
    | group braces' nested' more =>
      obtain ⟨rfl, behind⟩ := List.cons.inj same
      obtain ⟨rfl, rfl, rfl⟩ := group_unique behind braces braces' nested nested'
      obtain ⟨rfl, rfl⟩ := ih more
      exact ⟨rfl, rfl⟩
    | single bare =>
      cases same
      exact absurd (bare.single.1.symm.trans braces.opens.2) (by simp)
  | single bare _ ih =>
    cases again with
    | blank blank => exact absurd (blank.symm.trans bare.solid) (by simp)
    | group braces => exact absurd (bare.single.1.symm.trans braces.opens.2) (by simp)
    | single _ more =>
      obtain ⟨rfl, rfl⟩ := ih more
      exact ⟨rfl, rfl⟩

/-- The groups among the arguments are nested, so the braces around a call are those behind it. -/
theorem Takes.nested (takes : Takes n rest arguments after)
    (nested : Nested (wordOf Family.curly.mark? after)) :
    Nested (wordOf Family.curly.mark? rest) := by
  induction takes with
  | done => exact nested
  | blank _ plain _ _ ih => rw [wordOf_cons_of_none (mark?_of_plain plain)]; exact ih nested
  | group braces inside _ ih =>
    rw [wordOf_cons_of_some braces.mark?_opener, wordOf_append,
      wordOf_cons_of_some braces.mark?_closer]
    exact .group _ inside (ih nested)
  | single bare _ ih => rw [wordOf_cons_of_none (mark?_of_bare bare)]; exact ih nested

/-- The arguments of a call in a body are filled with the body. -/
theorem Takes.fill (takes : Takes n rest arguments after)
    (nested : ∀ a ∈ arguments, Nested (wordOf Family.curly.mark? (fill outer a))) :
    Takes n (fill outer rest) (arguments.map (fill outer)) (fill outer after) := by
  induction takes with
  | done => exact .done
  | blank blank plain fixed _ ih =>
    rw [fill_cons, fillToken_of_fixed fixed]
    exact .blank blank plain fixed (ih nested)
  | group braces _ _ ih =>
    obtain ⟨here, later⟩ := List.forall_mem_cons.mp nested
    rw [fill_cons, fill_append, fill_cons, fillToken_of_fixed braces.fixed.1,
      fillToken_of_fixed braces.fixed.2]
    exact .group (braces_unpaired.mpr braces) here (ih later)
  | single bare _ ih =>
    obtain ⟨here, later⟩ := List.forall_mem_cons.mp nested
    rw [List.map_cons, fill_cons, fill_cons, fill_nil, List.append_nil,
      fillToken_of_fixed bare.fixed]
    exact .single ⟨bare.solid, bare.single, bare.fixed⟩ (ih later)

theorem Takes.map_unpaired (takes : Takes n rest arguments after) :
    Takes n (rest.map unpaired) (arguments.map (List.map unpaired)) (after.map unpaired) := by
  induction takes with
  | done => exact .done
  | @blank n t rest arguments after blank plain fixed _ ih =>
    exact .blank (t := t.unpaired) blank plain fixed ih
  | @group n opener inner closer rest arguments after braces nested _ ih =>
    rw [List.map_cons, List.map_append, List.map_cons]
    exact .group (braces_unpaired.mpr braces) (by rwa [wordOf, List.filterMap_map]) ih
  | @single n t rest arguments after bare _ ih =>
    exact .single (t := t.unpaired) ⟨bare.solid, bare.single, bare.fixed⟩ ih

/-- Offsets do not matter to the arguments that are taken. -/
theorem Takes.of_map_unpaired (takes : Takes n (tokens.map unpaired) arguments after) :
    ∃ given left, arguments = given.map (List.map unpaired) ∧ after = left.map unpaired ∧
      Takes n tokens given left := by
  generalize same : tokens.map unpaired = rest at takes
  induction takes generalizing tokens with
  | done => exact ⟨[], tokens, rfl, same.symm, .done⟩
  | blank blank plain fixed _ ih =>
    obtain ⟨t, behind, rfl, rfl, later⟩ := List.map_eq_cons_iff.mp same
    obtain ⟨given, left, rfl, rfl, takes⟩ := ih later
    exact ⟨given, left, rfl, rfl, .blank blank plain fixed takes⟩
  | group braces nested _ ih =>
    obtain ⟨opener, behind, rfl, rfl, enclosed⟩ := List.map_eq_cons_iff.mp same
    obtain ⟨inner, ending, rfl, rfl, closed⟩ := List.map_eq_append_iff.mp enclosed
    obtain ⟨closer, behind, rfl, rfl, later⟩ := List.map_eq_cons_iff.mp closed
    obtain ⟨given, left, rfl, rfl, takes⟩ := ih later
    have nested' : Nested (wordOf Family.curly.mark? inner) := by
      rwa [wordOf, List.filterMap_map] at nested
    exact ⟨inner :: given, left, rfl, rfl, .group (braces_unpaired.mp braces) nested' takes⟩
  | single bare _ ih =>
    obtain ⟨t, behind, rfl, rfl, later⟩ := List.map_eq_cons_iff.mp same
    obtain ⟨given, left, rfl, rfl, takes⟩ := ih later
    exact ⟨[t] :: given, left, rfl, rfl, .single ⟨bare.solid, bare.single, bare.fixed⟩ takes⟩

/-! ### Complete lists -/

theorem Complete.nested (complete : Complete table tokens) :
    Nested (wordOf Family.curly.mark? tokens) := by
  induction complete with
  | nil => exact .nil
  | token _ plain _ ih => rwa [wordOf_cons_of_none (mark?_of_plain plain)]
  | group braces _ _ inside more =>
    rw [wordOf_cons_of_some braces.mark?_opener, wordOf_append,
      wordOf_cons_of_some braces.mark?_closer]
    exact .group _ inside more
  | call _ plain _ takes _ _ _ more =>
    rw [wordOf_cons_of_none (mark?_of_plain plain)]
    exact takes.nested more

theorem Complete.append (complete : Complete table front) (more : Complete table rest) :
    Complete table (front ++ rest) := by
  induction complete with
  | nil => exact more
  | token uncalled plain _ ih => exact .token uncalled plain ih
  | group braces inside _ _ ih =>
    rw [List.cons_append, List.append_assoc, List.cons_append]
    exact .group braces inside ih
  | call called plain fixed takes inside _ _ ih =>
    exact .call called plain fixed (takes.append rest) inside ih

/-- Filling a complete body with complete arguments gives a complete list. -/
theorem Complete.fill (complete : Complete table body)
    (given : ∀ a ∈ arguments, Complete table (a.map unpaired)) :
    Complete table (fill arguments body) := by
  induction complete with
  | nil => exact .nil
  | @token t rest uncalled plain _ ih =>
    rw [fill_cons]
    refine Complete.append ?_ ih
    rcases fillToken_cases arguments t with stays | ⟨_, a, _, found, filled⟩
    · rw [stays]
      exact .token uncalled plain .nil
    · rw [filled]
      exact given a (List.mem_of_getElem? found)
  | group braces _ _ inside ih =>
    rw [fill_cons, fill_append, fill_cons, fillToken_of_fixed braces.fixed.1,
      fillToken_of_fixed braces.fixed.2]
    exact .group (braces_unpaired.mpr braces) inside ih
  | @call t m rest taken after called plain fixed takes _ _ inside ih =>
    rw [fill_cons, fillToken_of_fixed fixed]
    refine .call (t := t.unpaired) called plain fixed (takes.fill fun a member =>
      (inside a member).nested) (fun a member => ?_) ih
    obtain ⟨b, taken, rfl⟩ := List.mem_map.mp member
    exact inside b taken

theorem Complete.map_unpaired (complete : Complete table tokens) :
    Complete table (tokens.map unpaired) := by
  have filled : Complete table (Macro.fill [] tokens) := complete.fill (by simp)
  rwa [fill_no_arguments] at filled

theorem Complete.of_map_unpaired (complete : Complete table (tokens.map unpaired)) :
    Complete table tokens := by
  generalize same : tokens.map unpaired = others at complete
  induction complete generalizing tokens with
  | nil =>
    cases List.map_eq_nil_iff.mp same
    exact .nil
  | token uncalled plain _ ih =>
    obtain ⟨t, behind, rfl, rfl, later⟩ := List.map_eq_cons_iff.mp same
    exact .token uncalled plain (ih later)
  | group braces _ _ inside ih =>
    obtain ⟨opener, behind, rfl, rfl, enclosed⟩ := List.map_eq_cons_iff.mp same
    obtain ⟨inner, ending, rfl, within, closed⟩ := List.map_eq_append_iff.mp enclosed
    obtain ⟨closer, behind, rfl, rfl, later⟩ := List.map_eq_cons_iff.mp closed
    exact .group (braces_unpaired.mp braces) (inside within) (ih later)
  | call called plain fixed takes _ _ inside ih =>
    obtain ⟨t, behind, rfl, rfl, later⟩ := List.map_eq_cons_iff.mp same
    subst later
    obtain ⟨given, left, rfl, rfl, taken⟩ := takes.of_map_unpaired
    exact .call called plain fixed taken
      (fun a member => inside (a.map unpaired) (List.mem_map_of_mem member) rfl) (ih rfl)

/-- What is complete depends on the numbers of arguments only. -/
theorem Complete.congr {other : Table}
    (same : ∀ t, (other.callee? t).map Macro.arity = (table.callee? t).map Macro.arity)
    (complete : Complete table tokens) : Complete other tokens := by
  induction complete with
  | nil => exact .nil
  | @token t rest uncalled plain _ ih =>
    have absent : (other.callee? t).map Macro.arity = none := (same t).trans (by rw [uncalled]; rfl)
    exact .token (Option.map_eq_none_iff.mp absent) plain ih
  | group braces _ _ inside ih => exact .group braces inside ih
  | @call t m rest arguments after called plain fixed takes _ _ inside ih =>
    have known : (other.callee? t).map Macro.arity = some m.arity :=
      (same t).trans (by rw [called]; rfl)
    obtain ⟨m', called', arity⟩ := Option.map_eq_some_iff.mp known
    exact .call called' plain fixed (arity ▸ takes) inside ih

end TexFormula.Macro
