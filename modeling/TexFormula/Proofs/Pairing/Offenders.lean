import TexFormula.Proofs.Pairing.Mixed

/-! Offenders. A reader with a stack stops at the first token that cannot be right: a closer without
an open bracket, or one of another bracket than the last open one, or at the end the last opener
that nobody closed. What it has read up to there is the beginning of a nested word. Which brackets
are open in it is known by the shape of what was read: it is cut at the waiting openers, and between
them everything is nested (`Standing`). -/
namespace TexFormula.Pairing

/-- The beginnings of nested words. -/
def Begins (word : List Mark) : Prop :=
  ∃ more, Nested (word ++ more)

/-- A token that is at fault between the tokens in front of it and behind it. -/
inductive Offends (mark : Token → Option Mark) :
    (front : List Token) → (offender : Token) → (back : List Token) → Prop
  /-- A closer with no bracket open. -/
  | stray {front offender back b} (closes : mark offender = some (.closes b))
    (before : Nested (wordOf mark front)) : Offends mark front offender back
  /-- A closer of another bracket than the last open one. -/
  | mismatched {outer opener inner offender back b b'} (closes : mark offender = some (.closes b))
    (opens : mark opener = some (.opens b')) (differ : b' ≠ b)
    (inside : Nested (wordOf mark inner))
    (before : Begins (wordOf mark (outer ++ opener :: inner))) :
    Offends mark (outer ++ opener :: inner) offender back
  /-- An opener whose bracket is still open at the end: all brackets behind it are closed there. -/
  | unclosed {front offender back b} (opens : mark offender = some (.opens b))
    (before : Begins (wordOf mark front)) (behind : Nested (wordOf mark back)) :
    Offends mark front offender back

/-- A list has an offender at a position. -/
def OffendsAt (mark : Token → Option Mark) (tokens : List Token) (position : Nat) : Prop :=
  ∃ front offender back, tokens = front ++ offender :: back ∧ front.length = position ∧
    Offends mark front offender back

/-- The brackets that are open behind a list, with the positions of their openers. -/
inductive Standing (mark : Token → Option Mark) : List (Nat × Bracket) → List Token → Prop
  | settled {tokens} (nested : Nested (wordOf mark tokens)) : Standing mark [] tokens
  | waits {waiting outer opener inner b} (below : Standing mark waiting outer)
    (opens : mark opener = some (.opens b)) (inside : Nested (wordOf mark inner)) :
    Standing mark ((outer.length, b) :: waiting) (outer ++ opener :: inner)

variable {mark : Token → Option Mark} {i position : Nat} {waiting : List (Nat × Bracket)}
  {t : Token} {done rest tokens all inner : List Token} {links : List Link} {b b' : Bracket}

/-! ### What is open -/

theorem Nested.append {front back : List Mark} (nested : Nested front) (more : Nested back) :
    Nested (front ++ back) :=
  nested_iff_settles.mpr ((settles_append nested [] back).mpr (nested_iff_settles.mp more))

/-- Behind a nested list the same brackets are open. -/
theorem Standing.extend (standing : Standing mark waiting done)
    (nested : Nested (wordOf mark inner)) : Standing mark waiting (done ++ inner) := by
  cases standing with
  | settled before =>
    exact .settled (by rw [wordOf_append]; exact before.append nested)
  | waits below opens inside =>
    rw [List.append_assoc, List.cons_append]
    exact .waits below opens (by rw [wordOf_append]; exact inside.append nested)

theorem Standing.pass (standing : Standing mark waiting done) (plain : mark t = none) :
    Standing mark waiting (done ++ [t]) :=
  standing.extend (by rw [wordOf_cons_of_none plain]; exact .nil)

theorem Standing.push (standing : Standing mark waiting done) (opens : mark t = some (.opens b)) :
    Standing mark ((done.length, b) :: waiting) (done ++ [t]) :=
  .waits standing opens .nil

theorem Standing.pop (standing : Standing mark ((position, b) :: waiting) done)
    (closes : mark t = some (.closes b)) : Standing mark waiting (done ++ [t]) := by
  cases standing with
  | @waits _ outer opener inner _ below opens inside =>
    have group : Nested (wordOf mark (opener :: (inner ++ [t]))) := by
      rw [wordOf_cons_of_some opens, wordOf_append, wordOf_cons_of_some closes]
      exact .group b inside .nil
    rw [List.append_assoc, List.cons_append]
    exact below.extend group

/-- What closes the waiting brackets makes a nested word of a list. -/
theorem Standing.settles {word : List Mark} (standing : Standing mark waiting done)
    (settles : Settles (waiting.map Prod.snd) word) : Settles [] (wordOf mark done ++ word) := by
  induction standing generalizing word with
  | settled nested => exact (settles_append nested [] word).mpr settles
  | waits _ opens inside ih =>
    rw [wordOf_append, wordOf_cons_of_some opens, List.append_assoc, List.cons_append]
    exact ih (settles_opens.mpr ((settles_append inside _ word).mpr settles))

/-- What is open can be closed. -/
theorem settles_map_closes (brackets : List Bracket) : Settles brackets (brackets.map .closes) := by
  induction brackets with
  | nil => trivial
  | cons b rest ih => exact ⟨rfl, ih⟩

theorem Standing.begins (standing : Standing mark waiting done) : Begins (wordOf mark done) :=
  ⟨_, nested_iff_settles.mpr (standing.settles (settles_map_closes _))⟩

/-! ### Faults -/

theorem Standing.offends_unclosed (standing : Standing mark ((position, b) :: waiting) done) :
    OffendsAt mark done position := by
  cases standing with
  | waits below opens inside =>
    exact ⟨_, _, _, rfl, rfl, .unclosed opens below.begins inside⟩

theorem Standing.offends_stray (standing : Standing mark [] done)
    (closes : mark t = some (.closes b)) : OffendsAt mark (done ++ t :: rest) done.length := by
  cases standing with
  | settled nested => exact ⟨done, t, rest, rfl, rfl, .stray closes nested⟩

theorem Standing.offends_mismatched (standing : Standing mark ((position, b') :: waiting) done)
    (closes : mark t = some (.closes b)) (differ : b' ≠ b) :
    OffendsAt mark (done ++ t :: rest) done.length := by
  have before := standing.begins
  cases standing with
  | waits _ opens inside =>
    exact ⟨_, t, rest, rfl, rfl, .mismatched closes opens differ inside before⟩

/-- Only marks decide about an offender. -/
theorem Offends.congr {front front' back back' : List Token} {t' : Token}
    (offends : Offends mark front t back) (ahead : front'.map mark = front.map mark)
    (here : mark t' = mark t) (behind : back'.map mark = back.map mark) :
    Offends mark front' t' back' := by
  have words : ∀ {tokens others : List Token}, others.map mark = tokens.map mark →
      wordOf mark others = wordOf mark tokens := by
    intro tokens others same
    have word := congrArg (List.filterMap id) same
    rwa [List.filterMap_map, List.filterMap_map] at word
  cases offends with
  | stray closes before => exact .stray (here.trans closes) (words ahead ▸ before)
  | mismatched closes opens differ inside before =>
    have split := ahead
    rw [List.map_append, List.map_cons] at split
    obtain ⟨outer, rest, rfl, first, later⟩ := List.map_eq_append_iff.mp split
    obtain ⟨opener, inner, rfl, top, last⟩ := List.map_eq_cons_iff.mp later
    exact .mismatched (here.trans closes) (top.trans opens) differ (words last ▸ inside)
      (words ahead ▸ before)
  | unclosed opens before behind' =>
    exact .unclosed (here.trans opens) (words ahead ▸ before) (words behind ▸ behind')

theorem OffendsAt.congr {others : List Token} (offends : OffendsAt mark tokens position)
    (same : others.map mark = tokens.map mark) : OffendsAt mark others position := by
  obtain ⟨front, t, back, rfl, rfl, offends⟩ := offends
  rw [List.map_append, List.map_cons] at same
  obtain ⟨front', rest, rfl, ahead, later⟩ := List.map_eq_append_iff.mp same
  obtain ⟨t', back', rfl, here, behind⟩ := List.map_eq_cons_iff.mp later
  exact ⟨front', t', back', rfl, by simpa using congrArg List.length ahead,
    offends.congr ahead here behind⟩

theorem Offends.marked {front back : List Token} (offends : Offends mark front t back) :
    mark t ≠ none := by
  cases offends with
  | stray closes => rw [closes]; nofun
  | mismatched closes => rw [closes]; nofun
  | unclosed opens => rw [opens]; nofun

/-! ### Pairing of one family -/

variable {f : Family} {fault : Bracket × Nat} {stack : Waiting}

/-- Strict pairing stops at a closer that does not go with the last opener, and passes on the fault
that is found behind any other closer. -/
theorem strictLinks_error_of_closes (closes : f.mark? t = some (.closes b))
    (failed : strictLinks f i stack (t :: rest) = .error fault) :
    (stack = [] ∧ fault.2 = i) ∨ ∃ place opener below, stack = (place, opener) :: below ∧
      (f.bracket opener ≠ b ∧ fault.2 = i ∨
        f.bracket opener = b ∧ strictLinks f (i + 1) below rest = .error fault) := by
  obtain ⟨⟨has, notOpens, side⟩, rfl⟩ := Family.mark?_eq_closes.mp closes
  simp only [strictLinks, has, notOpens, side, Bool.and_false, Bool.and_self, Bool.false_eq_true,
    if_false, if_true] at failed
  cases stack with
  | nil => cases failed; exact .inl ⟨rfl, rfl⟩
  | cons entry below =>
    obtain ⟨place, opener⟩ := entry
    refine .inr ⟨place, opener, below, rfl, ?_⟩
    by_cases agrees : f.agrees opener t = true
    · simp only [agrees, if_true] at failed
      refine .inr ⟨(Family.agrees_iff opener t).mp agrees, ?_⟩
      cases found : strictLinks f (i + 1) below rest with
      | ok links => rw [found] at failed; cases failed
      | error other => rw [found] at failed; cases failed; rfl
    · simp only [agrees] at failed
      cases failed
      exact .inl ⟨mt (Family.agrees_iff opener t).mpr agrees, rfl⟩

/-- Where strict pairing of a family fails, it points at an offender. -/
theorem offends_of_strictLinks (standing : Standing f.mark? (stack.map f.enter) done)
    (here : done.length = i) (failed : strictLinks f i stack tokens = .error fault) :
    OffendsAt f.mark? (done ++ tokens) fault.2 := by
  induction tokens generalizing i stack done with
  | nil =>
    rw [List.append_nil]
    cases stack with
    | nil => cases failed
    | cons entry below =>
      cases failed
      exact standing.offends_unclosed
  | cons t rest ih =>
    subst here
    have next : (done ++ [t]).length = done.length + 1 := List.length_append
    cases marked : f.mark? t with
    | none =>
      rw [strictLinks_of_none marked] at failed
      rw [List.append_cons]
      exact ih (standing.pass marked) next failed
    | some m =>
      cases m with
      | opens b =>
        rw [strictLinks_of_opens marked] at failed
        obtain rfl := (Family.mark?_eq_opens.mp marked).2
        rw [List.append_cons]
        exact @ih _ _ ((done.length, t) :: stack) (standing.push marked) next failed
      | closes b =>
        rcases strictLinks_error_of_closes marked failed with
          ⟨rfl, place⟩ | ⟨place, opener, below, rfl, ⟨differ, place⟩ | ⟨rfl, failed⟩⟩
        · rw [place]
          exact standing.offends_stray marked
        · rw [place]
          exact standing.offends_mismatched marked differ
        · rw [List.append_cons]
          exact ih (standing.pop marked) next failed

/-! ### The search for crossing pairs -/

/-- Where the search finds a crossing pair, it points at an offender: the last opener that is open
is of the other family, since each family is paired by itself. -/
theorem offends_of_crossing (linked : Linked all links) (coherent : ∀ t ∈ all, t.kind.Coherent)
    (idle : ∀ t ∈ all, t.offset ≠ 0 → strictMark? t ≠ none) (whole : all = done ++ tokens)
    (here : done.length = i) (below : Below i (stack.map Prod.fst))
    (each : EachReads links i (stack.map enter) tokens)
    (standing : Standing strictMark? (stack.map enter) done)
    (crossed : crossing? i stack tokens = some fault) : OffendsAt strictMark? all fault.2 := by
  induction tokens generalizing i stack done with
  | nil => cases crossed
  | cons t rest ih =>
    subst here
    have next : (done ++ [t]).length = done.length + 1 := List.length_append
    have behind : all = (done ++ [t]) ++ rest := by rw [whole, List.append_cons]
    have found : all[done.length]? = some t := by
      rw [whole, List.getElem?_append_right (Nat.le_refl _), Nat.sub_self]
      rfl
    have member := List.mem_of_getElem? found
    have kind := coherent t member
    cases marked : strictMark? t with
    | none =>
      rw [crossing?_of_none marked (idle t member)] at crossed
      exact ih behind next below.step (each.pass kind marked) (standing.pass marked) crossed
    | some m =>
      cases m with
      | opens b =>
        obtain rfl : bracket t = b := bracket_of_strictMark? marked
        have later := each.push kind marked
        obtain ⟨l, inside, opener⟩ := later.opener
        rw [crossing?_of_opens marked (offset_of_opener linked found inside opener)] at crossed
        exact @ih _ _ ((done.length, t) :: stack) behind next below.push later
          (standing.push marked) crossed
      | closes b =>
        cases stack with
        | nil =>
          obtain ⟨_, _, none, _⟩ := each.closer kind marked
          cases none
        | cons entry lower =>
          obtain ⟨place, opener⟩ := entry
          obtain ⟨backward, partner⟩ := each.partner_iff linked found kind marked below
          rw [crossing?_of_closes marked backward] at crossed
          split at crossed
          case isTrue top =>
            rw [List.map_cons, enter, partner.mp top] at each standing
            exact ih behind next below.pop.step (each.pop kind marked) (standing.pop marked) crossed
          case isFalse differ =>
            cases crossed
            rw [whole]
            exact standing.offends_mismatched marked (mt partner.mpr differ)

end TexFormula.Pairing
