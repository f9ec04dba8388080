import TexFormula.Proofs.Pairing.Links
import TexFormula.Token.Pairing

/-! Strict readings. A reading links each closer to the last opener, which must open the same
bracket, and leaves no delimiter alone. Which tokens are delimiters, and of which brackets, is a
parameter: the braces, the environments, and both together are read in the same way. -/

/-! ### Bracket words

Bracket words. What delimiters open and close is a word of marks, and the word is nested if
every bracket is closed inside the bracket that it was opened in. The nested words are defined by
their shape and not by a reader; a reader with a stack accepts exactly them. -/

namespace TexFormula.Pairing

/-- The begin or the end of a bracket. -/
inductive Mark where
  | opens (b : Bracket)
  | closes (b : Bracket)
deriving DecidableEq, Repr

/-- What a mark begins or ends. -/
def Mark.bracket : Mark → Bracket
  | opens b | closes b => b

/-- The words in which each closing mark closes the last bracket that is open, and no bracket stays
open. -/
inductive Nested : List Mark → Prop
  | nil : Nested []
  | group (b : Bracket) {inner rest : List Mark} (inside : Nested inner) (after : Nested rest) :
    Nested (.opens b :: (inner ++ .closes b :: rest))

/-- A word that closes the waiting brackets, the first of them first, and is nested apart from
that. -/
def Settles : List Bracket → List Mark → Prop
  | [], [] => True
  | _ :: _, [] => False
  | waiting, .opens b :: word => Settles (b :: waiting) word
  | [], .closes _ :: _ => False
  | top :: waiting, .closes b :: word => top = b ∧ Settles waiting word

variable {waiting : List Bracket} {b : Bracket} {word inner rest : List Mark}

theorem settles_opens : Settles waiting (.opens b :: word) ↔ Settles (b :: waiting) word := by
  cases waiting <;> rfl

theorem settles_closes :
    Settles waiting (.closes b :: word) ↔ ∃ below, waiting = b :: below ∧ Settles below word := by
  cases waiting with
  | nil => simp [Settles]
  | cons top below => simp [Settles, and_assoc]

/-- A nested word in front of another one does not change what is waiting. -/
theorem settles_append (nested : Nested inner) (waiting : List Bracket) (word : List Mark) :
    Settles waiting (inner ++ word) ↔ Settles waiting word := by
  induction nested generalizing waiting word with
  | nil => rfl
  | group b inside after inside_ih after_ih =>
    simp only [List.cons_append, List.append_assoc, settles_opens]
    rw [inside_ih]
    simp only [Settles, true_and]
    exact after_ih waiting word

/-- What closes the waiting brackets closes the first of them behind a nested word. -/
theorem settles_cons {word : List Mark} {top : Bracket} {waiting : List Bracket}
    (settles : Settles (top :: waiting) word) :
    ∃ inner rest, word = inner ++ .closes top :: rest ∧ Nested inner ∧ Settles waiting rest := by
  match word with
  | [] => exact absurd settles (by simp [Settles])
  | .closes b :: rest =>
    obtain ⟨rfl, settles⟩ := settles
    exact ⟨[], rest, rfl, .nil, settles⟩
  | .opens b :: word =>
    -- The bracket opened here is closed first, and only then the one that waits.
    obtain ⟨inner, middle, split, nested, behind⟩ := @settles_cons word b (top :: waiting) settles
    have shorter : middle.length < word.length := by
      rw [split, List.length_append, List.length_cons]
      omega
    obtain ⟨more, rest, rfl, nestedMore, last⟩ := settles_cons behind
    subst split
    exact ⟨.opens b :: (inner ++ .closes b :: more), rest, by simp, .group b nested nestedMore,
      last⟩
termination_by word.length

theorem nested_of_settles {word : List Mark} (settles : Settles [] word) : Nested word := by
  match word with
  | [] => exact .nil
  | .closes b :: rest => exact absurd settles (by simp [Settles])
  | .opens b :: word =>
    obtain ⟨inner, rest, split, nested, behind⟩ := @settles_cons word b [] settles
    have shorter : rest.length < word.length := by
      rw [split, List.length_append, List.length_cons]
      omega
    subst split
    exact .group b nested (nested_of_settles behind)
termination_by word.length

/-- The nested words are those that a reader with an empty stack accepts. -/
theorem nested_iff_settles : Nested word ↔ Settles [] word := by
  refine ⟨fun nested => ?_, nested_of_settles⟩
  have settles := settles_append nested [] []
  rw [List.append_nil] at settles
  exact settles.mpr trivial

/-- A nested word ends before the first mark that closes something outside it. -/
theorem not_nested_closes (nested : Nested inner) : ¬ Nested (inner ++ .closes b :: rest) := by
  rw [nested_iff_settles, settles_append nested]
  simp [Settles]

end TexFormula.Pairing

/-! ### Readings -/

namespace TexFormula.Pairing

/-- A reading of the tokens from position `i` on, with the brackets that wait and their positions.
-/
inductive Reads (mark : Token → Option Mark) :
    Nat → List (Nat × Bracket) → List Token → List Link → Prop
  | done {i} : Reads mark i [] [] []
  | pass {i waiting t rest links} (plain : mark t = none)
    (more : Reads mark (i + 1) waiting rest links) : Reads mark i waiting (t :: rest) links
  | push {i waiting t rest links b} (opens : mark t = some (.opens b))
    (more : Reads mark (i + 1) ((i, b) :: waiting) rest links) :
    Reads mark i waiting (t :: rest) links
  | join {i waiting t rest links position b} (closes : mark t = some (.closes b))
    (more : Reads mark (i + 1) waiting rest links) :
    Reads mark i ((position, b) :: waiting) (t :: rest) (⟨position, i⟩ :: links)

/-- The word that the delimiters of a token list spell. -/
def wordOf (mark : Token → Option Mark) (tokens : List Token) : List Mark :=
  tokens.filterMap mark

/-- A token that a reading pushes. -/
def Opener (mark : Token → Option Mark) (t : Token) : Prop :=
  ∃ b, mark t = some (.opens b)

/-- A token that a reading joins. -/
def Closer (mark : Token → Option Mark) (t : Token) : Prop :=
  ∃ b, mark t = some (.closes b)

variable {mark : Token → Option Mark} {i : Nat} {waiting : List (Nat × Bracket)} {t : Token}
  {rest tokens : List Token} {links : List Link} {b : Bracket}

theorem wordOf_cons_of_none (plain : mark t = none) :
    wordOf mark (t :: rest) = wordOf mark rest :=
  List.filterMap_cons_none plain

theorem wordOf_cons_of_some {m : Mark} (marked : mark t = some m) :
    wordOf mark (t :: rest) = m :: wordOf mark rest :=
  List.filterMap_cons_some marked

theorem wordOf_append (front rest : List Token) :
    wordOf mark (front ++ rest) = wordOf mark front ++ wordOf mark rest :=
  List.filterMap_append

/-! ### One step -/

theorem reads_of_none (plain : mark t = none) :
    Reads mark i waiting (t :: rest) links ↔ Reads mark (i + 1) waiting rest links := by
  constructor
  · intro reads
    cases reads with
    | pass _ more => exact more
    | push opens => rw [plain] at opens; cases opens
    | join closes => rw [plain] at closes; cases closes
  · exact .pass plain

theorem reads_of_opens (opens : mark t = some (.opens b)) :
    Reads mark i waiting (t :: rest) links ↔ Reads mark (i + 1) ((i, b) :: waiting) rest links := by
  constructor
  · intro reads
    cases reads with
    | pass plain => rw [opens] at plain; cases plain
    | push other more => cases opens.symm.trans other; exact more
    | join closes => rw [opens] at closes; cases closes
  · exact .push opens

/-- A closer takes the last waiting bracket, and that must be its own. -/
theorem reads_of_closes (closes : mark t = some (.closes b)) :
    Reads mark i waiting (t :: rest) links ↔
      ∃ position below more, waiting = (position, b) :: below ∧
        Reads mark (i + 1) below rest more ∧ links = ⟨position, i⟩ :: more := by
  constructor
  · intro reads
    cases reads with
    | pass plain => rw [closes] at plain; cases plain
    | push opens => rw [closes] at opens; cases opens
    | join other more => cases closes.symm.trans other; exact ⟨_, _, _, rfl, more, rfl⟩
  · rintro ⟨position, below, more, rfl, reads, rfl⟩
    exact .join closes reads

/-! ### Acceptance -/

theorem Reads.settles (reads : Reads mark i waiting tokens links) :
    Settles (waiting.map Prod.snd) (wordOf mark tokens) := by
  induction reads with
  | done => trivial
  | pass plain _ ih => rwa [wordOf_cons_of_none plain]
  | push opens _ ih =>
    rw [wordOf_cons_of_some opens]
    exact settles_opens.mpr ih
  | join closes _ ih =>
    rw [wordOf_cons_of_some closes]
    exact ⟨rfl, ih⟩

theorem reads_of_settles (settles : Settles (waiting.map Prod.snd) (wordOf mark tokens)) :
    ∃ links, Reads mark i waiting tokens links := by
  induction tokens generalizing i waiting with
  | nil =>
    cases waiting with
    | nil => exact ⟨[], .done⟩
    | cons entry below => cases settles
  | cons t rest ih =>
    cases marked : mark t with
    | none =>
      rw [wordOf_cons_of_none marked] at settles
      obtain ⟨links, reads⟩ := @ih (i + 1) waiting settles
      exact ⟨links, .pass marked reads⟩
    | some m =>
      rw [wordOf_cons_of_some marked] at settles
      cases m with
      | opens b =>
        obtain ⟨links, reads⟩ := @ih (i + 1) ((i, b) :: waiting) (settles_opens.mp settles)
        exact ⟨links, .push marked reads⟩
      | closes b =>
        obtain ⟨below, split, later⟩ := settles_closes.mp settles
        obtain ⟨⟨position, other⟩, under, rfl, rfl, rfl⟩ := List.map_eq_cons_iff.mp split
        obtain ⟨links, reads⟩ := @ih (i + 1) under later
        exact ⟨_, .join marked reads⟩

/-- A token list has a reading if its word closes what is waiting and is nested apart from that. -/
theorem reads_iff_settles :
    (∃ links, Reads mark i waiting tokens links) ↔
      Settles (waiting.map Prod.snd) (wordOf mark tokens) :=
  ⟨fun ⟨_, reads⟩ => reads.settles, reads_of_settles⟩

theorem reads_iff_nested :
    (∃ links, Reads mark i [] tokens links) ↔ Nested (wordOf mark tokens) := by
  rw [reads_iff_settles, nested_iff_settles]
  rfl

/-- Only marks decide about a reading. -/
theorem Reads.congr {others : List Token} (reads : Reads mark i waiting tokens links)
    (same : others.map mark = tokens.map mark) : Reads mark i waiting others links := by
  induction reads generalizing others with
  | done => cases List.map_eq_nil_iff.mp same; exact .done
  | pass plain _ ih =>
    obtain ⟨u, rest, rfl, here, later⟩ := List.map_eq_cons_iff.mp same
    exact .pass (here.trans plain) (ih later)
  | push opens _ ih =>
    obtain ⟨u, rest, rfl, here, later⟩ := List.map_eq_cons_iff.mp same
    exact .push (here.trans opens) (ih later)
  | join closes _ ih =>
    obtain ⟨u, rest, rfl, here, later⟩ := List.map_eq_cons_iff.mp same
    exact .join (here.trans closes) (ih later)

/-- A token list has one reading at most. -/
theorem Reads.unique {others : List Link} (reads : Reads mark i waiting tokens links)
    (again : Reads mark i waiting tokens others) : others = links := by
  induction reads generalizing others with
  | done => cases again; rfl
  | pass plain _ ih => exact ih ((reads_of_none plain).mp again)
  | push opens _ ih => exact ih ((reads_of_opens opens).mp again)
  | join closes _ ih =>
    obtain ⟨_, _, more, split, later, rfl⟩ := (reads_of_closes closes).mp again
    cases split
    rw [ih later]

/-! ### Links -/

theorem Reads.scan (reads : Reads mark i waiting tokens links) :
    Scan (Opener mark) (Closer mark) i (waiting.map Prod.fst) tokens links := by
  induction reads with
  | done => exact .done
  | pass _ _ ih => exact .pass ih
  | push opens _ ih => exact .push ⟨_, opens⟩ ih
  | join closes _ ih => exact .join ⟨_, closes⟩ ih

/-- A reading leaves nobody alone: every waiting bracket and every delimiter is an end of a link. -/
theorem Reads.covers (reads : Reads mark i waiting tokens links) :
    (∀ w ∈ waiting, ∃ l ∈ links, l.opener = w.1) ∧
      ∀ k t, tokens[k]? = some t → mark t ≠ none →
        ∃ l ∈ links, l.opener = i + k ∨ l.closer = i + k := by
  induction reads with
  | done => simp
  | pass plain _ ih =>
    obtain ⟨waits, later⟩ := ih
    refine ⟨waits, fun k u found marked => ?_⟩
    cases k with
    | zero => cases found; exact absurd plain marked
    | succ k =>
      obtain ⟨l, member, ends⟩ := later k u found marked
      exact ⟨l, member, by omega⟩
  | push _ _ ih =>
    obtain ⟨waits, later⟩ := ih
    refine ⟨fun w member => waits w (List.mem_cons_of_mem _ member), fun k u found marked => ?_⟩
    cases k with
    | zero =>
      obtain ⟨l, member, ends⟩ := waits _ List.mem_cons_self
      exact ⟨l, member, .inl ends⟩
    | succ k =>
      obtain ⟨l, member, ends⟩ := later k u found marked
      exact ⟨l, member, by omega⟩
  | join _ _ ih =>
    obtain ⟨waits, later⟩ := ih
    refine ⟨fun w member => ?_, fun k u found marked => ?_⟩
    · rcases List.mem_cons.mp member with rfl | member
      · exact ⟨_, List.mem_cons_self, rfl⟩
      · obtain ⟨l, member, ends⟩ := waits w member
        exact ⟨l, List.mem_cons_of_mem _ member, ends⟩
    · cases k with
      | zero => exact ⟨_, List.mem_cons_self, .inr rfl⟩
      | succ k =>
        obtain ⟨l, member, ends⟩ := later k u found marked
        exact ⟨l, List.mem_cons_of_mem _ member, by omega⟩

/-- Behind the front of a list the reading goes on, with what waits there and with links of its own.
-/
theorem Reads.behind {front tokens : List Token}
    (reads : Reads mark i waiting (front ++ tokens) links)
    (below : Below i (waiting.map Prod.fst)) :
    ∃ later first more, links = first ++ more ∧ (∀ l ∈ first, l.closer < i + front.length) ∧
      Below (i + front.length) (later.map Prod.fst) ∧
      Reads mark (i + front.length) later tokens more := by
  induction front generalizing i waiting links with
  | nil => exact ⟨waiting, [], links, rfl, by simp, below, reads⟩
  | cons t front ih =>
    have shift : i + (t :: front).length = i + 1 + front.length := by
      rw [List.length_cons]
      omega
    rw [shift]
    cases reads with
    | pass _ more => exact ih more below.step
    | push _ more => exact ih more below.push
    | join _ more =>
      obtain ⟨later, first, last, rfl, early, under, reads⟩ := ih more below.pop.step
      refine ⟨later, _ :: first, last, rfl, fun l member => ?_, under, reads⟩
      rcases List.mem_cons.mp member with rfl | member
      · simp only
        omega
      · exact early l member

/-- What stands between the bracket that waits on top and its end is a nested word. -/
theorem Reads.span {i position : Nat} {b : Bracket} {waiting : List (Nat × Bracket)}
    {tokens : List Token} {links : List Link}
    (reads : Reads mark i ((position, b) :: waiting) tokens links) :
    ∃ inner close after more, tokens = inner ++ close :: after ∧ Nested (wordOf mark inner) ∧
      mark close = some (.closes b) ∧ ⟨position, i + inner.length⟩ ∈ links ∧
      Reads mark (i + inner.length + 1) waiting after more ∧ ∀ l ∈ more, l ∈ links := by
  match tokens, reads with
  | t :: rest, .pass plain more =>
    obtain ⟨inner, close, after, last, rfl, nested, closes, member, tail, kept⟩ := more.span
    have shift : i + (t :: inner).length = i + 1 + inner.length := by
      rw [List.length_cons]
      omega
    exact ⟨t :: inner, close, after, last, rfl, by rwa [wordOf_cons_of_none plain], closes,
      by rwa [shift], by rwa [shift], kept⟩
  | t :: rest, .join closes more =>
    exact ⟨[], t, rest, _, rfl, .nil, closes, List.mem_cons_self, more,
      fun l member => List.mem_cons_of_mem _ member⟩
  | t :: rest, .push opens more =>
    -- The bracket opened here is closed first, and the rest closes the one that waited before it.
    obtain ⟨first, firstClose, middle, others, split, nestedFirst, firstCloses, _, inside, kept⟩ :=
      more.span
    have shorter : middle.length < rest.length := by
      rw [split, List.length_append, List.length_cons]
      omega
    obtain ⟨inner, close, after, last, rfl, nested, closes, member, tail, keptLast⟩ := inside.span
    subst split
    have word : Nested (wordOf mark (t :: (first ++ firstClose :: inner))) := by
      rw [wordOf_cons_of_some opens, wordOf_append, wordOf_cons_of_some firstCloses]
      exact .group _ nestedFirst nested
    have shift : i + (t :: (first ++ firstClose :: inner)).length =
        i + 1 + first.length + 1 + inner.length := by
      simp only [List.length_cons, List.length_append]
      omega
    exact ⟨t :: (first ++ firstClose :: inner), close, after, last, by simp, word, closes,
      by rw [shift]; exact kept _ member, by rwa [shift],
      fun l member => kept l (keptLast l member)⟩
termination_by tokens.length

/-- An opener anywhere in a list is linked to the closer behind the nested word that follows it. -/
theorem Reads.span_at {before rest : List Token} {t : Token} {links : List Link} {b : Bracket}
    (reads : Reads mark 0 [] (before ++ t :: rest) links) (opens : mark t = some (.opens b)) :
    ∃ inner close after, rest = inner ++ close :: after ∧ Nested (wordOf mark inner) ∧
      mark close = some (.closes b) ∧
      ⟨before.length, before.length + 1 + inner.length⟩ ∈ links := by
  obtain ⟨later, first, more, rfl, _, _, here⟩ := reads.behind (below_nil 0)
  rw [Nat.zero_add] at here
  obtain ⟨inner, close, after, _, rfl, nested, closes, member, _, _⟩ :=
    ((reads_of_opens opens).mp here).span
  exact ⟨inner, close, after, rfl, nested, closes, List.mem_append_right first member⟩

/-- No list with a nested word goes on behind a closer that ends such a list. -/
theorem not_nested_append_closer {front more : List Token} {close : Token}
    (nested : Nested (wordOf mark front)) (closes : mark close = some (.closes b)) :
    ¬ Nested (wordOf mark (front ++ close :: more)) := by
  rw [wordOf_append, wordOf_cons_of_some closes]
  exact not_nested_closes nested

/-- A list with a nested word ends at one place only, if a closer follows it. -/
theorem append_closer_unique {inner inner' after after' : List Token} {close close' : Token}
    {b' : Bracket} (same : inner ++ close :: after = inner' ++ close' :: after')
    (nested : Nested (wordOf mark inner)) (nested' : Nested (wordOf mark inner'))
    (closes : mark close = some (.closes b)) (closes' : mark close' = some (.closes b')) :
    inner = inner' ∧ close = close' ∧ after = after' := by
  rcases List.append_eq_append_iff.mp same with ⟨more, longer, tail⟩ | ⟨more, longer, tail⟩
  · cases more with
    | nil => simp_all
    | cons u more =>
      cases tail
      exact absurd (longer ▸ nested') (not_nested_append_closer nested closes)
  · cases more with
    | nil => simp_all
    | cons u more =>
      cases tail
      exact absurd (longer ▸ nested) (not_nested_append_closer nested' closes')

end TexFormula.Pairing
