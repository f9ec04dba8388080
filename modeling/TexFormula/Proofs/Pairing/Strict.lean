import TexFormula.Proofs.Pairing.Offsets
import TexFormula.Proofs.Pairing.Reading

/-! Strict pairing of one family of delimiters is the reading of its marks: it succeeds if there is
a reading, and it finds the links of that reading. -/
namespace TexFormula.Pairing

/-- What a delimiter delimits, seen as one of a family. -/
def Family.bracket (f : Family) (t : Token) : Bracket :=
  match f with
  | .curly => .curly
  | .environment => .environment t.value

/-- An opener of a family. -/
def Family.Opens (f : Family) (t : Token) : Prop :=
  f.has t = true ∧ t.kind.opens = true

/-- A closer of a family. -/
def Family.Closes (f : Family) (t : Token) : Prop :=
  f.has t = true ∧ t.kind.opens = false ∧ t.kind.closes = true

/-- The mark that a delimiter of a family is. -/
def Family.mark? (f : Family) (t : Token) : Option Mark :=
  if f.has t && t.kind.opens then some (.opens (f.bracket t))
  else if f.has t && t.kind.closes then some (.closes (f.bracket t))
  else none

/-- The entry of a waiting opener. -/
def Family.enter (f : Family) (w : Nat × Token) : Nat × Bracket :=
  (w.1, f.bracket w.2)

variable {f : Family} {i : Nat} {waiting : Waiting} {t : Token} {rest tokens : List Token}
  {links : List Link} {b : Bracket}

theorem Family.agrees_iff (opener closer : Token) :
    f.agrees opener closer = true ↔ f.bracket opener = f.bracket closer := by
  cases f <;> simp [Family.agrees, Family.bracket]

theorem Family.mark?_eq_opens :
    f.mark? t = some (.opens b) ↔ f.Opens t ∧ b = f.bracket t := by
  unfold Family.mark? Family.Opens
  cases f.has t <;> cases t.kind.opens <;> cases t.kind.closes <;> simp [eq_comm]

theorem Family.mark?_eq_closes :
    f.mark? t = some (.closes b) ↔ f.Closes t ∧ b = f.bracket t := by
  unfold Family.mark? Family.Closes
  cases f.has t <;> cases t.kind.opens <;> cases t.kind.closes <;> simp [eq_comm]

theorem Family.mark?_eq_none :
    f.mark? t = none ↔ ¬ f.Opens t ∧ ¬ f.Closes t := by
  unfold Family.mark? Family.Opens Family.Closes
  cases f.has t <;> cases t.kind.opens <;> cases t.kind.closes <;> simp

theorem Family.mark?_unpaired (t : Token) : f.mark? t.unpaired = f.mark? t := by
  cases f <;> rfl

theorem Family.opener_iff : Opener f.mark? t ↔ f.Opens t := by
  constructor
  · rintro ⟨b, opens⟩
    exact (Family.mark?_eq_opens.mp opens).1
  · intro opens
    exact ⟨f.bracket t, Family.mark?_eq_opens.mpr ⟨opens, rfl⟩⟩

theorem Family.closer_iff : Closer f.mark? t ↔ f.Closes t := by
  constructor
  · rintro ⟨b, closes⟩
    exact (Family.mark?_eq_closes.mp closes).1
  · intro closes
    exact ⟨f.bracket t, Family.mark?_eq_closes.mpr ⟨closes, rfl⟩⟩

theorem strictLinks_of_none (plain : f.mark? t = none) :
    strictLinks f i waiting (t :: rest) = strictLinks f (i + 1) waiting rest := by
  obtain ⟨notOpens, notCloses⟩ := Family.mark?_eq_none.mp plain
  have first : ¬ (f.has t && t.kind.opens) = true := by
    simpa [Family.Opens] using notOpens
  have second : ¬ (f.has t && t.kind.closes) = true := by
    cases side : t.kind.opens <;> simp_all [Family.Closes]
  simp only [strictLinks, if_neg first, if_neg second]

theorem strictLinks_of_opens (opens : f.mark? t = some (.opens b)) :
    strictLinks f i waiting (t :: rest) = strictLinks f (i + 1) ((i, t) :: waiting) rest := by
  obtain ⟨⟨has, side⟩, rfl⟩ := Family.mark?_eq_opens.mp opens
  simp only [strictLinks, has, side, Bool.and_self, if_true]

theorem strictLinks_of_closes (closes : f.mark? t = some (.closes b)) :
    strictLinks f i waiting (t :: rest) = .ok links ↔
      ∃ position opener below more, waiting = (position, opener) :: below ∧ f.bracket opener = b ∧
        strictLinks f (i + 1) below rest = .ok more ∧ links = ⟨position, i⟩ :: more := by
  obtain ⟨⟨has, notOpens, side⟩, rfl⟩ := Family.mark?_eq_closes.mp closes
  simp only [strictLinks, has, notOpens, side, Bool.and_false, Bool.and_self, Bool.false_eq_true,
    if_false, if_true]
  cases waiting with
  | nil => simp
  | cons entry below =>
    obtain ⟨position, opener⟩ := entry
    by_cases agrees : f.agrees opener t = true
    · have same := (Family.agrees_iff opener t).mp agrees
      simp only [agrees, if_true]
      constructor
      · intro paired
        cases found : strictLinks f (i + 1) below rest with
        | error fault => rw [found] at paired; cases paired
        | ok more =>
          rw [found] at paired
          cases paired
          exact ⟨position, opener, below, more, rfl, same, found, rfl⟩
      · rintro ⟨_, _, _, _, split, _, found, rfl⟩
        cases split
        rw [found]
    · have different := mt (Family.agrees_iff opener t).mpr agrees
      simp [agrees, different]

/-- Strict pairing finds the links of the reading of its family, and fails if there is none. -/
theorem strictLinks_eq_ok_iff :
    strictLinks f i waiting tokens = .ok links ↔
      Reads f.mark? i (waiting.map f.enter) tokens links := by
  induction tokens generalizing i waiting links with
  | nil =>
    cases waiting with
    | nil =>
      constructor
      · intro paired
        cases paired
        exact .done
      · intro reads
        cases reads
        rfl
    | cons entry below =>
      constructor
      · intro paired
        cases paired
      · intro reads
        cases reads
  | cons t rest ih =>
    cases marked : f.mark? t with
    | none => rw [strictLinks_of_none marked, reads_of_none marked, ih]
    | some m =>
      cases m with
      | opens b =>
        rw [strictLinks_of_opens marked, reads_of_opens marked, ih,
          (Family.mark?_eq_opens.mp marked).2]
        rfl
      | closes b =>
        rw [strictLinks_of_closes marked, reads_of_closes marked]
        constructor
        · rintro ⟨position, opener, below, more, rfl, rfl, paired, rfl⟩
          exact ⟨position, below.map f.enter, more, rfl, ih.mp paired, rfl⟩
        · rintro ⟨position, below, more, split, reads, rfl⟩
          obtain ⟨⟨place, opener⟩, under, rfl, top, rfl⟩ := List.map_eq_cons_iff.mp split
          cases top
          exact ⟨place, opener, under, more, rfl, rfl, ih.mpr reads, rfl⟩

/-- A family of delimiters can be paired if its word is nested. -/
theorem strictLinks_ok_iff_nested :
    (∃ links, strictLinks f 0 [] tokens = .ok links) ↔ Nested (wordOf f.mark? tokens) := by
  simp only [strictLinks_eq_ok_iff, List.map_nil]
  exact reads_iff_nested

/-- The offsets that a list already has do not matter to strict pairing. -/
theorem strictLinks_congr {others : List Token}
    (same : others.map Token.unpaired = tokens.map Token.unpaired) :
    strictLinks f 0 [] others = .ok links ↔ strictLinks f 0 [] tokens = .ok links := by
  have marks : others.map f.mark? = tokens.map f.mark? :=
    map_eq_of_map_unpaired Family.mark?_unpaired same
  rw [strictLinks_eq_ok_iff, strictLinks_eq_ok_iff]
  exact ⟨fun reads => reads.congr marks.symm, fun reads => reads.congr marks⟩

end TexFormula.Pairing
