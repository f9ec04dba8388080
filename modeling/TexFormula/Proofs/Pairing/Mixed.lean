import TexFormula.Proofs.Pairing.Strict
import TexFormula.Proofs.Token.Coherence

/-! Braces and environments together. Each family is paired by itself, and afterwards the offsets
are searched for crossing pairs. The two passes and the search accept a list if the word of all its
strict delimiters is nested, and the pairs are those of the reading of that word. -/
namespace TexFormula.Pairing

/-- The mark of a brace or an environment delimiter. -/
def strictMark? (t : Token) : Option Mark :=
  if t.kind.curly || t.kind.env then
    if t.kind.opens then some (.opens (bracket t))
    else if t.kind.closes then some (.closes (bracket t))
    else none
  else none

/-- The family that a bracket belongs to. -/
def Family.owns (f : Family) (b : Bracket) : Bool :=
  match f, b with
  | .curly, .curly | .environment, .environment _ => true
  | _, _ => false

/-- The family of a bracket. -/
def Family.of : Bracket → Family
  | .curly => .curly
  | .environment _ => .environment

/-- The waiting brackets of a family. -/
def Family.own (f : Family) (waiting : List (Nat × Bracket)) : List (Nat × Bracket) :=
  waiting.filter fun w => f.owns w.2

/-- The entry of a waiting opener of either family. -/
def enter (w : Nat × Token) : Nat × Bracket :=
  (w.1, bracket w.2)

variable {i : Nat} {t : Token} {rest tokens all : List Token} {links : List Link} {b : Bracket}

theorem Family.owns_iff (f : Family) (b : Bracket) : f.owns b = true ↔ f = .of b := by
  cases f <;> cases b <;> simp [Family.owns, Family.of]

theorem Family.own_cons_of_owns {f : Family} (owns : f.owns b = true) (i : Nat)
    (waiting : List (Nat × Bracket)) : f.own ((i, b) :: waiting) = (i, b) :: f.own waiting :=
  List.filter_cons_of_pos (by exact owns)

theorem Family.own_cons_of_not_owns {f : Family} (foreign : f.owns b = false) (i : Nat)
    (waiting : List (Nat × Bracket)) : f.own ((i, b) :: waiting) = f.own waiting :=
  List.filter_cons_of_neg (by simp [foreign])

theorem strictMark?_unpaired (t : Token) : strictMark? t.unpaired = strictMark? t := rfl

theorem map_fst_enter (waiting : Waiting) :
    (waiting.map enter).map Prod.fst = waiting.map Prod.fst := by
  rw [List.map_map]
  rfl

theorem bracket_of_strictMark? {m : Mark} (marked : strictMark? t = some m) :
    bracket t = m.bracket := by
  unfold strictMark? at marked
  split at marked
  · split at marked
    · cases marked
      rfl
    · split at marked
      · cases marked
        rfl
      · cases marked
  · cases marked

/-- A family sees those marks that are its own. -/
theorem Family.mark?_eq_filter (f : Family) (coherent : t.kind.Coherent) :
    f.mark? t = (strictMark? t).filter fun m => f.owns m.bracket := by
  have plain := coherent.plainBrace
  unfold Family.mark? strictMark? Pairing.bracket
  cases curly : t.kind.curly <;> cases env : t.kind.env
  · cases f <;> simp [Family.has, curly, env]
  · cases f <;> cases t.kind.opens <;> cases t.kind.closes <;>
      simp [Family.has, Family.owns, Family.bracket, Mark.bracket, Option.filter, env, curly]
  · cases f <;> cases t.kind.opens <;> cases t.kind.closes <;>
      simp [Family.has, Family.owns, Family.bracket, Mark.bracket, Option.filter, env, curly]
  · rw [(plain curly).1] at env
    cases env

theorem Family.mark?_of_none (f : Family) (coherent : t.kind.Coherent)
    (plain : strictMark? t = none) : f.mark? t = none := by
  rw [f.mark?_eq_filter coherent, plain]
  rfl

theorem Family.mark?_of_owns {f : Family} {m : Mark} (coherent : t.kind.Coherent)
    (marked : strictMark? t = some m) (owns : f.owns m.bracket = true) : f.mark? t = some m := by
  rw [f.mark?_eq_filter coherent, marked, Option.filter_some, if_pos owns]

theorem Family.mark?_of_not_owns {f : Family} {m : Mark} (coherent : t.kind.Coherent)
    (marked : strictMark? t = some m) (foreign : f.owns m.bracket = false) : f.mark? t = none := by
  rw [f.mark?_eq_filter coherent, marked, Option.filter_some, if_neg (by simp [foreign])]

/-! ### One step of one family -/

/-- A family lets an opener wait if it is its own, and passes it by otherwise. -/
theorem Family.reads_own_of_opens (f : Family) {waiting : List (Nat × Bracket)}
    (coherent : t.kind.Coherent) (opens : strictMark? t = some (.opens b)) :
    Reads f.mark? i (f.own waiting) (t :: rest) links ↔
      Reads f.mark? (i + 1) (f.own ((i, b) :: waiting)) rest links := by
  cases owns : f.owns b with
  | true =>
    rw [Family.own_cons_of_owns owns]
    exact reads_of_opens (Family.mark?_of_owns coherent opens owns)
  | false =>
    rw [Family.own_cons_of_not_owns owns]
    exact reads_of_none (Family.mark?_of_not_owns coherent opens owns)

/-- A family joins a closer with its own opener, and passes both by otherwise. -/
theorem Family.reads_own_of_closes (f : Family) {waiting : List (Nat × Bracket)} {position : Nat}
    (coherent : t.kind.Coherent) (closes : strictMark? t = some (.closes b)) :
    Reads f.mark? i (f.own ((position, b) :: waiting)) (t :: rest) links ↔
      ∃ more, Reads f.mark? (i + 1) (f.own waiting) rest more ∧
        links = if f.owns b then ⟨position, i⟩ :: more else more := by
  cases owns : f.owns b with
  | true =>
    rw [Family.own_cons_of_owns owns, reads_of_closes (Family.mark?_of_owns coherent closes owns)]
    constructor
    · rintro ⟨_, _, more, split, reads, rfl⟩
      cases split
      exact ⟨more, reads, rfl⟩
    · rintro ⟨more, reads, rfl⟩
      exact ⟨position, _, more, rfl, reads, rfl⟩
  | false =>
    rw [Family.own_cons_of_not_owns owns,
      reads_of_none (Family.mark?_of_not_owns coherent closes owns)]
    simp

/-! ### From both families together to each by itself -/

/-- A reading of all strict delimiters is a reading of each family, and its links are theirs. -/
theorem Reads.families {waiting : List (Nat × Bracket)}
    (reads : Reads strictMark? i waiting tokens links)
    (coherent : ∀ t ∈ tokens, t.kind.Coherent) :
    ∃ own : Family → List Link,
      (∀ f, Reads f.mark? i (f.own waiting) tokens (own f)) ∧
      ∀ l, l ∈ links ↔ ∃ f, l ∈ own f := by
  induction reads with
  | done => exact ⟨fun _ => [], fun f => .done, by simp⟩
  | pass plain _ ih =>
    obtain ⟨here, later⟩ := List.forall_mem_cons.mp coherent
    obtain ⟨own, each, together⟩ := ih later
    exact ⟨own, fun f => .pass (f.mark?_of_none here plain) (each f), together⟩
  | push opens _ ih =>
    obtain ⟨here, later⟩ := List.forall_mem_cons.mp coherent
    obtain ⟨own, each, together⟩ := ih later
    exact ⟨own, fun f => (f.reads_own_of_opens here opens).mpr (each f), together⟩
  | @join i waiting t rest links position b closes _ ih =>
    obtain ⟨here, later⟩ := List.forall_mem_cons.mp coherent
    obtain ⟨own, each, together⟩ := ih later
    refine ⟨fun f => if f.owns b then ⟨position, i⟩ :: own f else own f, fun f => ?_, fun l => ?_⟩
    · exact (f.reads_own_of_closes here closes).mpr ⟨own f, each f, rfl⟩
    · rw [List.mem_cons, together]
      constructor
      · rintro (rfl | ⟨f, member⟩)
        · have owns : (Family.of b).owns b = true := (Family.owns_iff _ b).mpr rfl
          exact ⟨.of b, by simp [owns]⟩
        · refine ⟨f, ?_⟩
          cases owns : f.owns b with
          | true => simpa [owns] using .inr member
          | false => simpa [owns] using member
      · rintro ⟨f, member⟩
        cases owns : f.owns b with
        | true =>
          simp only [owns, if_true, List.mem_cons] at member
          exact member.imp_right fun member => ⟨f, member⟩
        | false =>
          simp only [owns, Bool.false_eq_true, if_false] at member
          exact .inr ⟨f, member⟩

/-! ### Each family by itself -/

/-- Both families are read from a place on, each with its own waiting brackets and with links of a
list. -/
def EachReads (links : List Link) (i : Nat) (waiting : List (Nat × Bracket)) (tokens : List Token) :
    Prop :=
  ∀ f : Family, ∃ own, Reads f.mark? i (f.own waiting) tokens own ∧ ∀ l ∈ own, l ∈ links

section EachReads

variable {waiting : List (Nat × Bracket)} {position : Nat}

theorem EachReads.pass (each : EachReads links i waiting (t :: rest)) (coherent : t.kind.Coherent)
    (plain : strictMark? t = none) : EachReads links (i + 1) waiting rest := by
  intro f
  obtain ⟨own, reads, known⟩ := each f
  exact ⟨own, (reads_of_none (f.mark?_of_none coherent plain)).mp reads, known⟩

theorem EachReads.push (each : EachReads links i waiting (t :: rest)) (coherent : t.kind.Coherent)
    (opens : strictMark? t = some (.opens b)) : EachReads links (i + 1) ((i, b) :: waiting) rest := by
  intro f
  obtain ⟨own, reads, known⟩ := each f
  exact ⟨own, (f.reads_own_of_opens coherent opens).mp reads, known⟩

theorem EachReads.pop (each : EachReads links i ((position, b) :: waiting) (t :: rest))
    (coherent : t.kind.Coherent) (closes : strictMark? t = some (.closes b)) :
    EachReads links (i + 1) waiting rest := by
  intro f
  obtain ⟨own, reads, known⟩ := each f
  obtain ⟨more, tail, rfl⟩ := (f.reads_own_of_closes coherent closes).mp reads
  refine ⟨more, tail, fun l member => known l ?_⟩
  split
  · exact List.mem_cons_of_mem _ member
  · exact member

/-- A waiting bracket is linked in its own family. -/
theorem EachReads.opener (each : EachReads links i ((position, b) :: waiting) tokens) :
    ∃ l ∈ links, l.opener = position := by
  obtain ⟨own, reads, known⟩ := each (.of b)
  rw [Family.own_cons_of_owns ((Family.owns_iff _ _).mpr rfl)] at reads
  obtain ⟨l, inside, opener⟩ := reads.covers.1 _ List.mem_cons_self
  exact ⟨l, known l inside, opener⟩

/-- A closer is linked to the last waiting bracket of its family, which is the one it closes. -/
theorem EachReads.closer (each : EachReads links i waiting (t :: rest))
    (coherent : t.kind.Coherent) (closes : strictMark? t = some (.closes b)) :
    ∃ position below, (Family.of b).own waiting = (position, b) :: below ∧
      ⟨position, i⟩ ∈ links := by
  obtain ⟨own, reads, known⟩ := each (.of b)
  have owns : (Family.of b).owns b = true := (Family.owns_iff _ b).mpr rfl
  obtain ⟨position, below, more, split, _, rfl⟩ :=
    (reads_of_closes (Family.mark?_of_owns coherent closes owns)).mp reads
  exact ⟨position, below, split, known _ List.mem_cons_self⟩

end EachReads

/-! ### The search for crossing pairs -/

variable {waiting : Waiting}

theorem delimits_of_strictMark? {m : Mark} (marked : strictMark? t = some m) :
    (t.kind.curly || t.kind.env) = true := by
  unfold strictMark? at marked
  split at marked
  · assumption
  · cases marked

theorem crossing?_of_none (plain : strictMark? t = none)
    (idle : t.offset ≠ 0 → strictMark? t ≠ none) :
    crossing? i waiting (t :: rest) = crossing? (i + 1) waiting rest := by
  have alone : t.offset = 0 := Decidable.byContradiction fun paired => idle paired plain
  simp [crossing?, alone]

theorem crossing?_of_opens (opens : strictMark? t = some (.opens b)) (forward : 0 < t.offset) :
    crossing? i waiting (t :: rest) = crossing? (i + 1) ((i, t) :: waiting) rest := by
  have paired : (t.offset == 0) = false := by simp; omega
  simp [crossing?, delimits_of_strictMark? opens, paired, forward]

/-- The search stops at a closer whose opener is not the last one that is open. -/
theorem crossing?_of_closes {place : Nat} {opener : Token}
    (closes : strictMark? t = some (.closes b)) (backward : t.offset < 0) :
    crossing? i ((place, opener) :: waiting) (t :: rest) =
      if (place : Int) = i + t.offset then crossing? (i + 1) waiting rest
      else some (bracket opener, i) := by
  have paired : (t.offset == 0) = false := by simp; omega
  have notForward : ¬ 0 < t.offset := by omega
  simp only [crossing?, delimits_of_strictMark? closes, paired, notForward, Bool.not_true,
    Bool.or_self, Bool.false_eq_true, if_false]

theorem offset_of_opener (linked : Linked all links) (found : all[i]? = some t) {l : Link}
    (member : l ∈ links) (opener : l.opener = i) : 0 < t.offset := by
  obtain ⟨u, atOpener, offset⟩ := linked.opener l member
  have forward := linked.forward l member
  rw [opener] at atOpener
  cases found.symm.trans atOpener
  omega

theorem offset_of_closer (linked : Linked all links) (found : all[i]? = some t)
    {position : Nat} (member : ⟨position, i⟩ ∈ links) :
    t.offset < 0 ∧ (position : Int) = i + t.offset := by
  obtain ⟨u, atCloser, offset⟩ := linked.closer _ member
  have forward := linked.forward _ member
  cases found.symm.trans atCloser
  simp only at offset forward
  omega

/-- The last opener that waits is the partner of a closer if it is of the same bracket. -/
theorem EachReads.partner_iff {place : Nat} {opener : Token} {lower : Waiting}
    (each : EachReads links i (((place, opener) :: lower).map enter) (t :: rest))
    (linked : Linked all links) (found : all[i]? = some t) (coherent : t.kind.Coherent)
    (closes : strictMark? t = some (.closes b))
    (below : Below i (((place, opener) :: lower).map Prod.fst)) :
    t.offset < 0 ∧ ((place : Int) = i + t.offset ↔ bracket opener = b) := by
  obtain ⟨position, under, split, inside⟩ := each.closer coherent closes
  obtain ⟨backward, offset⟩ := offset_of_closer linked found inside
  refine ⟨backward, fun top => ?_, fun same => ?_⟩
  · have waits : (position, b) ∈ (Family.of b).own (((place, opener) :: lower).map enter) := by
      rw [split]
      exact List.mem_cons_self
    have equal : enter (place, opener) = (position, b) := by
      rw [← map_fst_enter] at below
      refine below.unique List.mem_cons_self (List.mem_filter.mp waits).1 ?_
      simp only [enter]
      omega
    exact congrArg Prod.snd equal
  · rw [List.map_cons, enter, same, Family.own_cons_of_owns ((Family.owns_iff _ _).mpr rfl)] at split
    obtain rfl : place = position := congrArg Prod.fst (List.cons.inj split).1
    exact offset

/-- The search finds nothing if the pairs are those of a reading of all strict delimiters. -/
theorem crossing?_of_reads (linked : Linked all links)
    (idle : ∀ t ∈ all, t.offset ≠ 0 → strictMark? t ≠ none) {joined : List Link}
    (here : all.drop i = tokens) (reads : Reads strictMark? i (waiting.map enter) tokens joined)
    (known : ∀ l ∈ joined, l ∈ links) : crossing? i waiting tokens = none := by
  induction tokens generalizing i waiting joined with
  | nil => rfl
  | cons t rest ih =>
    obtain ⟨found, behind⟩ := next_of_drop here
    cases marked : strictMark? t with
    | none =>
      rw [crossing?_of_none marked (idle t (List.mem_of_getElem? found))]
      exact ih behind ((reads_of_none marked).mp reads) known
    | some m =>
      cases m with
      | opens b =>
        have more := (reads_of_opens marked).mp reads
        obtain ⟨l, member, opener⟩ := more.covers.1 _ List.mem_cons_self
        rw [crossing?_of_opens marked (offset_of_opener linked found (known l member) opener)]
        have same : bracket t = b := bracket_of_strictMark? marked
        subst same
        exact ih behind more known
      | closes b =>
        obtain ⟨position, below, more, split, tail, rfl⟩ := (reads_of_closes marked).mp reads
        obtain ⟨⟨place, opener⟩, under, rfl, top, rfl⟩ := List.map_eq_cons_iff.mp split
        cases top
        obtain ⟨backward, offset⟩ := offset_of_closer linked found (known _ List.mem_cons_self)
        rw [crossing?_of_closes marked backward, if_pos offset]
        exact ih behind tail fun l member => known l (List.mem_cons_of_mem _ member)

/-- If the search finds nothing, readings of both families make up one of all strict delimiters. -/
theorem reads_of_uncrossed (linked : Linked all links) (coherent : ∀ t ∈ all, t.kind.Coherent)
    (idle : ∀ t ∈ all, t.offset ≠ 0 → strictMark? t ≠ none)
    (here : all.drop i = tokens) (below : Below i (waiting.map Prod.fst))
    (each : EachReads links i (waiting.map enter) tokens)
    (uncrossed : crossing? i waiting tokens = none) :
    ∃ joined, Reads strictMark? i (waiting.map enter) tokens joined := by
  induction tokens generalizing i waiting with
  | nil =>
    cases waiting with
    | nil => exact ⟨[], .done⟩
    | cons entry rest =>
      obtain ⟨own, reads, _⟩ := each (.of (bracket entry.2))
      rw [List.map_cons, enter, Family.own_cons_of_owns ((Family.owns_iff _ _).mpr rfl)] at reads
      cases reads
  | cons t rest ih =>
    obtain ⟨found, behind⟩ := next_of_drop here
    have member := List.mem_of_getElem? found
    have kind := coherent t member
    cases marked : strictMark? t with
    | none =>
      rw [crossing?_of_none marked (idle t member)] at uncrossed
      obtain ⟨joined, reads⟩ := ih behind below.step (each.pass kind marked) uncrossed
      exact ⟨joined, .pass marked reads⟩
    | some m =>
      cases m with
      | opens b =>
        have same : bracket t = b := bracket_of_strictMark? marked
        have later : EachReads links (i + 1) (((i, t) :: waiting).map enter) rest := by
          rw [List.map_cons, enter, same]
          exact each.push kind marked
        -- The opener is linked in its own family, so that its offset leads forward.
        obtain ⟨l, inside, opener⟩ := later.opener
        rw [crossing?_of_opens marked (offset_of_opener linked found inside opener)] at uncrossed
        have under : Below (i + 1) (((i, t) :: waiting).map Prod.fst) := below.push
        obtain ⟨joined, all⟩ := ih behind under later uncrossed
        rw [List.map_cons, enter, same] at all
        exact ⟨joined, .push marked all⟩
      | closes b =>
        cases waiting with
        | nil =>
          obtain ⟨_, _, none, _⟩ := each.closer kind marked
          cases none
        | cons entry lower =>
          obtain ⟨place, opener⟩ := entry
          obtain ⟨backward, partner⟩ := each.partner_iff linked found kind marked below
          rw [crossing?_of_closes marked backward] at uncrossed
          split at uncrossed
          case isTrue top =>
            rw [List.map_cons, enter, partner.mp top] at each ⊢
            obtain ⟨joined, all⟩ := ih behind below.pop.step (each.pop kind marked) uncrossed
            exact ⟨_, .join marked all⟩
          case isFalse => cases uncrossed

end TexFormula.Pairing
