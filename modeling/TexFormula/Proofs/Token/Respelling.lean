import TexFormula.Text.Alphabetic
import TexFormula.Text.CharSet
import TexFormula.Text.Trim
import TexFormula.Token.Lexer

/-! Respelled sources. The tokens of a source are written out and read again. Comments are left out
and a run of blanks becomes one blank, and besides that the same tokens come back: no token takes in
the first character of the next one. Reading looks at what follows a token only to see where it
ends, so it is enough that what is written there begins as the source went on, or begins with a
blank. -/

/-! ### Blanks, letters and numbers

Blanks are neither letters nor numbers. Two sets of characters share none if all their ranges
are apart, and that is checked range by range. -/

namespace TexFormula.Text

/-- Whether no range of one set meets a range of the other. -/
def CharSet.isDisjoint (s r : CharSet) : Bool :=
  s.all fun a => r.all fun b => a.2 < b.1 || b.2 < a.1

theorem CharSet.range_of_containsCode {n : Nat} {s : CharSet} (inside : s.containsCode n = true) :
    ∃ a ∈ s, a.1 ≤ n ∧ n ≤ a.2 := by
  induction s with
  | nil => cases inside
  | cons a rest ih =>
    obtain ⟨lo, hi⟩ := a
    by_cases before : n ≤ hi
    · simp only [containsCode, before, if_true, decide_eq_true_eq] at inside
      exact ⟨(lo, hi), List.mem_cons_self, inside, before⟩
    · simp only [containsCode, before, if_false] at inside
      obtain ⟨b, member, bounds⟩ := ih inside
      exact ⟨b, List.mem_cons_of_mem _ member, bounds⟩

theorem CharSet.not_contains_of_isDisjoint {s r : CharSet} (apart : s.isDisjoint r = true)
    {c : Char} (inside : s.contains c = true) : r.contains c = false := by
  apply Bool.eq_false_iff.mpr
  intro other
  obtain ⟨a, left, low, high⟩ := range_of_containsCode inside
  obtain ⟨b, right, low', high'⟩ := range_of_containsCode other
  have away := List.all_eq_true.mp (List.all_eq_true.mp apart a left) b right
  simp only [Bool.or_eq_true, decide_eq_true_eq] at away
  omega

theorem not_isAlphabetic_of_isBlank {c : Char} (blank : isBlank c = true) :
    isAlphabetic c = false := by
  have apart : blankRanges.isDisjoint alphabeticRanges = true := by decide +kernel
  exact CharSet.not_contains_of_isDisjoint apart blank

theorem not_isNumeric_of_isBlank {c : Char} (blank : isBlank c = true) : isNumeric c = false := by
  have apart : blankRanges.isDisjoint numericRanges = true := by decide +kernel
  exact CharSet.not_contains_of_isDisjoint apart blank

end TexFormula.Text

/-! ### Sources -/

namespace TexFormula.Token

/-- Whether a token is a run of blanks. -/
def isPlainBlank (t : Token) : Bool :=
  t.kind.whitespace && !t.kind.command

/-- The tokens with one blank in place of several that follow each other. -/
def mergeBlanks : List Token → List Token
  | [] => []
  | t :: rest =>
    if t.isPlainBlank && rest.head?.any isPlainBlank then mergeBlanks rest
    else t :: mergeBlanks rest

/-- A run of blanks. -/
def blank : Token :=
  { kind := { whitespace := true }, value := " " }

/-- A backslash and a blank. -/
def controlSpace : Token :=
  { kind := { whitespace := true, command := true }, value := " " }

/-- A comment with the given text. -/
def remark (text : List Char) : Token :=
  { kind := { comment := true }, value := String.ofList text }

/-- A source, its tokens, and the text that the tokens are written with, one after the other. The
text is the source with each run of blanks written as one blank and without the comments. -/
inductive Respelled : List Char → List Token → List Char → Prop
  | nil : Respelled [] [] []
  | blanks {run rest tokens text} (taken : run ≠ []) (blanks : ∀ c ∈ run, Text.isBlank c = true)
    (more : Respelled rest tokens text) : Respelled (run ++ rest) (blank :: tokens) (' ' :: text)
  | control {c rest tokens text} (space : Text.isBlank c = true)
    (more : Respelled rest tokens text) :
    Respelled ('\\' :: c :: rest) (controlSpace :: tokens) ('\\' :: ' ' :: text)
  | comment {line rest tokens text} (one : '\n' ∉ line) (ends : ∀ c ∈ rest.head?, c = '\n')
    (more : Respelled rest tokens text) :
    Respelled ('%' :: (line ++ rest)) (remark line :: tokens) text
  | token {t rest tokens text} (heard : t.kind.comment = false) (solid : t.kind.whitespace = false)
    (more : Respelled rest tokens text) :
    Respelled (t.spelling.toList ++ rest) (t :: tokens) (t.spelling.toList ++ text)

/-- The characters that a token list is written with. -/
def written (tokens : List Token) : List Char :=
  (tokens.filter (!·.kind.comment)).flatMap fun t => t.spelling.toList

theorem toList_spellingAll (tokens : List Token) :
    (spellingAll tokens).toList = written tokens := by
  rw [spellingAll, String.toList_join, List.flatMap_map, written]

/-- Written text that goes on as the rest of the source did, or with a blank if there was a rest. -/
def Resumes (rest text : List Char) : Prop :=
  text.head? = rest.head? ∨ rest ≠ [] ∧ ∀ c ∈ text.head?, c = ' '

theorem Resumes.stops {p : Char → Bool} {rest text : List Char} (resumes : Resumes rest text)
    (space : p ' ' = false) (stops : ∀ c ∈ rest.head?, p c = false) :
    ∀ c ∈ text.head?, p c = false := by
  intro c first
  rcases resumes with same | ⟨_, spaced⟩
  · exact stops c (same ▸ first)
  · rw [spaced c first]
    exact space

/-- What a reader finds behind `front` is spelled with `front` and with what was taken behind it,
and is found again in its spelling, whatever text resumes the rest. -/
def Respells (front : List Char) (reader : List Char → Token × List Char) (cs : List Char) : Prop :=
  ∃ body, cs = body ++ (reader cs).2 ∧ (reader cs).1.spelling.toList = front ++ body ∧
    (reader cs).1.kind.comment = false ∧ (reader cs).1.kind.whitespace = false ∧
    ∀ text, Resumes (reader cs).2 text → reader (body ++ text) = ((reader cs).1, text)

variable {c d : Char} {cs front : List Char} {p : Char → Bool} {t : Token}

theorem takeWhile_of_stops {front text : List Char} (kept : ∀ c ∈ front, p c = true)
    (stops : ∀ c ∈ text.head?, p c = false) :
    (front ++ text).takeWhile p = front ∧ (front ++ text).dropWhile p = text := by
  rw [List.takeWhile_append_of_pos kept, List.dropWhile_append_of_pos kept]
  cases text with
  | nil => simp
  | cons c text =>
    have stop := stops c rfl
    simp [stop]

theorem stops_dropWhile (p : Char → Bool) (cs : List Char) :
    ∀ c ∈ (cs.dropWhile p).head?, p c = false := by
  intro c first
  have stop := List.head?_dropWhile_not p cs
  rw [Option.mem_def.mp first] at stop
  exact stop

theorem kept_takeWhile (p : Char → Bool) (cs : List Char) :
    ∀ c ∈ cs.takeWhile p, p c = true :=
  List.all_eq_true.mp List.all_takeWhile

/-! ### Readers -/

/-- A token that ends where it ends, whatever follows. -/
theorem respells_of_fixed {reader : List Char → Token × List Char}
    (reads : ∀ text, reader text = (t, text)) (spelled : t.spelling.toList = front)
    (solid : t.kind.comment = false ∧ t.kind.whitespace = false) : Respells front reader cs := by
  refine ⟨[], ?_, ?_, ?_, ?_, fun text _ => ?_⟩
  · rw [reads, List.nil_append]
  · rw [reads, List.append_nil, spelled]
  · rw [reads]; exact solid.1
  · rw [reads]; exact solid.2
  · rw [List.nil_append, reads, reads]

theorem respells_ite {q : Prop} [Decidable q] {yes no : List Char → Token × List Char}
    (left : q → Respells front yes cs) (right : ¬ q → Respells front no cs) :
    Respells front (fun text => if q then yes text else no text) cs := by
  by_cases h : q
  · simpa only [h, if_true] using left h
  · simpa only [h, if_false] using right h

/-- A reader that looks at one more character. -/
theorem respells_cons {reader : List Char → Token × List Char}
    (respells : Respells (front ++ [d]) (fun text => reader (d :: text)) cs) :
    Respells front reader (d :: cs) := by
  obtain ⟨body, split, spelled, solid, word, again⟩ := respells
  refine ⟨d :: body, ?_, ?_, solid, word, again⟩
  · rw [List.cons_append, ← split]
  · rw [spelled, List.append_assoc, List.singleton_append]

/-- A letter or the star of a command. -/
def isCommandPart (c : Char) : Bool :=
  Text.isAlphabetic c || c == '*'

theorem nextCommand_starred {letters : List Char}
    (kept : ∀ c ∈ letters, Text.isAlphabetic c = true) (text : List Char) :
    nextCommand c (letters ++ '*' :: text) =
      ({ kind := { command := true, star := true }, value := String.ofList (c :: letters) },
        text) := by
  have stops : ∀ c ∈ ('*' :: text).head?, Text.isAlphabetic c = false := by
    intro e first
    cases first
    decide
  obtain ⟨taken, dropped⟩ := takeWhile_of_stops kept stops
  rw [nextCommand, taken, dropped]
  rfl

theorem nextCommand_plain {letters text : List Char}
    (kept : ∀ c ∈ letters, Text.isAlphabetic c = true)
    (stops : ∀ c ∈ text.head?, isCommandPart c = false) : nextCommand c (letters ++ text) =
      ({ kind := { command := true }, value := String.ofList (c :: letters) }, text) := by
  have ends : ∀ c ∈ text.head?, Text.isAlphabetic c = false := by
    intro e first
    have stop := stops e first
    simp only [isCommandPart, Bool.or_eq_false_iff] at stop
    exact stop.1
  obtain ⟨taken, dropped⟩ := takeWhile_of_stops kept ends
  rw [nextCommand, taken, dropped]
  split
  case h_1 rest =>
    have stop := stops '*' rfl
    simp [isCommandPart] at stop
  case h_2 => rfl

theorem respells_nextCommand (c : Char) (cs : List Char) :
    Respells ['\\', c] (nextCommand c) cs := by
  have kept := kept_takeWhile Text.isAlphabetic cs
  have ends := stops_dropWhile Text.isAlphabetic cs
  have whole : cs.takeWhile Text.isAlphabetic ++ cs.dropWhile Text.isAlphabetic = cs :=
    List.takeWhile_append_dropWhile
  generalize cs.takeWhile Text.isAlphabetic = letters at kept whole
  generalize cs.dropWhile Text.isAlphabetic = rest at ends whole
  subst whole
  by_cases starred : '*' ∈ rest.head?
  · obtain ⟨text, rfl⟩ := List.head?_eq_some_iff.mp starred
    have reads := @nextCommand_starred c letters kept text
    refine ⟨letters ++ ['*'], ?_, ?_, ?_, ?_, fun text _ => ?_⟩
    · rw [reads, List.append_assoc, List.singleton_append]
    · rw [reads]; simp [spelling, isBlank]
    · rw [reads]
    · rw [reads]
    · rw [reads, List.append_assoc, List.singleton_append, nextCommand_starred kept]
  · have stops : ∀ c ∈ rest.head?, isCommandPart c = false := by
      intro e first
      have other : e ≠ '*' := fun same => starred (same ▸ first)
      simp [isCommandPart, ends e first, other]
    have reads := @nextCommand_plain c letters rest kept stops
    refine ⟨letters, ?_, ?_, ?_, ?_, fun text resumes => ?_⟩
    · rw [reads]
    · rw [reads]; simp [spelling, isBlank]
    · rw [reads]
    · rw [reads]
    · rw [reads] at resumes ⊢
      exact nextCommand_plain kept (resumes.stops (by decide) stops)

theorem respells_nextEscaped (solid : ∀ c ∈ cs.head?, Text.isBlank c = false) :
    Respells ['\\'] nextEscaped cs := by
  cases cs with
  | nil =>
    refine ⟨[], rfl, by simp [nextEscaped, single, spelling, isBlank], rfl, rfl,
      fun text resumes => ?_⟩
    rcases resumes with none | ⟨some, _⟩
    · rw [List.nil_append, List.head?_eq_none_iff.mp none]
      rfl
    · exact absurd rfl some
  | cons d ds =>
    have plain := solid d rfl
    refine respells_cons ?_
    unfold nextEscaped
    refine respells_ite (fun bar => ?_) fun _ => respells_ite (fun left => ?_) fun _ =>
      respells_ite (fun right => ?_) fun _ => respells_ite (fun backslash => ?_) fun _ =>
      respells_ite (fun reserved => ?_) fun _ => respells_ite (fun space => ?_) fun _ =>
      respells_ite (fun letter => ?_) fun _ => ?_
    case refine_6 => rw [plain] at space; cases space
    case refine_7 => exact respells_nextCommand d ds
    all_goals
      refine respells_of_fixed (fun text => rfl) ?_ ⟨rfl, rfl⟩
      simp [spelling, single, isBlank]

theorem respells_nextPlaceholder (cs : List Char) : Respells ['#'] nextPlaceholder cs := by
  by_cases digit : ∃ d ds, cs = d :: ds ∧ d.isDigit = true
  · obtain ⟨d, ds, rfl, digit⟩ := digit
    refine respells_cons (respells_of_fixed (t := single { argument := true } d) (fun text => ?_) ?_
      ⟨rfl, rfl⟩)
    · rw [nextPlaceholder, if_pos digit]
    · simp [spelling, single, isBlank]
  · have alone : ∀ text : List Char, (∀ c ∈ text.head?, c.isDigit = false) →
        nextPlaceholder text = (single { reserved := true } '#', text) := by
      intro text stops
      cases text with
      | nil => rfl
      | cons d ds => rw [nextPlaceholder, if_neg (by simp [stops d rfl])]
    have stops : ∀ c ∈ cs.head?, c.isDigit = false := by
      intro c first
      obtain ⟨ds, rfl⟩ := List.head?_eq_some_iff.mp first
      exact Bool.eq_false_iff.mpr fun is => digit ⟨c, ds, rfl, is⟩
    have reads := alone cs stops
    refine ⟨[], ?_, ?_, ?_, ?_, fun text resumes => ?_⟩
    · rw [reads, List.nil_append]
    · rw [reads]; simp [spelling, single, isBlank]
    · rw [reads]; rfl
    · rw [reads]; rfl
    · rw [reads] at resumes ⊢
      exact alone text (resumes.stops (by decide) stops)

theorem respells_number (c : Char) (cs : List Char) :
    Respells [c] (fun text =>
      ({ kind := { number := true }, value := String.ofList (c :: text.takeWhile isNumberPart) },
        text.dropWhile isNumberPart)) cs := by
  have kept := kept_takeWhile isNumberPart cs
  refine ⟨cs.takeWhile isNumberPart, List.takeWhile_append_dropWhile.symm, ?_, rfl, rfl,
    fun text resumes => ?_⟩
  · simp [spelling, isBlank]
  · obtain ⟨taken, dropped⟩ :=
      takeWhile_of_stops kept (resumes.stops (by decide) (stops_dropWhile isNumberPart cs))
    simp only [taken, dropped]

/-- The characters that begin a token of a kind of their own. -/
def signs : List Char :=
  ['\\', '\x7b', '\x7d', '(', ')', '[', ']', '^', '_', '%', '#', '$', '&', '~', '|']

private theorem ne_of_isBlank (space : Text.isBlank c = true) : ∀ d ∈ signs, c ≠ d := by
  have solid : (signs.all fun d => !Text.isBlank d) = true := by decide +kernel
  rintro d member rfl
  have other := List.all_eq_true.mp solid c member
  rw [space] at other
  cases other

theorem nextFrom_of_isBlank (space : Text.isBlank c = true) (cs : List Char) :
    nextFrom c cs = (blank, cs.dropWhile Text.isBlank) := by
  have other := ne_of_isBlank space
  simp only [signs, List.forall_mem_cons] at other
  simp [nextFrom, Text.not_isAlphabetic_of_isBlank space, Text.not_isNumeric_of_isBlank space,
    other, space, leftBrackets, rightBrackets, reservedChars, blank]

theorem nextEscaped_of_isBlank (space : Text.isBlank c = true) (cs : List Char) :
    nextEscaped (c :: cs) = (controlSpace, cs) := by
  have other := ne_of_isBlank space
  simp only [signs, List.forall_mem_cons] at other
  simp [nextEscaped, other, space, leftBrackets, rightBrackets, reservedChars, controlSpace]

/-- A token of one character. -/
theorem respells_nextFrom (solid : Text.isBlank c = false) (percent : c ≠ '%')
    (behind : c = '\\' → ∀ d ∈ cs.head?, Text.isBlank d = false) :
    Respells [c] (nextFrom c) cs := by
  by_cases backslash : c = '\\'
  · subst backslash
    exact respells_nextEscaped (behind rfl)
  · by_cases sign : c = '#'
    · subst sign
      exact respells_nextPlaceholder cs
    · unfold nextFrom
      refine respells_ite (fun letter => ?_) fun other => respells_ite (fun number => ?_) fun _ =>
        respells_ite (fun escape => ?_) fun _ => respells_ite (fun opens => ?_) fun _ =>
        respells_ite (fun closes => ?_) fun _ => respells_ite (fun left => ?_) fun _ =>
        respells_ite (fun right => ?_) fun _ => respells_ite (fun script => ?_) fun _ =>
        respells_ite (fun comment => ?_) fun _ => respells_ite (fun placeholder => ?_) fun _ =>
        respells_ite (fun reserved => ?_) fun _ => respells_ite (fun space => ?_) fun _ =>
        respells_ite (fun bar => ?_) fun _ => ?_
      case refine_2 => exact respells_number c cs
      case refine_3 => exact absurd (beq_iff_eq.mp escape) backslash
      case refine_9 => exact absurd (beq_iff_eq.mp comment) percent
      case refine_10 => exact absurd (beq_iff_eq.mp placeholder) sign
      case refine_12 => rw [solid] at space; cases space
      all_goals
        refine respells_of_fixed (fun text => rfl) ?_ ⟨rfl, rfl⟩
        simp [spelling, single, isBlank]

/-- What a token is read as, by its first character: a comment, a run of blanks, a backslash and a
blank, or something that is found again in its spelling. -/
theorem nextFrom_cases (c : Char) (cs : List Char) :
    (c = '%' ∧ nextFrom c cs = (remark (cs.takeWhile (· != '\n')), cs.dropWhile (· != '\n'))) ∨
    (Text.isBlank c = true ∧ nextFrom c cs = (blank, cs.dropWhile Text.isBlank)) ∨
    (∃ b rest, c = '\\' ∧ cs = b :: rest ∧ Text.isBlank b = true ∧
      nextFrom c cs = (controlSpace, rest)) ∨
    (Text.isBlank c = false ∧ Respells [c] (nextFrom c) cs) := by
  by_cases percent : c = '%'
  · subst percent
    exact .inl ⟨rfl, rfl⟩
  refine .inr ?_
  cases space : Text.isBlank c with
  | true => exact .inl ⟨rfl, nextFrom_of_isBlank space cs⟩
  | false =>
    refine .inr ?_
    by_cases control : ∃ b rest, c = '\\' ∧ cs = b :: rest ∧ Text.isBlank b = true
    · obtain ⟨b, rest, rfl, rfl, blank⟩ := control
      exact .inl ⟨b, rest, rfl, rfl, blank, nextEscaped_of_isBlank blank rest⟩
    · refine .inr ⟨rfl, respells_nextFrom space percent fun escape d first => ?_⟩
      obtain ⟨rest, split⟩ := List.head?_eq_some_iff.mp first
      exact Bool.eq_false_iff.mpr fun blank => control ⟨d, rest, escape, split, blank⟩

/-! ### Token lists -/

theorem written_cons {tokens : List Token} (heard : t.kind.comment = false) :
    written (t :: tokens) = t.spelling.toList ++ written tokens := by
  rw [written, List.filter_cons_of_pos (by simp [heard]), List.flatMap_cons, written]

theorem written_remark (text : List Char) (tokens : List Token) :
    written (remark text :: tokens) = written tokens := by
  rw [written, List.filter_cons_of_neg (by simp [remark]), written]

theorem spelling_blank : blank.spelling.toList = [' '] := by decide

theorem spelling_controlSpace : controlSpace.spelling.toList = ['\\', ' '] := by decide

theorem lexChars_of_nextFrom {rest : List Char} (read : nextFrom c cs = (t, rest)) :
    lexChars (c :: cs) = t :: lexChars rest := by
  rw [lexChars, read]

/-- What is written for the tokens of a source begins as the source does, or with a blank. -/
theorem resumes_written (cs : List Char) : Resumes cs (written (lexChars cs)) := by
  cases cs with
  | nil => exact .inl (by simp [lexChars, written])
  | cons c cs =>
    rcases nextFrom_cases c cs with
      ⟨_, read⟩ | ⟨_, read⟩ | ⟨b, rest, rfl, rfl, _, read⟩ | ⟨_, respells⟩
    · -- Behind a comment comes the line break that ends it, or nothing.
      rw [lexChars_of_nextFrom read, written_remark]
      refine .inr ⟨by simp, fun d first => ?_⟩
      have stops := stops_dropWhile (· != '\n') cs
      cases behind : cs.dropWhile (· != '\n') with
      | nil => simp [behind, lexChars, written] at first
      | cons e rest =>
        have line : e = '\n' := by simpa using stops e (by rw [behind]; rfl)
        subst line
        have next : nextFrom '\n' rest = (blank, rest.dropWhile Text.isBlank) :=
          nextFrom_of_isBlank (by decide) rest
        rw [behind, lexChars_of_nextFrom next, written_cons rfl, spelling_blank] at first
        simpa using first.symm
    · rw [lexChars_of_nextFrom read, written_cons rfl, spelling_blank]
      exact .inr ⟨by simp, by simp⟩
    · rw [lexChars_of_nextFrom read, written_cons rfl, spelling_controlSpace]
      exact .inl rfl
    · obtain ⟨body, _, spelled, heard, _, _⟩ := respells
      rw [lexChars, written_cons heard, spelled]
      exact .inl rfl

/-- The tokens of a source are comments, blanks, or begin with a character that is no blank. -/
theorem blank_or_solid (cs : List Char) : ∀ t ∈ lexChars cs, t.kind.comment = false →
    t = blank ∨ t.isPlainBlank = false ∧
      ∃ d body, t.spelling.toList = d :: body ∧ Text.isBlank d = false := by
  fun_induction lexChars cs with
  | case1 => simp
  | case2 c cs ih =>
    refine List.forall_mem_cons.mpr ⟨fun heard => ?_, ih⟩
    rcases nextFrom_cases c cs with
      ⟨_, read⟩ | ⟨_, read⟩ | ⟨b, rest, rfl, rfl, _, read⟩ | ⟨solid, respells⟩
    · rw [read] at heard
      cases heard
    · exact .inl (by rw [read])
    · rw [read]
      exact .inr ⟨rfl, '\\', [' '], spelling_controlSpace, by decide⟩
    · obtain ⟨body, _, spelled, _, word, _⟩ := respells
      exact .inr ⟨by simp [isPlainBlank, word], c, body, spelled, solid⟩

theorem lexChars_blank (text : List Char) :
    lexChars (' ' :: text) = blank :: lexChars (text.dropWhile Text.isBlank) :=
  lexChars_of_nextFrom (nextFrom_of_isBlank (by decide) text)

/-- A blank in front of what is written for a source joins the blanks that are there. -/
theorem lexChars_blank_written {cs : List Char} (again : lexChars (written (lexChars cs)) =
    mergeBlanks ((lexChars cs).filter (!·.kind.comment))) :
    lexChars (' ' :: written (lexChars cs)) =
      mergeBlanks (blank :: (lexChars cs).filter (!·.kind.comment)) := by
  have kinds := blank_or_solid cs
  have text : written (lexChars cs) = ((lexChars cs).filter (!·.kind.comment)).flatMap
      fun t => t.spelling.toList := rfl
  generalize lexChars cs = tokens at again kinds text
  cases kept : tokens.filter (!·.kind.comment) with
  | nil =>
    rw [text, kept]
    simp [lexChars_blank, mergeBlanks, lexChars]
  | cons u rest =>
    have member : u ∈ tokens.filter (!·.kind.comment) := kept ▸ List.mem_cons_self
    obtain ⟨inside, heard⟩ := List.mem_filter.mp member
    rw [kept] at again text
    rcases kinds u inside (by simpa using heard) with rfl | ⟨word, d, body, spelled, solid⟩
    · have merged : mergeBlanks (blank :: blank :: rest) = mergeBlanks (blank :: rest) := by
        simp [mergeBlanks, isPlainBlank, blank]
      rw [merged, ← again, text, List.flatMap_cons, spelling_blank, lexChars_blank,
        List.singleton_append, lexChars_blank, List.dropWhile_cons_of_pos (by decide)]
    · have apart : mergeBlanks (blank :: u :: rest) = blank :: mergeBlanks (u :: rest) := by
        simp [mergeBlanks, word]
      rw [apart, ← again, text, List.flatMap_cons, spelled, List.cons_append, lexChars_blank,
        List.dropWhile_cons_of_neg (by simp [solid])]

/-- The tokens of a source are read again from what is written for them. -/
theorem lexChars_written (cs : List Char) :
    lexChars (written (lexChars cs)) = mergeBlanks ((lexChars cs).filter (!·.kind.comment)) := by
  fun_induction lexChars cs with
  | case1 => simp [written, lexChars, mergeBlanks]
  | case2 c cs ih =>
    rcases nextFrom_cases c cs with
      ⟨_, read⟩ | ⟨_, read⟩ | ⟨b, rest, rfl, rfl, _, read⟩ | ⟨_, respells⟩
    · rw [read] at ih ⊢
      rw [written_remark, List.filter_cons_of_neg (by simp [remark])]
      exact ih
    · rw [read] at ih ⊢
      rw [written_cons rfl, spelling_blank, List.filter_cons_of_pos rfl]
      exact lexChars_blank_written ih
    · rw [read] at ih ⊢
      have next : nextFrom '\\' (' ' :: written (lexChars rest)) =
          (controlSpace, written (lexChars rest)) :=
        nextEscaped_of_isBlank (c := ' ') (by decide) (written (lexChars rest))
      rw [written_cons rfl, spelling_controlSpace, List.filter_cons_of_pos rfl, List.cons_append,
        List.singleton_append, lexChars_of_nextFrom next, ih]
      simp [mergeBlanks, isPlainBlank, controlSpace]
    · obtain ⟨body, _, spelled, heard, word, again⟩ := respells
      have next := again _ (resumes_written (nextFrom c cs).2)
      rw [written_cons heard, spelled, List.filter_cons_of_pos (by simp [heard]), List.append_assoc,
        List.singleton_append, lexChars_of_nextFrom next, ih]
      simp [mergeBlanks, isPlainBlank, word]

theorem respelled_lexChars (cs : List Char) :
    Respelled cs (lexChars cs) (written (lexChars cs)) := by
  fun_induction lexChars cs with
  | case1 => exact .nil
  | case2 c cs ih =>
    rcases nextFrom_cases c cs with
      ⟨rfl, read⟩ | ⟨space, read⟩ | ⟨b, rest, rfl, rfl, space, read⟩ | ⟨_, respells⟩
    · rw [read] at ih ⊢
      have whole : cs.takeWhile (· != '\n') ++ cs.dropWhile (· != '\n') = cs :=
        List.takeWhile_append_dropWhile
      have one : '\n' ∉ cs.takeWhile (· != '\n') := fun member => by
        simpa using kept_takeWhile (· != '\n') cs '\n' member
      have ends : ∀ c ∈ (cs.dropWhile (· != '\n')).head?, c = '\n' := fun c first => by
        simpa using stops_dropWhile (· != '\n') cs c first
      have removed := Respelled.comment one ends ih
      rw [whole] at removed
      rwa [written_remark]
    · rw [read] at ih ⊢
      have whole : (c :: cs.takeWhile Text.isBlank) ++ cs.dropWhile Text.isBlank = c :: cs := by
        rw [List.cons_append, List.takeWhile_append_dropWhile]
      have blanks : ∀ d ∈ c :: cs.takeWhile Text.isBlank, Text.isBlank d = true :=
        List.forall_mem_cons.mpr ⟨space, kept_takeWhile Text.isBlank cs⟩
      have collapsed := Respelled.blanks (List.cons_ne_nil _ _) blanks ih
      rw [whole] at collapsed
      rwa [written_cons rfl, spelling_blank]
    · rw [read] at ih ⊢
      rw [written_cons rfl, spelling_controlSpace]
      exact .control space ih
    · obtain ⟨body, split, spelled, heard, word, _⟩ := respells
      have whole : c :: cs = (nextFrom c cs).1.spelling.toList ++ (nextFrom c cs).2 := by
        rw [spelled, List.append_assoc, List.singleton_append, ← split]
      rw [whole, written_cons heard]
      exact .token heard word ih

/-- Writing out the tokens of a source and reading them again gives the tokens without the comments
and with one blank in place of several, and what is written differs from the source in nothing but
that. -/
theorem lex_spellingAll (source : String) :
    lex (spellingAll (lex source)) = mergeBlanks ((lex source).filter (!·.kind.comment)) ∧
      Respelled source.toList (lex source) (spellingAll (lex source)).toList := by
  rw [toList_spellingAll]
  refine ⟨?_, respelled_lexChars source.toList⟩
  have again := lexChars_written source.toList
  rwa [← toList_spellingAll] at again

end TexFormula.Token
