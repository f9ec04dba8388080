import TexFormula.Plan.Command
import TexFormula.Proofs.Expr.Alike

/-! Expressions that look alike from outside. From outside an expression shows its shape and its
first token; what is inside a pair of delimiters only shows where square brackets are opened. No
text with an opening brace is a length (`Length.parse?_of_braced`), so it does not matter either to
the commands that look for one. No command goes over a break, so a queue that starts with one stops
them all (`Queue.Wall`). -/
namespace TexFormula
open Queue

/-! ### Texts with a brace -/

namespace Length

/-- A character that is not skipped stays. -/
theorem mem_dropWhile_of_not {p : Char → Bool} {char : Char} {cs : List Char} (member : char ∈ cs)
    (stays : p char = false) : char ∈ cs.dropWhile p := by
  rw [← List.takeWhile_append_dropWhile (p := p) (l := cs)] at member
  rcases List.mem_append.mp member with skipped | left
  · rw [List.mem_takeWhile_imp skipped] at stays
    cases stays
  · exact left

/-- Whether a text has an opening brace in it. -/
def Braced (text : String) : Prop :=
  '\x7b' ∈ text.toList

theorem Braced.append {text : String} (braced : Braced text) (more : String) :
    Braced (text ++ more) := by
  rw [Braced, String.toList_append]
  exact List.mem_append_left _ braced

theorem brace_trim {text : String} (braced : Braced text) : Braced (Text.trim text) := by
  have plain : Text.isBlank '\x7b' = false := by decide +kernel
  rw [Braced, Text.trim, String.toList_ofList, Text.dropTrailing, List.mem_reverse]
  exact mem_dropWhile_of_not (List.mem_reverse.mpr (mem_dropWhile_of_not braced plain))
    plain

/-- No number has a brace in it. -/
theorem brace_takeNumeral {cs rest : List Char} {n : Numeral} (braced : '\x7b' ∈ cs)
    (taken : takeNumeral cs = some (n, rest)) : '\x7b' ∈ rest := by
  have plain : Text.isDecimalDigit '\x7b' = false := by decide +kernel
  have unsigned : '\x7b' ∈ (takeSign cs).2 := by
    unfold takeSign
    split
    · exact (List.mem_cons.mp braced).resolve_left (by decide)
    · exact (List.mem_cons.mp braced).resolve_left (by decide)
    · exact braced
  have behind := mem_dropWhile_of_not unsigned plain
  unfold takeNumeral at taken
  simp only at taken
  split at taken
  case h_1 after same =>
    rw [same] at behind
    have fraction := (List.mem_cons.mp behind).resolve_left (by decide)
    split at taken
    · cases taken
    · cases taken
      exact mem_dropWhile_of_not fraction plain
  case h_2 =>
    split at taken
    · cases taken
    · cases taken
      exact behind

/-- A text with a brace in it is no length. -/
theorem parse?_of_braced {text : String} (braced : Braced text) : parse? text = none := by
  have plain : Text.isBlank '\x7b' = false := by decide +kernel
  have noUnit : ∀ unit ∈ units, '\x7b' ∉ unit := by decide
  have unsplit : split? text = none := by
    unfold split?
    split
    · rfl
    case h_2 n rest taken =>
      have unit := mem_dropWhile_of_not (brace_takeNumeral (brace_trim braced) taken) plain
      exact if_neg fun known => noUnit _ known unit
  rw [parse?, unsplit]

/-- Texts that are both no lengths, unless they are the same. -/
def Same (text text' : String) : Prop :=
  text = text' ∨ Braced text ∧ Braced text'

variable {text text' : String}

theorem Same.append (same : Same text text') (more : String) :
    Same (text ++ more) (text' ++ more) := by
  rcases same with rfl | ⟨braced, braced'⟩
  · exact .inl rfl
  · exact .inr ⟨braced.append more, braced'.append more⟩

theorem Same.isSome_parse? (same : Same text text') :
    (parse? text).isSome = (parse? text').isSome := by
  rcases same with rfl | ⟨braced, braced'⟩
  · rfl
  · rw [parse?_of_braced braced, parse?_of_braced braced']

end Length

/-! ### Expressions and queues -/

/-- Whether there is an opening brace in an expression. -/
def Expr.Braced (e : Expr) : Prop :=
  Length.Braced (Token.spellingAll e.tokens)

/-- Expressions that look alike from outside. What is in braces does not show. -/
structure Expr.Similar (e e' : Expr) : Prop where
  kind : e.kind = e'.kind
  first : e.first = e'.first
  hidden : e = e' ∨ e.isComposite = true ∧ e.Braced ∧ e'.Braced

/-- Whether the text of a length can go on with a token. -/
def Token.isMeasure (t : Token) : Bool :=
  t.kind.letter || t.kind.number || t.kind.char

/-- Whether a queue starts with a break, if it starts with anything. -/
def Queue.Wall (back : Queue) : Prop :=
  ∀ b ∈ back.head?, b.isBreak = true ∧ b.first.isMeasure = false

variable {e e' : Expr} {q : Queue} {text : String}

theorem Expr.Similar.refl (e : Expr) : e.Similar e :=
  ⟨rfl, rfl, .inl rfl⟩

namespace Expr.Similar

variable (similar : e.Similar e')
include similar

theorem isWhitespace : e.isWhitespace = e'.isWhitespace := by
  rw [Expr.isWhitespace, Expr.isWhitespace, similar.kind]

theorem isBreak : e.isBreak = e'.isBreak := by
  rw [Expr.isBreak, Expr.isBreak, similar.kind, similar.first]

end Expr.Similar

theorem Expr.kind_of_isBreak (ends : e.isBreak = true) : e.kind = .single := by
  rw [Expr.isBreak, Bool.and_eq_true_iff, beq_iff_eq] at ends
  exact ends.1

theorem Expr.isWhitespace_of_isBreak (ends : e.isBreak = true) : e.isWhitespace = false := by
  rw [Expr.isWhitespace, Expr.kind_of_isBreak ends]
  rfl

theorem Queue.wall_nil : Wall [] := by
  intro b member
  cases member

/-! ### Queues that stop commands -/

namespace Queue

theorem popOptions_of_bare (bare : ∀ e ∈ q.peekArgument?, e.kind ≠ .options) :
    q.popOptions = (none, q) := by
  rw [peekArgument?_eq] at bare
  unfold popOptions
  split
  case h_1 e rest found => rw [if_neg (bare e (by rw [found]; rfl))]
  case h_2 => rfl

theorem splitAtBreak_of_break (ends : e.isBreak = true) (q : Queue) :
    splitAtBreak (e :: q) = ([], e :: q) := by
  simp [splitAtBreak, ends]

theorem splitAtBreak_of_goes (goes : e.isBreak = false) (q : Queue) :
    splitAtBreak (e :: q) = (e :: q.splitAtBreak.1, q.splitAtBreak.2) := by
  simp [splitAtBreak, goes]

/-- Where no argument comes next, or only a break, there are no options either. -/
theorem popOptions_of_breaks (breaks : ∀ b ∈ q.popArgument.1, b.isBreak = true) :
    q.popOptions = (none, q) := by
  refine popOptions_of_bare fun b next options => ?_
  rw [peekArgument?_eq] at next
  cases (Expr.kind_of_isBreak (breaks b next)).symm.trans options

namespace Wall

variable (wall : Wall q)
include wall

/-- A break in front of a queue is the first thing that is found there. -/
theorem popArgument : ∀ b ∈ q.popArgument.1, b.isBreak = true := by
  cases q with
  | nil =>
    intro b next
    cases next
  | cons b q =>
    obtain ⟨ends, -⟩ := wall b rfl
    rw [Queue.popArgument, popWhile, if_neg (by simp [Expr.isWhitespace_of_isBreak ends])]
    intro first next
    exact Option.some.inj next ▸ ends

theorem splitAtBreak : q.splitAtBreak = ([], q) := by
  cases q with
  | nil => rfl
  | cons b q => exact splitAtBreak_of_break (wall b rfl).1 q

/-- No length goes on with a break. -/
theorem extendLength (text : String) : Plan.extendLength text q = (text, q) := by
  cases q with
  | nil => rfl
  | cons b q =>
    obtain ⟨-, plain⟩ := wall b rfl
    unfold Token.isMeasure at plain
    rw [Plan.extendLength]
    split
    · rfl
    · simp only [plain, Bool.and_false, if_neg Bool.false_ne_true]

end Wall

end Queue

end TexFormula
