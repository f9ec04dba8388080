import TexFormula.Proofs.Pairing.Offenders
import TexFormula.Proofs.Token.Acceptance
import TexFormula.Proofs.Token.Excerpt
import TexFormula.Proofs.Token.Lexeme

/-! Rejected sources. A source is rejected by the first check that it does not pass, and the error
points at an offender in the list that the check was made on. What the error shows is that list
around the offender, on one line, with carets under the offender on the next. -/
namespace TexFormula.Token
open Pairing

variable {tokens checked collapsed : List Token} {mark : Token → Option Mark} {e : Error}
  {source : String} {t : Token}

/-- The checks of a source: a list and the delimiters that have to be nested in it. First these are
the braces among all tokens, and then, with one token on each side of an environment, the delimiters
of each family and those of both together. -/
inductive Check (source : String) : List Token → (Token → Option Mark) → Prop
  | sized : Check source (absorbSizing (lex source)) Family.curly.mark?
  | family (f : Family) {out} (collapsed : Collapsed (absorbSizing (lex source)) out) :
    Check source out f.mark?
  | together {out} (collapsed : Collapsed (absorbSizing (lex source)) out) :
    Check source out strictMark?

/-! ### Where a check fails -/

/-- The error of a check that fails: it points at an offender, and shows it. -/
def Blames (mark : Token → Option Mark) (tokens : List Token) (e : Error) : Prop :=
  ∃ bracket position, e = .mismatched bracket position (excerpt tokens position) ∧
    OffendsAt mark tokens position

/-- Errors do not tell who the partners are. -/
theorem Blames.of_map_unpaired {others : List Token} (blames : Blames mark others e)
    (blind : ∀ t, mark t.unpaired = mark t) (same : others.map unpaired = tokens.map unpaired) :
    Blames mark tokens e := by
  obtain ⟨bracket, position, rfl, offends⟩ := blames
  refine ⟨bracket, position, ?_, offends.congr (map_eq_of_map_unpaired blind same.symm)⟩
  rw [← excerpt_map_unpaired others, same, excerpt_map_unpaired]

theorem blames_of_pairStrictly {f : Family} (failed : pairStrictly f tokens = .error e) :
    Blames f.mark? tokens e := by
  unfold pairStrictly at failed
  cases found : strictLinks f 0 [] tokens with
  | ok links => rw [found] at failed; cases failed
  | error fault =>
    rw [found] at failed
    cases failed
    have standing : Standing f.mark? (([] : Waiting).map f.enter) [] := .settled .nil
    exact ⟨fault.1, fault.2, rfl, offends_of_strictLinks standing rfl found⟩

/-- With one token on each side of an environment, the error is that of one family or of both. -/
theorem blames_of_collapsed (fresh : ∀ t ∈ tokens, t.Fresh)
    (failed : (do
      let paired ← pairStrictly .environment tokens
      let nested ← pairStrictly .curly paired
      checkNesting nested
      return pairLoosely nested) = .error e) :
    (∃ f : Family, Blames f.mark? tokens e) ∨ Blames strictMark? tokens e := by
  rcases bind_eq_error_iff.mp failed with second | ⟨paired, second, failed⟩
  · exact .inl ⟨.environment, blames_of_pairStrictly second⟩
  obtain ⟨environments, environments_found, rfl⟩ := pairStrictly_eq_ok_iff.mp second
  have same := map_unpaired_link tokens environments
  rcases bind_eq_error_iff.mp failed with third | ⟨nested, third, failed⟩
  · exact .inl ⟨.curly, (blames_of_pairStrictly third).of_map_unpaired Family.mark?_unpaired same⟩
  obtain ⟨curlies, found, rfl⟩ := pairStrictly_eq_ok_iff.mp third
  have curlies_found := (strictLinks_congr same).mp found
  have same' : (link (link tokens environments) curlies).map unpaired = tokens.map unpaired := by
    rw [map_unpaired_link, same]
  rcases bind_eq_error_iff.mp failed with last | ⟨_, _, failed⟩
  · refine .inr (Blames.of_map_unpaired ?_ strictMark?_unpaired same')
    unfold checkNesting at last
    cases crossed : crossing? 0 [] (link (link tokens environments) curlies) with
    | none => rw [crossed] at last; cases last
    | some fault =>
      rw [crossed] at last
      cases last
      have each : EachReads (environments ++ curlies) 0 (([] : Waiting).map enter) _ :=
        eachReads_link environments_found curlies_found
      have below : Below 0 (([] : Waiting).map Prod.fst) := below_nil 0
      have standing : Standing strictMark? (([] : Waiting).map enter) [] := .settled .nil
      exact ⟨fault.1, fault.2, rfl, offends_of_crossing
        (linked_strict fresh environments_found curlies_found)
        (coherent_of_map_unpaired same' fun t member => (fresh t member).1)
        (strictMark?_of_linked fresh environments_found curlies_found) (List.nil_append _).symm rfl
        below each standing crossed⟩
  · cases failed

/-- The error of a source is that of one of its checks. -/
theorem check_of_tokenize (rejected : tokenize source = .error e) :
    ∃ checked mark, Check source checked mark ∧ Blames mark checked e := by
  have sized := unlinked_lex source
  rcases bind_eq_error_iff.mp rejected with first | ⟨braced, first, failed⟩
  · have blames : Blames Family.curly.mark? (unlinked (lex source)) e :=
      blames_of_pairStrictly first
    exact ⟨_, _, .sized, sized ▸ blames⟩
  obtain ⟨braces, found, rfl⟩ := pairStrictly_eq_ok_iff.mp first
  have found : strictLinks .curly 0 [] (unlinked (lex source)) = .ok braces := found
  have collapsed := collapsed_unlinked found
  rw [sized] at collapsed
  have fresh := fresh_collapseEnvironments (coherent_of_map_unpaired
    (map_unpaired_link (unlinked (lex source)) braces) (coherent_unlinked (coherent_lex source)))
  rcases blames_of_collapsed fresh failed with ⟨f, blames⟩ | blames
  · exact ⟨_, _, .family f collapsed, sized ▸ blames⟩
  · exact ⟨_, _, .together collapsed, sized ▸ blames⟩

/-! ### What is shown -/

/-- A brace or environment delimiter that is no comment and has something to show. -/
structure Shown (t : Token) : Prop where
  coherent : t.kind.Coherent
  heard : t.kind.env = true → t.kind.comment = false
  text : t.kind.curly = true → t.value ≠ ""

theorem persistent_shown : Persistent Shown := by
  have lasting : Lasting TokenKind.curly :=
    ⟨fun s k => by obtain ⟨_, _, _, _, _, _, _, same⟩ := mark_eq s k; rw [same], rfl,
      fun _ _ => rfl⟩
  have text := lasting.persistent (· ≠ "")
  refine ⟨fun {t u} same shown => ?_, fun s t shown => ?_, fun opens name => ?_⟩
  · have kind : t.kind = u.kind := congrArg (·.kind) same
    exact ⟨kind ▸ shown.coherent, kind ▸ shown.heard, text.unpaired same shown.text⟩
  · refine ⟨coherent_apply s shown.coherent, ?_, text.sized s shown.text⟩
    unfold Sizing.apply
    split
    all_goals
      obtain ⟨_, _, _, _, _, _, _, same⟩ := mark_eq s _
      rw [same]
    · nofun
    · exact shown.heard
  · exact ⟨(fresh_environmentDelimiter opens name).1, fun _ => rfl, text.delimiter opens name⟩

theorem shown_lex (source : String) : ∀ t ∈ lex source, t.Shown := by
  intro t member
  have lexeme := lexeme_lex source t member
  have environments : ∀ k ∈ lexemeKinds, k.env = false := by decide
  have braces : ∀ k ∈ lexemeKinds, k.curly = true → k.comment = false ∧ k.command = false ∧
      k.escaped = false ∧ k.argument = false ∧ k.star = false := by decide
  refine ⟨coherent_lex source t member, fun env => ?_, fun curly empty => ?_⟩
  · rw [environments _ lexeme.kind] at env
    cases env
  · obtain ⟨heard, command, escaped, argument, star⟩ := braces _ lexeme.kind curly
    have spelled : t.spelling = "" := by
      simp [Token.spelling, environments _ lexeme.kind, heard, command, escaped, argument, star,
        empty]
    rcases blank_or_solid _ t member heard with rfl | ⟨_, d, body, solid, _⟩
    · cases curly
    · rw [spelled] at solid
      cases solid

theorem Check.lines (check : Check source checked mark) : ∀ t ∈ checked, t.OneLine := by
  have sized : ∀ t ∈ absorbSizing (lex source), t.OneLine :=
    forall_mem_absorbSizing (fun s _ line => oneLine_apply s line) (oneLine_lex source)
  cases check with
  | sized => exact sized
  | family _ collapsed => exact oneLine_collapsed collapsed sized
  | together collapsed => exact oneLine_collapsed collapsed sized

theorem Check.shown (check : Check source checked mark) : ∀ t ∈ checked, t.Shown := by
  have sized : ∀ t ∈ absorbSizing (lex source), t.Shown :=
    forall_mem_absorbSizing (fun s _ shown => persistent_shown.sized s shown) (shown_lex source)
  have out : ∀ {out}, Collapsed (absorbSizing (lex source)) out → ∀ t ∈ out, t.Shown :=
    fun collapsed => forall_mem_collapsed collapsed
      (fun t shown => persistent_shown.unpaired (t := t) rfl shown)
      (fun opens name _ => persistent_shown.delimiter opens _) sized
  cases check with
  | sized => exact sized
  | family _ collapsed => exact out collapsed
  | together collapsed => exact out collapsed

/-- A check is about braces and environment delimiters. -/
theorem Check.delimits (check : Check source checked mark) (marked : mark t ≠ none) :
    t.kind.curly = true ∨ t.kind.env = true := by
  have member : ∀ f : Family, f.mark? t ≠ none → t.kind.curly = true ∨ t.kind.env = true := by
    intro f marked
    by_contra other
    rw [not_or, Bool.not_eq_true, Bool.not_eq_true] at other
    cases f <;> simp [Family.mark?, Family.has, other] at marked
  cases check with
  | sized => exact member .curly marked
  | family f => exact member f marked
  | together =>
    by_contra other
    rw [not_or, Bool.not_eq_true, Bool.not_eq_true] at other
    simp [strictMark?, other] at marked

theorem Shown.spelling_ne_empty (shown : t.Shown)
    (delimits : t.kind.curly = true ∨ t.kind.env = true) : t.spelling ≠ "" := by
  intro empty
  have letters := congrArg String.toList empty
  rcases delimits with curly | env
  · have plain := shown.coherent.plainBrace curly
    simp [Token.spelling, plain.1, shown.text curly] at letters
  · simp [Token.spelling, env] at letters

/-- Every rejection points at an offender. The error tells the position of a brace or an environment
delimiter that is at fault in the list that was checked: a closer of nothing or of another bracket
than the last open one, behind the beginning of a nested word, or an opener that is never closed. It
shows the tokens around the offender on one line and carets under it on the next: the line up to the
carets is as long as what is shown in front of the offender, and there is a caret for each of its
characters. -/
theorem tokenize_error_offender (rejected : tokenize source = .error e) :
    ∃ checked mark front offender back bracket, Check source checked mark ∧
      checked = front ++ offender :: back ∧ Offends mark front offender back ∧
      (offender.kind.curly = true ∨ offender.kind.env = true) ∧
      let before := spellingAll (front.drop (front.length - excerptReach))
      let after := spellingAll (back.take (excerptReach - 1))
      let window := before ++ offender.spelling ++ after
      e = .mismatched bracket front.length ("\n" ++ window ++ "\n" ++ "".pushn ' ' before.length
        ++ "".pushn '^' offender.spelling.length ++ "HERE\n") ∧
      '\n' ∉ window.toList ∧ offender.spelling ≠ "" := by
  obtain ⟨checked, mark, check, bracket, _, rfl, front, offender, back, rfl, rfl, offends⟩ :=
    check_of_tokenize rejected
  have member : offender ∈ front ++ offender :: back := by simp
  have delimits := check.delimits offends.marked
  have shown := check.shown offender member
  have heard : offender.kind.comment = false :=
    delimits.elim (fun curly => (shown.coherent.plainBrace curly).2.2.2) shown.heard
  have some_text := shown.spelling_ne_empty delimits
  refine ⟨_, mark, front, offender, back, bracket, check, rfl, offends, delimits, ?_, ?_, some_text⟩
  · rw [excerpt_eq heard some_text]
  · have lines := check.lines
    rw [String.toList_append, String.toList_append, List.mem_append, List.mem_append]
    rintro ((inside | inside) | inside)
    · exact oneLine_spellingAll
        (fun t among => lines t (List.mem_append_left _ (List.mem_of_mem_drop among))) inside
    · exact (lines offender member).spelling inside
    · exact oneLine_spellingAll (fun t among => lines t
        (List.mem_append_right _ (List.mem_cons_of_mem _ (List.mem_of_mem_take among)))) inside

/-- The brace that is closed inside an environment is the third token once the environment is
delimited by one token on each side. -/
theorem tokenize_error_offender_crossed :
    ∃ bracket text checked mark front offender back,
      tokenize "\x7b\\begin\x7ba\x7d\x7d\\end\x7ba\x7d" = .error (.mismatched bracket 2 text) ∧
      Check "\x7b\\begin\x7ba\x7d\x7d\\end\x7ba\x7d" checked mark ∧
      checked = front ++ offender :: back ∧ front.length = 2 ∧
      Offends mark front offender back := by
  have rejected : tokenize "\x7b\\begin\x7ba\x7d\x7d\\end\x7ba\x7d" =
      .error (.mismatched (.environment "a") 2
        "\n\x7b\\begin\x7ba\x7d\x7d\\end\x7ba\x7d\n          ^HERE\n") := by cbv
  obtain ⟨checked, mark, front, offender, back, _, check, split, offends, _, same, _⟩ :=
    tokenize_error_offender rejected
  have position : front.length = 2 := (Error.mismatched.inj same).2.1.symm
  exact ⟨_, _, checked, mark, front, offender, back, rejected, check, split, position, offends⟩

end TexFormula.Token
