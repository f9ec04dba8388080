import TexFormula.Proofs.Token.Acceptance
import TexFormula.Proofs.Token.Lexeme
import TexFormula.Proofs.Token.Respelling

/-! Where the tokens of a prepared source come from. A token that does not delimit an environment
was read off the source, and at most one sizing command was put into it. So a square bracket was
written as one, and it opens or closes because it is that bracket, or because a sizing command in
front of it says so. -/
namespace TexFormula.Token
open Pairing

variable {source : String} {tokens : List Token} {t raw : Token} {c x : Char} {cs : List Char}

/-! ### Sizing commands -/

/-- A token with the sizing command in front of it, if there is one. -/
def sized (sizing : Option Sizing) (raw : Token) : Token :=
  match sizing with
  | none => raw
  | some s => s.apply raw

/-- A token of a list with its sizing commands absorbed was in the list, with at most one sizing
command in front of it. -/
theorem origin_absorbSizing :
    ∀ t ∈ absorbSizing tokens, ∃ raw ∈ tokens, ∃ sizing, t = sized sizing raw ∧
      (sizing ≠ none → raw.isBlank = false) := by
  fun_induction absorbSizing tokens with
  | case1 => simp
  | case2 t rest unsized ih =>
    refine List.forall_mem_cons.mpr ⟨⟨t, List.mem_cons_self, none, rfl, by simp⟩, ?_⟩
    intro u member
    obtain ⟨raw, inside, found⟩ := ih u member
    exact ⟨raw, List.mem_cons_of_mem t inside, found⟩
  | case3 t rest sizing named atEnd =>
    exact List.forall_mem_singleton.mpr ⟨t, List.mem_cons_self, none, rfl, by simp⟩
  | case4 t rest sizing named delimiter after found ih =>
    have inside : ∀ u ∈ delimiter :: after, u ∈ t :: rest := fun u member =>
      List.mem_cons_of_mem t ((List.dropWhile_suffix isBlank).mem (found ▸ member))
    have solid : delimiter.isBlank = false := by
      have stop := List.head?_dropWhile_not isBlank rest
      rw [found] at stop
      exact stop
    refine List.forall_mem_cons.mpr ⟨⟨delimiter, inside _ List.mem_cons_self, some sizing, rfl,
      fun _ => solid⟩, fun u member => ?_⟩
    obtain ⟨raw, among, origin⟩ := ih u member
    exact ⟨raw, inside raw (List.mem_cons_of_mem _ among), origin⟩

/-- A token of a prepared source delimits an environment, or it was read off the source, with at
most one sizing command in front of it. -/
theorem origin_of_tokenize (done : tokenize source = .ok tokens) (member : t ∈ tokens) :
    t.kind.env = true ∨ ∃ raw ∈ lex source, ∃ sizing, t.unpaired = (sized sizing raw).unpaired ∧
      (sizing ≠ none → raw.isBlank = false) := by
  obtain ⟨p⟩ := prepare_eq_ok_iff.mp done
  have collapsed := collapsed_unlinked p.braces_found
  rw [unlinked_lex] at collapsed
  have origins := forall_mem_collapsed (P := fun t => t.kind.env = true ∨
    ∃ raw ∈ lex source, ∃ sizing, t.unpaired = (sized sizing raw).unpaired ∧
      (sizing ≠ none → raw.isBlank = false)) collapsed (fun _ origin => origin)
    (fun _ _ _ => .inl rfl) fun u inside => by
      obtain ⟨raw, among, sizing, rfl, solid⟩ := origin_absorbSizing u inside
      exact .inr ⟨raw, among, sizing, rfl, solid⟩
  have same := p.map_unpaired_prepared
  rw [p.collapsed_eq, unlinked_lex] at same
  have bare : t.unpaired ∈ tokens.map unpaired := List.mem_map_of_mem member
  rw [same] at bare
  obtain ⟨u, inside, equal⟩ := List.mem_map.mp bare
  have kind : u.kind = t.kind := congrArg (·.kind) equal
  rw [← kind, ← equal]
  exact origins u inside

/-! ### Square brackets -/

/-- What stands in front of the value where a token is spelled that is no comment and does not
delimit an environment. -/
theorem spelling_cases (heard : t.kind.comment = false) (plain : t.kind.env = false) :
    ∃ front ∈ [[], ['\\'], ['#']], ∃ star, t.spelling.toList = front ++ t.value.toList ++ star := by
  unfold spelling
  simp only [plain, heard, Bool.false_eq_true, if_false, String.toList_append]
  refine ⟨_, ?_, _, rfl⟩
  split
  · decide
  · split <;> decide

/-- A token of a source whose value is a single sign was read at that sign, at a backslash in front
of it, or at a number sign in front of it. -/
theorem read_at_sign (solid : Text.isBlank x = false) (member : t ∈ lexChars cs)
    (heard : t.kind.comment = false) (plain : t.kind.env = false)
    (value : t.value = String.singleton x) :
    ∃ rest, t = (nextFrom x rest).1 ∨ t = (nextEscaped (x :: rest)).1 ∨
      t = (nextPlaceholder (x :: rest)).1 := by
  have other : ∀ u : Token, u.value = " " → u ≠ t := by
    rintro _ space rfl
    rw [value] at space
    cases (String.singleton_inj.mp (space.trans (by decide : " " = String.singleton ' ')))
    exact absurd solid (by decide)
  fun_induction lexChars cs with
  | case1 => cases member
  | case2 c cs ih =>
    rcases List.mem_cons.mp member with here | later
    · rcases nextFrom_cases c cs with
        ⟨_, read⟩ | ⟨_, read⟩ | ⟨_, _, _, _, _, read⟩ | ⟨_, body, split, spelled, _⟩
      · rw [here, read] at heard
        cases heard
      · exact absurd (here.trans (congrArg Prod.fst read)).symm (other _ rfl)
      · exact absurd (here.trans (congrArg Prod.fst read)).symm (other _ rfl)
      · obtain ⟨front, known, star, text⟩ := spelling_cases heard plain
        rw [value, String.toList_singleton, here, spelled] at text
        simp only [List.mem_cons, List.not_mem_nil, or_false] at known
        rcases known with rfl | rfl | rfl
        · cases text
          exact ⟨cs, .inl here⟩
        · cases text
          exact ⟨_, .inr (.inl (here.trans (congrArg (fun cs => (nextFrom '\\' cs).1) split)))⟩
        · cases text
          exact ⟨_, .inr (.inr (here.trans (congrArg (fun cs => (nextFrom '#' cs).1) split)))⟩
    · exact ih later

/-- A square bracket of a source was written with a backslash in front of it or without one. -/
theorem square_of_lex (square : x = '[' ∨ x = ']') (member : t ∈ lex source)
    (heard : t.kind.comment = false) (plain : t.kind.env = false)
    (value : t.value = String.singleton x) : t = (nextFrom x []).1 ∨ t = (nextEscaped [x]).1 := by
  have solid : Text.isBlank x = false := by rcases square with rfl | rfl <;> decide
  have number : ∀ rest, (nextPlaceholder (x :: rest)).1.value ≠ String.singleton x := by
    rcases square with rfl | rfl <;> exact fun _ => (by decide : "#" ≠ String.singleton _)
  obtain ⟨rest, rfl | rfl | rfl⟩ := read_at_sign solid member heard plain value
  · refine .inl ?_
    rcases square with rfl | rfl <;> rfl
  · refine .inr ?_
    rcases square with rfl | rfl <;> rfl
  · exact absurd value (number rest)

/-- A sizing command leaves a token its value, or it stands in front of a full stop. -/
theorem value_sized (sizing : Option Sizing) (raw : Token) :
    (sized sizing raw).value = raw.value ∨ (sized sizing raw).value = "" := by
  cases sizing with
  | none => exact .inl rfl
  | some s =>
    simp only [sized, Sizing.apply]
    split
    · exact .inr rfl
    · exact .inl rfl

theorem unpaired_sized (sizing : Option Sizing) (alone : raw.offset = 0) :
    (sized sizing raw).unpaired = sized sizing raw := by
  obtain ⟨kind, value, offset⟩ := raw
  cases alone
  cases sizing with
  | none => rfl
  | some s =>
    simp only [sized, Sizing.apply]
    split <;> rfl

/-- A square bracket of a prepared source that opens or closes was written as one, with at most one
sizing command in front of it. -/
theorem square_of_tokenize (done : tokenize source = .ok tokens) (member : t ∈ tokens)
    (square : x = '[' ∨ x = ']') (value : t.value = String.singleton x)
    (plain : t.kind.env = false) (sides : t.kind.opens = true ∨ t.kind.closes = true) :
    ∃ sizing raw, (raw = (nextFrom x []).1 ∨ raw = (nextEscaped [x]).1) ∧
      t.unpaired = sized sizing raw := by
  obtain env | ⟨raw, inside, sizing, same, solid⟩ := origin_of_tokenize done member
  · cases plain.symm.trans env
  have kind : t.kind = (sized sizing raw).kind := congrArg (·.kind) same
  have text : raw.value = String.singleton x := by
    have kept : t.value = (sized sizing raw).value := congrArg (·.value) same
    rcases value_sized sizing raw with alike | empty
    · rw [← alike, ← kept, value]
    · rw [value, empty] at kept
      rcases square with rfl | rfl <;> exact absurd kept (by decide)
  have spelled := (lexeme_lex source raw inside).kind
  have delimits : ∀ k ∈ lexemeKinds, k.env = false := by decide
  have silent : ∀ k ∈ lexemeKinds, k.comment = true →
      k.opens = false ∧ k.closes = false ∧ k.command = false := by decide
  have heard : raw.kind.comment = false := by
    apply Bool.eq_false_iff.mpr
    intro comment
    obtain ⟨opens, closes, command⟩ := silent _ spelled comment
    cases sizing with
    | none =>
      rw [kind] at sides
      rcases sides with side | side
      · cases opens.symm.trans side
      · cases closes.symm.trans side
    | some s =>
      have blank := solid (by simp)
      simp [isBlank, comment, command] at blank
  have written := square_of_lex square inside heard (delimits _ spelled) text
  have alone : raw.offset = 0 := by
    rcases written with rfl | rfl <;> rcases square with rfl | rfl <;> rfl
  exact ⟨sizing, raw, written, same.trans (unpaired_sized sizing alone)⟩

end TexFormula.Token
