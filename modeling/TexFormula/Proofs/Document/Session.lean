import TexFormula.Proofs.Document.Table
import TexFormula.Proofs.Xml.Inside

/-! Sessions of a document. An operation that fails changes nothing, and what a formula defines and
calls never makes it fail: as long as no macro is declared, a source is rendered if its tokens can
be prepared. Equations are counted exactly when one is rendered, so that the number of an equation
says how many came before it (`session_is_sound`). -/
namespace TexFormula.Document

/-- The text of the cell with the number of an equation. -/
def label (n : Nat) : String :=
  "<mtext>(" ++ toString n ++ ")</mtext>"

theorem escapeChar_digit {c : Char} (digit : c.isDigit = true) : Node.escapeChar c = [c] := by
  have other : ∀ d : Char, d.isDigit = false → (c == d) = false := by
    intro d plain
    rw [beq_eq_false_iff_ne]
    rintro rfl
    cases plain.symm.trans digit
  unfold Node.escapeChar
  rw [other '&' rfl, other '<' rfl, other '>' rfl]
  rfl

theorem escape_number (n : Nat) :
    Node.escape ("(" ++ toString n ++ ")") = "(" ++ toString n ++ ")" := by
  refine Node.escape_of_plain fun c member => ?_
  have digits : (toString n).toList = Nat.toDigits 10 n := by
    simp [toString, Nat.repr]
  rw [String.toList_append, String.toList_append, digits, List.mem_append, List.mem_append]
    at member
  rcases member with (opener | digit) | closer
  · cases List.mem_singleton.mp opener
    rfl
  · exact escapeChar_digit (Nat.isDigit_of_mem_toDigits (by decide) (by decide) digit)
  · cases List.mem_singleton.mp closer
    rfl

/-- A formula with its number shows the number. -/
theorem shows_numbered (n : Nat) (formula : Node) : (numbered n formula).Shows (label n) := by
  have text : (Node.leaf "mtext" ("(" ++ toString n ++ ")")).Shows (label n) := by
    have line : "<mtext>" ++ Node.escape ("(" ++ toString n ++ ")") ++ "</mtext>" = label n := by
      rw [escape_number, label]
      simp only [String.append_assoc]
      rfl
    refine ⟨⟨"", "", ?_⟩, fun depth => ⟨Node.indentation depth, "", ?_⟩⟩
    · rw [String.empty_append, String.append_empty, ← line]
      rfl
    · have pieces : (Node.leaf "mtext" ("(" ++ toString n ++ ")")).renderPretty depth =
          Node.indentation depth ++ "<mtext>" ++ Node.escape ("(" ++ toString n ++ ")") ++
            "</mtext>" := rfl
      rw [String.append_empty, ← line, pieces]
      simp only [String.append_assoc]
  have cell := Node.Shows.of_child (n := .branch "mtd" [_]) text List.mem_cons_self rfl rfl rfl
  have row := Node.Shows.of_child (n := .branch "mlabeledtr" [_, .branch "mtd" [formula]]) cell
    List.mem_cons_self rfl rfl rfl
  exact Node.Shows.of_child (n := .branch "mtable" [_]) row List.mem_cons_self rfl rfl rfl

theorem shows_whole (style : Style) {content : Node} {part : String} (shows : content.Shows part)
    (written : content.isWritten = true) : (whole style content).Shows part := by
  have math : (whole style content).children = [content] ∧ (whole style content).tag = "math" ∧
      (whole style content).isWritten = true := by
    cases style <;> exact ⟨rfl, rfl, rfl⟩
  refine shows.of_child ?_ written math.2.2 ?_
  · rw [math.1]
    exact List.mem_cons_self
  · rw [math.2.1]
    rfl

theorem shows_annotate (d : Document) (source : String) {formula : Node} {part : String}
    (shows : formula.Shows part) (written : formula.isWritten = true) :
    (d.annotate source formula).Shows part ∧
      (d.annotate source formula).isWritten = true := by
  unfold annotate
  split
  · exact ⟨shows.of_child List.mem_cons_self written rfl rfl, rfl⟩
  · exact ⟨shows, written⟩

/-! ### One operation -/

/-- Whether an operation renders a formula with a number. -/
def Operation.numbers (d : Document) : Operation → Bool
  | .render source style => d.numbers style && (d.render source style).1.isOk
  | _ => false

/-- How many formulas with a number a session renders. -/
def countNumbered (d : Document) : List Operation → Nat
  | [] => 0
  | operation :: rest =>
    (if operation.numbers d then 1 else 0) + (d.perform operation).2.countNumbered rest

variable {d next : Document} {source : String} {style : Style} {formula : Node} {e : Error}

/-- Reading a formula changes nothing but the macros. -/
theorem macros_of_read (succeeds : d.read source style = .ok (formula, next)) :
    next = { d with macros := next.macros } := by
  obtain ⟨_, _, _, _, _, rfl⟩ := read_eq_ok_iff.mp succeeds
  rfl

theorem equations_perform (d : Document) (operation : Operation) :
    (d.perform operation).2.equations =
      d.equations + if operation.numbers d then 1 else 0 := by
  cases operation with
  | render source style =>
    change (d.render source style).2.equations =
      d.equations + if d.numbers style && (d.render source style).1.isOk then 1 else 0
    cases result : d.read source style with
    | error e => simp [render_of_error result, Except.isOk, Except.toBool]
    | ok read =>
      have equations : read.2.equations = d.equations := by rw [macros_of_read result]
      have options : read.2.options = d.options := by rw [macros_of_read result]
      rw [render_of_ok result, snd_number]
      simp only [equations, numbers, options, Except.isOk, Except.toBool, Bool.and_true]
  | renderBody source =>
    change (d.renderBody source).2.equations = d.equations
    cases result : d.read source .inlined with
    | error e => rw [renderBody_of_error result]
    | ok read =>
      have equations : read.2.equations = d.equations := by rw [macros_of_read result]
      rw [renderBody_of_ok result]
      exact equations
  | addMacros declarations => rfl
  | setOptions options => rfl

theorem equations_after (d : Document) (session : List Operation) :
    (d.after session).equations = d.equations + d.countNumbered session := by
  induction session generalizing d with
  | nil => rfl
  | cons operation rest ih =>
    have step := ih (d.perform operation).2
    rw [equations_perform, Nat.add_assoc] at step
    exact step

theorem render_eq_error_iff :
    (d.render source style).1 = .error e ↔ d.read source style = .error e := by
  cases result : d.read source style with
  | error fault => simp [render_of_error result]
  | ok read => simp [render_of_ok result]

theorem renderBody_eq_error_iff :
    (d.renderBody source).1 = .error e ↔ d.read source .inlined = .error e := by
  cases result : d.read source .inlined with
  | error fault => simp [renderBody_of_error result]
  | ok read => simp [renderBody_of_ok result]

/-- An operation that fails leaves the document as it was. -/
theorem perform_of_error {operation : Operation}
    (fails : (d.perform operation).1 = some (.error e)) : (d.perform operation).2 = d := by
  cases operation with
  | render source style =>
    have failed : (d.render source style).1 = .error e := Option.some.inj fails
    exact congrArg Prod.snd (render_of_error (render_eq_error_iff.mp failed))
  | renderBody source =>
    have failed : (d.renderBody source).1 = .error e := Option.some.inj fails
    exact congrArg Prod.snd (renderBody_of_error (renderBody_eq_error_iff.mp failed))
  | addMacros declarations => cases fails
  | setOptions options => cases fails

/-- As long as no macro is declared, a formula can be read if its tokens can be prepared. -/
theorem read_eq_error_iff
    (undeclared : ∀ name m, d.macros.get? name = some m → m.inFormula = true) :
    d.read source style = .error e ↔ Token.tokenize source = .error e := by
  have expands : ∀ tokens, Macro.expand d.macros tokens = .ok tokens := by
    intro tokens
    have all : d.macros.entries.all (·.2.inFormula) = true := by
      rw [List.all_eq_true]
      rintro ⟨name, m⟩ member
      exact undeclared name m (Registry.mem_entries_iff.mp member)
    rw [Macro.expand, if_pos all]
  unfold Document.read
  cases result : Token.tokenize source with
  | error fault => simp [bind, Except.bind]
  | ok tokens => simp [expands, bind, Except.bind, pure, Except.pure]

/-- Where nothing is declared, all macros come from formulas. -/
theorem Prepared.inFormula (prepared : d.Prepared) (none : d.sources.names = []) :
    ∀ name m, d.macros.get? name = some m → m.inFormula = true := by
  have empty : d.sources.entries = [] := List.map_eq_nil_iff.mp none
  intro name m found
  refine Macro.Table.Extends.inFormula prepared found ?_
  rw [empty, Macro.names_declareAll]
  exact List.not_mem_nil

/-- What a formula with a number is rendered as. -/
theorem render_numbered (numbered : d.numbers style = true) {xml : String}
    (rendered : (d.render source style).1 = .ok xml) :
    ∃ formula next, d.read source style = .ok (formula, next) ∧
      xml = (whole style (d.annotate source (Document.numbered (d.equations + 1) formula))).toXml
        d.options.pretty ∧
      ∃ front back, xml = front ++ label (d.equations + 1) ++ back := by
  cases result : d.read source style with
  | error e => simp [render_of_error result] at rendered
  | ok read =>
    obtain ⟨formula, next⟩ := read
    have same := macros_of_read result
    rw [render_of_ok result] at rendered
    have asked : next.numbers style = true := by
      rw [same]
      exact numbered
    have xml_eq : xml = (whole style
        (d.annotate source (Document.numbered (d.equations + 1) formula))).toXml
          d.options.pretty := by
      simp only [number, asked, if_true, Except.ok.injEq] at rendered
      rw [same] at rendered
      exact rendered.symm
    refine ⟨formula, next, rfl, xml_eq, ?_⟩
    rw [xml_eq]
    obtain ⟨shows, written⟩ := shows_annotate d source (shows_numbered (d.equations + 1) formula) rfl
    exact (shows_whole style shows written).toXml _

/-- What every session of a document with declared macros leads to. The next operation, if it fails,
leaves the document as it is. If no macro is declared, a source is refused exactly if its tokens
cannot be prepared, and with the same error, whatever formulas have defined; and no macro is
declared if no declaration was ever given. The number of equations is the number of formulas that
were rendered with a number so far, and the next one of them gets the number after that and shows
it. -/
theorem session_is_sound (declarations : List (String × String)) (options : Options)
    (session : List Operation) :
    let start := ofMacros declarations options
    let d := start.after session
    (∀ operation e, (d.perform operation).1 = some (.error e) → (d.perform operation).2 = d) ∧
      ((∀ name m, d.macros.get? name = some m → m.inFormula = true) → ∀ source style e,
        ((d.render source style).1 = .error e ↔ Token.tokenize source = .error e) ∧
        ((d.renderBody source).1 = .error e ↔ Token.tokenize source = .error e)) ∧
      (d.sources.names = [] → ∀ name m, d.macros.get? name = some m → m.inFormula = true) ∧
      d.equations = start.countNumbered session ∧
      ∀ source style xml, d.numbers style = true → (d.render source style).1 = .ok xml →
        ∃ formula next, d.read source style = .ok (formula, next) ∧
          xml = (whole style (d.annotate source
            (numbered (start.countNumbered session + 1) formula))).toXml d.options.pretty ∧
          ∃ front back, xml = front ++ label (start.countNumbered session + 1) ++ back := by
  intro start d
  have count : d.equations = start.countNumbered session :=
    (equations_after start session).trans (Nat.zero_add _)
  have prepared : d.Prepared := ((prepared_ofMacros declarations options).after session).1
  refine ⟨fun _ _ => perform_of_error, fun undeclared source style e => ⟨?_, ?_⟩,
    prepared.inFormula, count, fun source style xml asked rendered => ?_⟩
  · exact render_eq_error_iff.trans (read_eq_error_iff undeclared)
  · exact renderBody_eq_error_iff.trans (read_eq_error_iff undeclared)
  · rw [← count]
    exact render_numbered asked rendered

end TexFormula.Document
