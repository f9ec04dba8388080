import TexFormula.Node.Xml
import TexFormula.Text.CharSet

/-! A reader for XML, written from the rules of the format and apart from the rendering of nodes. It
is strict: names have to be names, values stand between double quotes, and the characters that begin
markup count as text only where they are written as references. Pieces are read back from what they
are written as (`scan_write`). -/
namespace TexFormula.Xml

/-- The characters that a name can start with. -/
def nameStartRanges : Text.CharSet :=
  [(0x3A, 0x3A), (0x41, 0x5A), (0x5F, 0x5F), (0x61, 0x7A), (0xC0, 0xD6), (0xD8, 0xF6),
    (0xF8, 0x2FF), (0x370, 0x37D), (0x37F, 0x1FFF), (0x200C, 0x200D), (0x2070, 0x218F),
    (0x2C00, 0x2FEF), (0x3001, 0xD7FF), (0xF900, 0xFDCF), (0xFDF0, 0xFFFD), (0x10000, 0xEFFFF)]

/-- The other characters of names. -/
def nameRestRanges : Text.CharSet :=
  [(0x2D, 0x2E), (0x30, 0x39), (0xB7, 0xB7), (0x300, 0x36F), (0x203F, 0x2040)]

/-- Whether a name can go on with a character. -/
def isNameChar (c : Char) : Bool :=
  nameStartRanges.contains c || nameRestRanges.contains c

/-- Whether characters make up a name. -/
def isNameList : List Char → Bool
  | [] => false
  | c :: cs => nameStartRanges.contains c && cs.all isNameChar

/-- Whether a text is a name. -/
def isName (s : String) : Bool :=
  isNameList s.toList

/-- A piece of a text in XML: a tag, or a character of its content. -/
inductive Piece where
  | opening (name : String) (attributes : List (String × String))
  | closing (name : String)
  | char (c : Char)
deriving DecidableEq, Repr

/-- Reads a text to its end, item by item. An item takes at least one character. -/
def readAll {α : Type} (read : List Char → Option (α × List Char)) (cs : List Char) :
    Option (List α) :=
  if cs = [] then some []
  else match read cs with
    | none => none
    | some (a, rest) =>
      if rest.length < cs.length then (readAll read rest).map (a :: ·) else none
termination_by cs.length

/-- The character that a reference stands for. What comes after its first character is given. -/
def reference? : List Char → Option (Char × List Char)
  | 'a' :: 'm' :: 'p' :: ';' :: rest => some ('&', rest)
  | 'l' :: 't' :: ';' :: rest => some ('<', rest)
  | 'g' :: 't' :: ';' :: rest => some ('>', rest)
  | 'q' :: 'u' :: 'o' :: 't' :: ';' :: rest => some ('\x22', rest)
  | _ => none

/-- A character of a text, and what follows it. -/
def char? : List Char → Option (Char × List Char)
  | [] => none
  | c :: rest =>
    if c = '&' then reference? rest
    else if c = '<' ∨ c = '>' then none
    else some (c, rest)

/-- The value that starts after a quotation mark, and what follows the closing one. -/
def value? (cs : List Char) : Option (String × List Char) :=
  match cs.dropWhile (· ≠ '\x22') with
  | [] => none
  | _ :: rest => do
    let value ← readAll char? (cs.takeWhile (· ≠ '\x22'))
    return (String.ofList value, rest)

/-- An attribute with the blank before it, and what follows it. -/
def attribute? : List Char → Option ((String × String) × List Char)
  | ' ' :: cs =>
    match cs.dropWhile isNameChar with
    | '=' :: '\x22' :: rest => do
      let name := cs.takeWhile isNameChar
      let (value, rest) ← value? rest
      if isNameList name then some ((String.ofList name, value), rest) else none
    | _ => none
  | _ => none

/-- The tag with a text between its brackets. -/
def tagOf? : List Char → Option Piece
  | '/' :: cs => if isNameList cs then some (.closing (String.ofList cs)) else none
  | cs => do
    let name := cs.takeWhile isNameChar
    let attributes ← readAll attribute? (cs.dropWhile isNameChar)
    if isNameList name then some (.opening (String.ofList name) attributes) else none

/-- A piece of a text, and what follows it. -/
def piece? : List Char → Option (Piece × List Char)
  | '<' :: cs =>
    match cs.dropWhile (· ≠ '>') with
    | [] => none
    | _ :: rest => do
      let tag ← tagOf? (cs.takeWhile (· ≠ '>'))
      return (tag, rest)
  | cs => (char? cs).map fun (c, rest) => (.char c, rest)

/-- The pieces of a text, if it is written as XML has to be written. -/
def scan (s : String) : Option (List Piece) :=
  readAll piece? s.toList

/-- An attribute as it is written in a tag. -/
def writeAttribute (a : String × String) : List Char :=
  ' ' :: a.1.toList ++ ['=', '\x22'] ++ a.2.toList.flatMap Node.escapeAttributeChar ++ ['\x22']

/-- A piece as it is written. -/
def Piece.write : Piece → List Char
  | .opening name attributes => '<' :: name.toList ++ attributes.flatMap writeAttribute ++ ['>']
  | .closing name => '<' :: '/' :: name.toList ++ ['>']
  | .char c => Node.escapeChar c

/-- Whether the names in a piece satisfy `p` if it names an element and `q` if it names an
attribute. -/
def Piece.HasNames (p q : String → Prop) : Piece → Prop
  | .opening name attributes => p name ∧ ∀ a ∈ attributes, q a.1
  | .closing name => p name
  | .char _ => True

/-- A way to write an item after which a reader stops, whatever follows. -/
structure Reads {α : Type} (read : List Char → Option (α × List Char)) (a : α) (cs : List Char) :
    Prop where
  nonempty : cs ≠ []
  read_append : ∀ rest, read (cs ++ rest) = some (a, rest)

section ReadAll
variable {α : Type} {read : List Char → Option (α × List Char)}

theorem readAll_append {a : α} {cs : List Char} (reads : Reads read a cs) (rest : List Char) :
    readAll read (cs ++ rest) = (readAll read rest).map (a :: ·) := by
  have shorter : rest.length < (cs ++ rest).length := by
    have := List.length_pos_iff.mpr reads.nonempty
    rw [List.length_append]
    omega
  rw [readAll, if_neg (by simp [reads.nonempty]), reads.read_append]
  simp only [if_pos shorter]

/-- Items that are each read back are read back one after the other. -/
theorem readAll_flatMap {write : α → List Char} {items : List α}
    (reads : ∀ a ∈ items, Reads read a (write a)) :
    readAll read (items.flatMap write) = some items := by
  induction items with
  | nil => simp [readAll]
  | cons a items ih =>
    have later := ih fun b member => reads b (List.mem_cons_of_mem _ member)
    rw [List.flatMap_cons, readAll_append (reads a List.mem_cons_self), later, Option.map_some]

end ReadAll

/-! ### Characters and values -/

/-- A character is written as itself unless it begins or ends markup. -/
theorem escapeChar_cases (c : Char) :
    (c = '&' ∧ Node.escapeChar c = ['&', 'a', 'm', 'p', ';']) ∨
    (c = '<' ∧ Node.escapeChar c = ['&', 'l', 't', ';']) ∨
    (c = '>' ∧ Node.escapeChar c = ['&', 'g', 't', ';']) ∨
    (c ≠ '&' ∧ c ≠ '<' ∧ c ≠ '>' ∧ Node.escapeChar c = [c]) := by
  by_cases ampersand : c = '&'
  · exact .inl ⟨ampersand, by simp [Node.escapeChar, ampersand]⟩
  · by_cases less : c = '<'
    · exact .inr (.inl ⟨less, by simp [Node.escapeChar, less]⟩)
    · by_cases greater : c = '>'
      · exact .inr (.inr (.inl ⟨greater, by simp [Node.escapeChar, greater]⟩))
      · exact .inr (.inr (.inr ⟨ampersand, less, greater,
          by simp [Node.escapeChar, ampersand, less, greater]⟩))

theorem reads_escapeChar (c : Char) : Reads char? c (Node.escapeChar c) := by
  rcases escapeChar_cases c with ⟨same, written⟩ | ⟨same, written⟩ | ⟨same, written⟩ |
    ⟨ampersand, less, greater, written⟩
  · exact same ▸ ⟨List.cons_ne_nil _ _, fun _ => rfl⟩
  · exact same ▸ ⟨List.cons_ne_nil _ _, fun _ => rfl⟩
  · exact same ▸ ⟨List.cons_ne_nil _ _, fun _ => rfl⟩
  · rw [written]
    exact ⟨List.cons_ne_nil _ _, fun rest => by simp [char?, ampersand, less, greater]⟩

theorem reads_escapeAttributeChar (c : Char) : Reads char? c (Node.escapeAttributeChar c) := by
  by_cases quote : c = '\x22'
  · subst quote
    exact ⟨List.cons_ne_nil _ _, fun _ => rfl⟩
  · simpa [Node.escapeAttributeChar, quote] using reads_escapeChar c

theorem apart_of_all {cs : List Char}
    (apart : (cs.all fun c => c != '\x22' && c != '>') = true) {x : Char} (member : x ∈ cs) :
    x ≠ '\x22' ∧ x ≠ '>' := by
  simpa using List.all_eq_true.mp apart x member

/-- Neither quotation marks nor closing brackets stand in a written value. -/
theorem mem_escapeAttributeChar {c x : Char} (member : x ∈ Node.escapeAttributeChar c) :
    x ≠ '\x22' ∧ x ≠ '>' := by
  by_cases quote : c = '\x22'
  · subst quote
    exact apart_of_all (by decide) member
  · simp only [Node.escapeAttributeChar, beq_iff_eq, quote, if_false] at member
    rcases escapeChar_cases c with ⟨-, written⟩ | ⟨-, written⟩ | ⟨-, written⟩ |
      ⟨-, -, greater, written⟩
    all_goals rw [written] at member
    · exact apart_of_all (by decide) member
    · exact apart_of_all (by decide) member
    · exact apart_of_all (by decide) member
    · cases List.mem_singleton.mp member
      exact ⟨quote, greater⟩

theorem value?_write (value : String) (rest : List Char) :
    value? (value.toList.flatMap Node.escapeAttributeChar ++ '\x22' :: rest) =
      some (value, rest) := by
  have inside : ∀ x ∈ value.toList.flatMap Node.escapeAttributeChar,
      decide (x ≠ '\x22') = true := by
    intro x member
    obtain ⟨c, -, here⟩ := List.mem_flatMap.mp member
    exact decide_eq_true (mem_escapeAttributeChar here).1
  have text := readAll_flatMap fun c (_ : c ∈ value.toList) => reads_escapeAttributeChar c
  unfold value?
  rw [List.dropWhile_append_of_pos inside, List.takeWhile_append_of_pos inside]
  simp [text]

/-! ### Names and attributes -/

theorem isNameChar_of_mem {cs : List Char} (name : isNameList cs = true) {c : Char}
    (member : c ∈ cs) : isNameChar c = true := by
  cases cs with
  | nil => cases name
  | cons d cs =>
    obtain ⟨first, others⟩ := Bool.and_eq_true_iff.mp name
    rcases List.mem_cons.mp member with same | later
    · subst same
      exact Bool.or_eq_true_iff.mpr (.inl first)
    · exact List.all_eq_true.mp others c later

/-- A name ends at a character that no name has, and at the end of the text. -/
theorem span_name {cs rest : List Char} (name : isNameList cs = true)
    (ends : ∀ c ∈ rest.head?, isNameChar c = false) :
    (cs ++ rest).takeWhile isNameChar = cs ∧ (cs ++ rest).dropWhile isNameChar = rest := by
  have inside : ∀ c ∈ cs, isNameChar c = true := fun c => isNameChar_of_mem name
  rw [List.takeWhile_append_of_pos inside, List.dropWhile_append_of_pos inside]
  cases rest with
  | nil => simp
  | cons c rest => simp [ends c rfl]

theorem reads_attribute {a : String × String} (name : isName a.1 = true) :
    Reads attribute? a (writeAttribute a) where
  nonempty := List.cons_ne_nil _ _
  read_append rest := by
    obtain ⟨key, value⟩ := a
    have name : isNameList key.toList = true := name
    have shape : writeAttribute (key, value) ++ rest =
        ' ' :: (key.toList ++ '=' :: '\x22' ::
          (value.toList.flatMap Node.escapeAttributeChar ++ '\x22' :: rest)) := by
      simp [writeAttribute]
    have ends : isNameChar '=' = false := by decide
    obtain ⟨taken, dropped⟩ := @span_name key.toList ('=' :: '\x22' ::
      (value.toList.flatMap Node.escapeAttributeChar ++ '\x22' :: rest)) name (by simpa using ends)
    rw [shape]
    simp [attribute?, taken, dropped, value?_write, name]

/-! ### Pieces -/

/-- A piece whose names are names. -/
def Piece.Named (piece : Piece) : Prop :=
  piece.HasNames (isName · = true) (isName · = true)

theorem not_bracket_of_name {cs : List Char} (name : isNameList cs = true) {c : Char}
    (member : c ∈ cs) : c ≠ '>' := by
  intro bracket
  subst bracket
  have impossible := isNameChar_of_mem name member
  revert impossible
  decide

theorem not_bracket_of_attribute {a : String × String} (name : isName a.1 = true) {c : Char}
    (member : c ∈ writeAttribute a) : c ≠ '>' := by
  simp only [writeAttribute, List.cons_append, List.nil_append, List.append_assoc, List.mem_cons,
    List.mem_append, List.not_mem_nil, or_false] at member
  rcases member with blank | key | equals | quote | value | quote
  · simp [blank]
  · exact not_bracket_of_name name key
  · simp [equals]
  · simp [quote]
  · obtain ⟨x, -, here⟩ := List.mem_flatMap.mp value
    exact (mem_escapeAttributeChar here).2
  · simp [quote]

/-- What stands between brackets is read up to the closing one. -/
theorem reads_tag {tag : List Char} {piece : Piece} (inside : ∀ c ∈ tag, c ≠ '>')
    (known : tagOf? tag = some piece) : Reads piece? piece ('<' :: tag ++ ['>']) where
  nonempty := List.cons_ne_nil _ _
  read_append rest := by
    have inside : ∀ c ∈ tag, decide (c ≠ '>') = true := fun c member =>
      decide_eq_true (inside c member)
    have shape : '<' :: tag ++ ['>'] ++ rest = '<' :: (tag ++ '>' :: rest) := by simp
    rw [shape]
    unfold piece?
    simp only
    rw [List.dropWhile_append_of_pos inside, List.takeWhile_append_of_pos inside]
    simp [known]

theorem tagOf?_opening {name : String} {attributes : List (String × String)}
    (known : isName name = true) (named : ∀ a ∈ attributes, isName a.1 = true) :
    tagOf? (name.toList ++ attributes.flatMap writeAttribute) =
      some (.opening name attributes) := by
  have known : isNameList name.toList = true := known
  have read := readAll_flatMap fun a (member : a ∈ attributes) =>
    reads_attribute (named a member)
  have ends : ∀ c ∈ (attributes.flatMap writeAttribute).head?, isNameChar c = false := by
    cases attributes with
    | nil => simp
    | cons a attributes =>
      have blank : isNameChar ' ' = false := by decide
      simpa [writeAttribute] using blank
  obtain ⟨taken, dropped⟩ := span_name known ends
  -- A name does not start with a slash, so the tag is not taken for a closing one.
  unfold tagOf?
  split
  case h_1 cs slash =>
    cases start : name.toList with
    | nil => simp [start, isNameList] at known
    | cons c letters =>
      rw [start] at slash known
      cases slash
      have impossible : nameStartRanges.contains '/' = false := by decide
      simp [isNameList, impossible] at known
  case h_2 => simp [taken, dropped, read, known]

/-- A written character does not look like a tag. -/
theorem escapeChar_append_ne (c : Char) (rest tag : List Char) :
    Node.escapeChar c ++ rest ≠ '<' :: tag := by
  rcases escapeChar_cases c with ⟨-, written⟩ | ⟨-, written⟩ | ⟨-, written⟩ | ⟨-, less, -, written⟩
  all_goals simp [written]
  exact fun same => absurd same less

theorem reads_char (c : Char) : Reads piece? (.char c) (Node.escapeChar c) where
  nonempty := (reads_escapeChar c).nonempty
  read_append rest := by
    unfold piece?
    split
    case h_1 tag same => exact absurd same (escapeChar_append_ne c rest tag)
    case h_2 => rw [(reads_escapeChar c).read_append, Option.map_some]

/-- A piece is read back from what it is written as. -/
theorem reads_piece {piece : Piece} (named : piece.Named) : Reads piece? piece piece.write := by
  cases piece with
  | opening name attributes =>
    obtain ⟨known, named⟩ := named
    refine reads_tag (fun c member => ?_) (tagOf?_opening known named)
    rcases List.mem_append.mp member with letter | later
    · exact not_bracket_of_name known letter
    · obtain ⟨a, here, inside⟩ := List.mem_flatMap.mp later
      exact not_bracket_of_attribute (named a here) inside
  | closing name =>
    have known : isNameList name.toList = true := named
    refine @reads_tag ('/' :: name.toList) _ (fun c member => ?_) (by simp [tagOf?, known])
    rcases List.mem_cons.mp member with slash | letter
    · simp [slash]
    · exact not_bracket_of_name known letter
  | char c => exact reads_char c

/-- Pieces are read back from what they are written as. -/
theorem scan_write {pieces : List Piece} (named : ∀ piece ∈ pieces, piece.Named) :
    scan (String.ofList (pieces.flatMap Piece.write)) = some pieces := by
  unfold scan
  rw [String.toList_ofList]
  exact readAll_flatMap fun piece member => reads_piece (named piece member)

end TexFormula.Xml
