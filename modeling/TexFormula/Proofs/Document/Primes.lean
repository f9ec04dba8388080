import Mathlib
import TexFormula.Formula
import TexFormula.Proofs.Document.Reading
import TexFormula.Proofs.Row.Primes
import TexFormula.Proofs.Xml.Inside

/-! Sources with primes and a subscript. The two can be written in either order, but they do not
give the same formula: with the subscript first the base gets both, and with the primes first the
subscript goes to the last apostrophe, which is written as it stands
(`primes_and_subscript_rendered`). -/

/-! ### Pieces

Pieces of a formula. A piece that is read as one node is read so wherever it stands in its row:
the node takes the marks that are pending there, and the row goes on behind it (`ReadsAs`).
Characters, letters and numbers are such pieces, and so is a group whose content gives a node. A
script mark gives no node and marks the next one. -/

namespace TexFormula

theorem Marks.union_none (m : Marks) : m.union {} = m := by
  simp [union]

theorem Node.mark_none (n : Node) : n.mark {} = n := by
  cases n
  rw [mark, Marks.union_none]

namespace Formula

variable {o : Options} {depth : Nat} {c : Context} {s after : Scope} {t : Token} {n : Node}

/-- Whether a part of a queue is read as a node, whatever stands before and behind it, and what the
scope is after it. -/
def ReadsAs (o : Options) (depth : Nat) (c : Context) (part : Queue) (s : Scope) (n : Node)
    (after : Scope) : Prop :=
  ∀ rest d, readRow o depth c (part ++ rest) d s =
    readRow o depth c rest { latest := n.mark d.pending :: d.latest } after

/-- Whether a token is a single character, a letter or a number. -/
def IsPlain (t : Token) : Prop :=
  t.kind = { char := true } ∨ t.kind = { letter := true } ∨ t.kind = { number := true }

/-- Whether a token marks what follows as a subscript. -/
structure IsSubscriptMark (t : Token) : Prop where
  kind : t.kind = { script := true }
  value : t.value = "_"

theorem single_of_isPlain (plain : IsPlain t) (o : Options) (macros : Macro.Table) (c : Context)
    {bound : Queue} (q : Queue.Below bound) :
    Step.single o macros t c q = (.node (.ofPlain t c), q) := by
  obtain kind | kind | kind := plain <;>
    simp [Step.single, Step.plain, Step.pendingMarks?, Step.operandMarks?, Token.isCellBreak,
      Token.isRowBreak, Token.isNamed, Token.isBlank, kind]

theorem add_of_math (math : c.text = false) (unsized : t.kind.size = 0) (d : Row.Draft) (n : Node) :
    d.add c t n = { latest := n.mark d.pending :: d.latest } := by
  unfold Row.Draft.add Row.Draft.resize
  rw [if_pos unsized]
  cases d.latest <;> simp [math]

/-- A plain token is read as its node. -/
theorem readsAs_ofPlain (plain : IsPlain t) (math : c.text = false) :
    ReadsAs o depth c [⟨.single, t, []⟩] s (.ofPlain t c) s := by
  intro rest d
  have unsized : t.kind.size = 0 := by obtain kind | kind | kind := plain <;> rw [kind] <;> rfl
  have step : Step.ofExpr o s.macros c ⟨.single, t, []⟩ rest =
      ⟨t, .node (.ofPlain t c), ⟨rest, Queue.weight_lt_cons _ rest⟩⟩ := by
    have read := single_of_isPlain plain o s.macros c
      ⟨rest, Queue.weight_lt_cons ⟨.single, t, []⟩ rest⟩
    simp only [Step.ofExpr, read]
  rw [List.singleton_append, readRow]
  simp only [step, perform, Action.node, Row.Draft.addOption]
  rw [← add_of_math math unsized]
  rfl

/-- A group is read as what its content gives. -/
theorem readsAs_group {content : List Token} (math : c.text = false) (unsized : t.kind.size = 0)
    (gives : readJob o depth (.start (.ofTokens (Expr.inner ⟨.group, t, content⟩)) c none) s =
      (some n, after)) : ReadsAs o depth c [⟨.group, t, content⟩] s n after := by
  intro rest d
  let result := readJob o depth (.start (.ofTokens (Expr.inner ⟨.group, t, content⟩)) c none) s
  rw [List.singleton_append, readRow, ← add_of_math math unsized]
  change readRow o depth c rest (d.addOption c t result.1) result.2 = _
  rw [show result = (some n, after) from gives]
  rfl

/-- A script mark gives no node. -/
theorem readRow_subscriptMark (mark : IsSubscriptMark t) (rest : Queue) (d : Row.Draft) :
    readRow o depth c (⟨.single, t, []⟩ :: rest) d s =
      readRow o depth c rest (d.promote { subscript := true }) s := by
  have step : Step.ofExpr o s.macros c ⟨.single, t, []⟩ rest =
      ⟨t, .promote { subscript := true }, ⟨rest, Queue.weight_lt_cons _ rest⟩⟩ := by
    simp [Step.ofExpr, Step.single, Step.pendingMarks?, Token.isCellBreak, Token.isRowBreak,
      Token.isNamed, mark.kind, mark.value]
  rw [readRow]
  simp only [step, perform]

/-- Plain tokens are read as their nodes one after the other. -/
theorem readRow_plain {tokens : List Token} (plain : ∀ t ∈ tokens, IsPlain t)
    (math : c.text = false) (rest : Queue) (latest : List Node) :
    readRow o depth c (tokens.map (⟨.single, ·, []⟩) ++ rest) { latest } s =
      readRow o depth c rest { latest := (tokens.map (Node.ofPlain · c)).reverse ++ latest } s := by
  induction tokens generalizing latest with
  | nil => rfl
  | cons t tokens ih =>
    obtain ⟨here, later⟩ := List.forall_mem_cons.mp plain
    rw [List.map_cons, List.cons_append, ← List.singleton_append, readsAs_ofPlain here math,
      Node.mark_none, ih later, List.map_cons, List.reverse_cons, List.append_assoc,
      List.singleton_append]

end Formula

end TexFormula

/-! ### Sources -/

namespace TexFormula.Document

open Formula (ReadsAs IsSubscriptMark)
open Row (Standing Apostrophe primedSubscript subscripted arrange)

variable {d : Document} {style : Style} {source primesFirst subscriptFirst : String} {q : Queue}
  {nodes : List Node} {b s n m : Node} {scope after : Scope} {t last mark : Token}
  {front : List Token} {base below : Queue}

/-- Whether a source can be read, and the expressions that are read. -/
def CutsInto (d : Document) (source : String) (q : Queue) : Prop :=
  ∃ tokens expanded, Token.tokenize source = .ok tokens ∧
    Macro.expand d.macros tokens = .ok expanded ∧ Queue.ofTokens expanded = q

theorem finish_several {job : Job} (parent : job.parent = none) (option : job.option = none)
    (several : 2 ≤ nodes.length) : job.finish nodes = some (.row (arrange nodes)) := by
  match nodes, several with
  | n :: m :: rest, _ =>
    simp only [Job.finish, parent, option]
    rfl

/-- A source of several nodes is read as the row that they come to. -/
theorem read_of_readRow (cuts : d.CutsInto source q)
    (row : Formula.readRow d.options 0 style.context q {} { macros := d.macros } =
      ({ latest := nodes.reverse }, after)) (several : 2 ≤ nodes.length) :
    d.read source style = .ok (.row (arrange nodes), { d with macros := after.macros }) := by
  obtain ⟨tokens, expanded, prepared, done, rfl⟩ := cuts
  have job : Job.start (.ofTokens expanded) style.context none =
      { queue := .ofTokens expanded, context := style.context } := rfl
  have result : Formula.read d.options style.context expanded { macros := d.macros } =
      (some (.row (arrange nodes)), after) := by
    rw [Formula.read, job, Formula.readJob, row, Formula.close, Row.Draft.nodes,
      List.reverse_reverse, finish_several rfl rfl several]
  exact read_eq_ok_iff.mpr ⟨tokens, expanded, prepared, done, by rw [result]; rfl, by rw [result]⟩

/-- Whether a token is an apostrophe of a source. -/
structure IsApostrophe (t : Token) : Prop where
  kind : t.kind = { char := true }
  value : t.value = "'" ∨ t.value = "’"

theorem IsApostrophe.plain (is : IsApostrophe t) : Formula.IsPlain t :=
  .inl is.kind

theorem IsApostrophe.apostrophe (is : IsApostrophe t) (style : Style) :
    Apostrophe (.ofPlain t style.context) := by
  have text : (Node.ofPlain t style.context).text = t.value := by
    simp [Node.ofPlain, Node.isTie, is.kind, Node.leaf, Node.fromToken, Style.context]
  have kind : (Node.ofPlain t style.context).token.kind = { char := true } := by
    simp [Node.ofPlain, is.kind, Node.leaf, Node.fromToken, Style.context]
  constructor
  · unfold Row.isPrime
    rw [text, kind]
    obtain value | value := is.value <;> rw [value] <;> decide
  · simp [Node.ofPlain, is.kind, Node.leaf, Node.fromToken, Style.context]

/-! ### The two orders -/

/-- Single expressions for tokens. -/
def singles (tokens : List Token) : Queue :=
  tokens.map (⟨.single, ·, []⟩)

section Orders
variable (reads : ReadsAs d.options 0 style.context base { macros := d.macros } b scope)
  (readsBelow : ReadsAs d.options 0 style.context below scope s after)
  (isMark : IsSubscriptMark mark)
include reads readsBelow isMark

theorem read_subscriptFirst {apostrophes : List Token} (are : ∀ t ∈ apostrophes, IsApostrophe t)
    (some : apostrophes ≠ []) (standing : Standing b) (shown : s.marks.hidden = false)
    (noSwitch : s.marks.isLimitSwitch = false)
    (cuts : d.CutsInto source (base ++ ⟨.single, mark, []⟩ :: (below ++ singles apostrophes))) :
    d.read source style = .ok
      (.row (primedSubscript b s apostrophes.length ::
        List.replicate (apostrophes.length + 1) .placeholder),
      { d with macros := after.macros }) := by
  have plain : ∀ t ∈ apostrophes, Formula.IsPlain t := fun t member => (are t member).plain
  have row : Formula.readRow d.options 0 style.context
      (base ++ ⟨.single, mark, []⟩ :: (below ++ singles apostrophes)) {} { macros := d.macros } =
      ({ latest := (b :: s.mark { subscript := true } ::
          apostrophes.map (Node.ofPlain · style.context)).reverse }, after) := by
    rw [reads, Formula.readRow_subscriptMark isMark, readsBelow, singles, Node.mark_none,
      ← List.append_nil (apostrophes.map _), Formula.readRow_plain plain rfl, Formula.readRow,
      List.reverse_cons, List.reverse_cons, List.append_assoc]
    rfl
  have primes : ∀ n ∈ apostrophes.map (Node.ofPlain · style.context), Apostrophe n :=
    List.forall_mem_map.mpr fun t member => (are t member).apostrophe style
  rw [read_of_readRow cuts row (by simp), Row.arrange_subscript_primes standing
    (Row.subscript_mark shown noSwitch) primes (by simpa using some), List.length_map,
    primedSubscript, primedSubscript, Row.unscripted_mark]

theorem read_primesFirst (are : ∀ t ∈ front, IsApostrophe t) (isLast : IsApostrophe last)
    (shown : s.marks.hidden = false) (noSwitch : s.marks.isLimitSwitch = false)
    (cuts : d.CutsInto source
      (base ++ (singles (front ++ [last]) ++ ⟨.single, mark, []⟩ :: below))) :
    d.read source style = .ok
      (.row (arrange (b :: front.map (Node.ofPlain · style.context)) ++
        [subscripted (.ofPlain last style.context) s, .placeholder]),
      { d with macros := after.macros }) := by
  have plain : ∀ t ∈ front ++ [last], Formula.IsPlain t :=
    List.forall_mem_append.mpr ⟨fun t member => (are t member).plain,
      List.forall_mem_singleton.mpr isLast.plain⟩
  have row : Formula.readRow d.options 0 style.context
      (base ++ (singles (front ++ [last]) ++ ⟨.single, mark, []⟩ :: below)) {}
        { macros := d.macros } =
      ({ latest := (b :: front.map (Node.ofPlain · style.context) ++
          [.ofPlain last style.context, s.mark { subscript := true }]).reverse }, after) := by
    rw [reads, singles, Node.mark_none, Formula.readRow_plain plain rfl,
      Formula.readRow_subscriptMark isMark, ← List.append_nil below, readsBelow, Formula.readRow]
    simp [Row.Draft.promote]
    rfl
  rw [read_of_readRow cuts row (by simp), Row.arrange_apostrophe_subscript (isLast.apostrophe style)
    (Row.subscript_mark shown noSwitch), subscripted, subscripted, Row.unscripted_mark]

end Orders

/-! ### What is written -/

theorem isWritten_primedSubscript (b s : Node) (count : Nat) :
    (primedSubscript b s count).isWritten = true := by
  unfold primedSubscript Node.isWritten
  cases b.marks.stackedLimits <;> simp

theorem isWritten_subscripted (b s : Node) : (subscripted b s).isWritten = true := by
  unfold subscripted Node.isWritten
  cases b.marks.stackedLimits <;> simp

/-- The two orders end differently. -/
theorem closeTag_ne (apostrophe : Apostrophe n) (b s s' : Node) (count : Nat)
    (front front' : String) :
    front ++ (primedSubscript b s count).closeTag ≠ front' ++ (subscripted n s').closeTag := by
  intro same
  have below : (subscripted n s').tag = "msub" := by simp [subscripted, apostrophe.unmarked]
  have both : (primedSubscript b s count).tag = "munderover" ∨
      (primedSubscript b s count).tag = "msubsup" := by
    unfold primedSubscript
    cases b.marks.stackedLimits <;> simp
  have chars := congrArg (fun text => text.toList.reverse) same
  simp only [Node.closeTag, String.toList_append, List.reverse_append, below] at chars
  obtain both | both := both
  · rw [both] at chars
    simp at chars
  · rw [both] at chars
    simp at chars

theorem toXml_orders (apostrophe : Apostrophe n) (b s s' : Node) (count places : Nat)
    (before : List Node) (pretty : Bool) :
    (Node.row (primedSubscript b s count :: List.replicate places .placeholder)).toXml pretty =
        (Node.row [primedSubscript b s count]).toXml pretty ∧
      (Node.row (before ++ [subscripted n s', .placeholder])).toXml pretty =
        (Node.row (before ++ [subscripted n s'])).toXml pretty ∧
      (Node.row (primedSubscript b s count :: List.replicate places .placeholder)).toXml pretty ≠
        (Node.row (before ++ [subscripted n s', .placeholder])).toXml pretty := by
  have one := Node.toXml_row_placeholders (List.cons_ne_nil (primedSubscript b s count) []) places
    pretty
  have other := Node.toXml_row_placeholders (List.append_ne_nil_of_right_ne_nil before
    (List.cons_ne_nil (subscripted n s') [])) 1 pretty
  rw [List.singleton_append] at one
  rw [List.append_assoc] at other
  refine ⟨one, other, fun same => ?_⟩
  obtain ⟨tail, ends⟩ := Node.exists_toXml_row_eq pretty
  obtain ⟨oneFront, oneEnds⟩ := ends [] _ (isWritten_primedSubscript b s count)
  obtain ⟨otherFront, otherEnds⟩ := ends before _ (isWritten_subscripted n s')
  have texts : oneFront ++ (primedSubscript b s count).closeTag ++ tail =
      otherFront ++ (subscripted n s').closeTag ++ tail :=
    calc
      _ = (Node.row [primedSubscript b s count]).toXml pretty := oneEnds.symm
      _ = (Node.row (before ++ [subscripted n s'])).toXml pretty :=
        one.symm.trans (same.trans other)
      _ = _ := otherEnds
  exact closeTag_ne apostrophe b s s' count _ _ ((String.append_left_inj tail).mp texts)

/-! ### Main result -/

/-- A source with a base, apostrophes and a subscript can be read in both orders of the two, and
what is written is never the same. With the subscript first, the base has the subscript and the
primes. With the apostrophes first, the last one has the subscript, and all before it is read as
without the two. -/
theorem primes_and_subscript_rendered
    (reads : ReadsAs d.options 0 style.context base { macros := d.macros } b scope)
    (readsBelow : ReadsAs d.options 0 style.context below scope s after)
    (isMark : IsSubscriptMark mark) (are : ∀ t ∈ front, IsApostrophe t)
    (isLast : IsApostrophe last) (standing : Standing b) (shown : s.marks.hidden = false)
    (noSwitch : s.marks.isLimitSwitch = false)
    (first : d.CutsInto subscriptFirst
      (base ++ ⟨.single, mark, []⟩ :: (below ++ singles (front ++ [last]))))
    (second : d.CutsInto primesFirst
      (base ++ (singles (front ++ [last]) ++ ⟨.single, mark, []⟩ :: below))) :
    ∃ one other after', d.read subscriptFirst style = .ok (one, after') ∧
      d.read primesFirst style = .ok (other, after') ∧ ∀ pretty,
        one.toXml pretty = (Node.row [primedSubscript b s (front.length + 1)]).toXml pretty ∧
        other.toXml pretty = (Node.row (arrange (b :: front.map (Node.ofPlain · style.context)) ++
          [subscripted (.ofPlain last style.context) s])).toXml pretty ∧
        one.toXml pretty ≠ other.toXml pretty := by
  have every : ∀ t ∈ front ++ [last], IsApostrophe t :=
    List.forall_mem_append.mpr ⟨are, List.forall_mem_singleton.mpr isLast⟩
  have one := read_subscriptFirst reads readsBelow isMark every (by simp) standing shown noSwitch
    first
  have other := read_primesFirst reads readsBelow isMark are isLast shown noSwitch second
  rw [List.length_append, List.length_singleton] at one
  exact ⟨_, _, _, one, other, toXml_orders (isLast.apostrophe style) b s s _ _ _⟩

set_option maxRecDepth 4096 in
/-- A letter with two primes and a group as its subscript. -/
theorem primes_and_subscript_rendered_group :
    ∃ one other after, ({} : Document).read "f_\x7bij\x7d''" .inlined = .ok (one, after) ∧
      ({} : Document).read "f''_\x7bij\x7d" .inlined = .ok (other, after) ∧
      one.toXml false =
        "<mrow><msubsup><mi>f</mi><mrow><mi>i</mi><mi>j</mi></mrow><mo>″</mo></msubsup></mrow>" ∧
      other.toXml false = "<mrow><msup><mi>f</mi><mo>′</mo></msup>" ++
        "<msub><mo>'</mo><mrow><mi>i</mi><mi>j</mi></mrow></msub></mrow>" ∧
      one.toXml false ≠ other.toXml false := by
  let letter (value : String) : Token := { kind := { letter := true }, value }
  let apostrophe : Token := { kind := { char := true }, value := "'" }
  let mark : Token := { kind := { script := true }, value := "_" }
  let opener : Token := { kind := { curly := true, opens := true }, value := "\x7b", offset := 3 }
  let closer : Token := { kind := { curly := true, closes := true }, value := "\x7d", offset := -3 }
  let group : List Token := [opener, letter "i", letter "j", closer]
  let base : Node := .ofPlain (letter "f") Style.inlined.context
  let below : Node := .row [.ofPlain (letter "i") Style.inlined.context,
    .ofPlain (letter "j") Style.inlined.context]
  have is : IsApostrophe apostrophe := ⟨rfl, .inl rfl⟩
  have reads : ReadsAs {} 0 Style.inlined.context [⟨.single, letter "f", []⟩]
      { macros := .empty } base { macros := .empty } :=
    Formula.readsAs_ofPlain (.inr (.inl rfl)) rfl
  have readsBelow : ReadsAs {} 0 Style.inlined.context [⟨.group, opener, group.tail⟩]
      { macros := .empty } below { macros := .empty } :=
    Formula.readsAs_group rfl rfl (by cbv)
  have subscriptFirst : ({} : Document).CutsInto "f_\x7bij\x7d''" ([⟨.single, letter "f", []⟩] ++
      ⟨.single, mark, []⟩ :: ([⟨.group, opener, group.tail⟩] ++
        singles ([apostrophe] ++ [apostrophe]))) :=
    ⟨letter "f" :: mark :: (group ++ [apostrophe, apostrophe]), _, by cbv, by cbv, by cbv⟩
  have primesFirst : ({} : Document).CutsInto "f''_\x7bij\x7d" ([⟨.single, letter "f", []⟩] ++
      (singles ([apostrophe] ++ [apostrophe]) ++
        ⟨.single, mark, []⟩ :: [⟨.group, opener, group.tail⟩])) :=
    ⟨[letter "f", apostrophe, apostrophe, mark] ++ group,
      [letter "f", apostrophe, apostrophe, mark] ++ group, by cbv, by cbv, by cbv⟩
  obtain ⟨one, other, after, readOne, readOther, written⟩ := primes_and_subscript_rendered reads
    readsBelow ⟨rfl, rfl⟩ (List.forall_mem_singleton.mpr is) is ⟨rfl, rfl, rfl, rfl⟩ rfl rfl
    subscriptFirst primesFirst
  obtain ⟨oneXml, otherXml, differ⟩ := written false
  exact ⟨one, other, after, readOne, readOther, oneXml.trans (by cbv), otherXml.trans (by cbv),
    differ⟩

set_option maxRecDepth 4096 in
/-- The last apostrophe takes the subscript and is written as it stands. -/
theorem apostrophe_takes_subscript :
    (({} : Document).renderBody "f_i'").1 =
        .ok "<mrow><msubsup><mi>f</mi><mi>i</mi><mo>′</mo></msubsup></mrow>" ∧
      (({} : Document).renderBody "f'_i").1 =
        .ok "<mrow><mi>f</mi><msub><mo>'</mo><mi>i</mi></msub></mrow>" :=
  ⟨by cbv, by cbv⟩

end TexFormula.Document
