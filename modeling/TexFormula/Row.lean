import TexFormula.Command.Space
import TexFormula.Node

/-! Putting a row of nodes together. What belongs to a neighbour is read as a node with a mark; once
all nodes of a row are there, they are brought together. No step moves a node that it does not
change, and a place that becomes free keeps a placeholder. -/
namespace TexFormula.Row

/-! ### Bases

The base of a node in a row: the nearest node before it that is written, as long as no cell or
row ends in between. Scripts, primes and fractions take their base out of the row and put what they
make of it in its place. -/

/-- A base among the nodes before some place, which are listed from that place to the left. -/
structure Base where
  /-- The nodes between the place and the base. None of them is written. -/
  between : List Node
  node : Node
  /-- The nodes to the left of the base. -/
  beyond : List Node

/-- The base among nodes that are listed from right to left. -/
def base? : List Node → Option Base
  | [] => none
  | n :: rest =>
    if n.marks.hidden then (base? rest).map fun b => { b with between := n :: b.between }
    else if n.marks.isBreak then none
    else some { between := [], node := n, beyond := rest }

/-- The nodes before the place with another node instead of the base. -/
def Base.replace (b : Base) (n : Node) : List Node :=
  b.between ++ n :: b.beyond

/-! ### Limits

Limit switches in a row. A switch acts on the node before it, and that node takes the place of
the switch, so that scripts after the switch stand right behind it. -/

/-- The node after a limit switch. -/
def switchLimits (switch : Marks) (n : Node) : Node :=
  let marks := { n.marks with stackedLimits := switch.limits, movableLimits := false }
  if switch.limits then { n with marks }.setAttribute "movablelimits" "false"
  else { n with marks }.eraseAttribute "movablelimits"

/-- The nodes from `last` on with every switch applied. -/
def applySwitchesFrom (last : Node) : List Node → List Node
  | [] => [last]
  | n :: rest =>
    if n.marks.isLimitSwitch then
      .placeholder :: applySwitchesFrom (switchLimits n.marks last) rest
    else last :: applySwitchesFrom n rest

/-- The row with every limit switch applied to the node before it. A switch at the start of the row
has none and stays. -/
def applySwitches : List Node → List Node
  | [] => []
  | n :: rest => applySwitchesFrom n rest

/-! ### Scripts

Scripts in a row. A script goes to its base, together with a script of the other kind right
after it, and base and scripts become one node. The places of the scripts stay, as placeholders. -/

/-- The element for a base with the given scripts. -/
def scriptTag (sub sup stacked : Bool) : String :=
  match sub, sup, stacked with
  | true, true, false => "msubsup"
  | true, true, true => "munderover"
  | true, false, false => "msub"
  | true, false, true => "munder"
  | false, _, false => "msup"
  | false, _, true => "mover"

/-- A base with its scripts. The node is an operand of a fraction if the base was one. -/
def assemble (base : Node) (sub sup : Option Node) : Node :=
  let bare := { base with marks := base.marks.withoutOperand }
  { tag := scriptTag sub.isSome sup.isSome base.marks.stackedLimits
    marks := { base.marks.operandOnly with assembled := true }
    children := bare :: (sub.toList ++ sup.toList) }

/-- The node without the marks that make it a script. -/
def unscripted (n : Node) : Node :=
  { n with marks := n.marks.withoutScript }

/-- Whether a node is a script that is written. -/
def isPendingScript (n : Node) : Bool :=
  n.marks.isScript && !n.marks.hidden

/-- Whether a node completes a script to a pair of one subscript and one superscript. A node that is
marked as both counts as the subscript. -/
def isPartner (script n : Node) : Bool :=
  !n.marks.hidden && if script.marks.subscript then n.marks.superscript else n.marks.subscript

/-- The node for the scripts of a base, where the first script decides which one is below. -/
def attach (base script : Node) (partner : Option Node) : Node :=
  if script.marks.subscript then assemble base (some (unscripted script)) (partner.map unscripted)
  else assemble base (partner.map unscripted) (some (unscripted script))

/-- Puts the scripts that stand behind the nodes `before`, listed from right to left, to their base.
Without a base they get an empty one in the place of the first script. `places` are the places of
the scripts after the first. -/
def placeScripts (before : List Node) (script : Node) (partner : Option Node)
    (places : List Node) : List Node :=
  match base? before with
  | some base => places ++ .placeholder :: base.replace (attach base.node script partner)
  | none => places ++ attach (.element "none") script partner :: before

/-- The rest of a row with all scripts at their bases. The nodes before it are listed from right to
left. -/
def attachScriptsFrom (before : List Node) : List Node → List Node
  | [] => before.reverse
  | [n] =>
    if isPendingScript n then (placeScripts before n none []).reverse else (n :: before).reverse
  | n :: next :: rest =>
    if isPendingScript n then
      if isPartner n next then
        attachScriptsFrom (placeScripts before n (some next) [.placeholder]) rest
      else attachScriptsFrom (placeScripts before n none []) (next :: rest)
    else attachScriptsFrom (n :: before) (next :: rest)

/-- The row with all scripts at their bases. -/
def attachScripts (nodes : List Node) : List Node :=
  attachScriptsFrom [] nodes

/-! ### Fractions

Operators between two operands that build a fraction. Such an operator leaves a mark on its
second operand, and the first one is the base before that. -/

/-- The fraction that the marks of a second operand ask for. -/
def operandFraction (m : Marks) : Fraction :=
  if m.chooseOperand then .binomial else if m.atopOperand then .unlined else .plain

/-- The rest of a row with all fractions built. The nodes before it are listed from right to left. A
fraction without a first operand gets an empty one and stays in the place of the second. -/
def buildFractionsFrom (before : List Node) : List Node → List Node
  | [] => before.reverse
  | n :: rest =>
    if n.marks.isOperand && !n.marks.hidden then
      let build := (operandFraction n.marks).node
      let lower := { n with marks := n.marks.withoutOperand }
      match base? before with
      | some base =>
        buildFractionsFrom (.placeholder :: base.replace (build base.node lower)) rest
      | none => buildFractionsFrom (build (.row []) lower :: before) rest
    else buildFractionsFrom (n :: before) rest

/-- The row with all fractions built. -/
def buildFractions (nodes : List Node) : List Node :=
  buildFractionsFrom [] nodes

/-! ### Characters

Characters in a row that are not written as they stand in the source: the hyphen, which is a
minus sign, and the apostrophe, which is a prime. Primes next to each other become one superscript. -/

/-- The node with a minus sign for a hyphen. -/
def fixMinus (n : Node) : Node :=
  if n.tag == "mo" && n.text == "-" then { n with text := "−" } else n

/-- Whether a node is an apostrophe of the source. -/
def isPrime (n : Node) : Bool :=
  (n.text == "'" || n.text == "’") && !n.token.kind.command

/-- The glyphs for a number of primes. One glyph stands for at most four. -/
def primeGlyphs : Nat → List Char
  | 0 => []
  | 1 => ['′']
  | 2 => ['″']
  | 3 => ['‴']
  | n + 4 => '⁗' :: primeGlyphs n

/-- The number of primes at the start of a list, and the list with placeholders for them and for
what is between and after them. -/
def absorbPrimes : List Node → Nat × List Node
  | [] => (0, [])
  | n :: rest =>
    if n.isPlaceholder then
      let more := absorbPrimes rest
      (more.1, .placeholder :: more.2)
    else if isPrime n then
      let more := absorbPrimes rest
      (more.1 + 1, .placeholder :: more.2)
    else (0, n :: rest)

/-- The node with a prime. A base that has a subscript but no superscript takes it as its
superscript. -/
def attachPrime (base prime : Node) : Node :=
  if base.marks.assembled && base.tag == "msub" then { base with tag := "msubsup" }.append [prime]
  else if base.marks.assembled && base.tag == "munder" then
    { base with tag := "munderover" }.append [prime]
  else .branch "msup" [base, prime]

theorem length_absorbPrimes (nodes : List Node) :
    (absorbPrimes nodes).2.length = nodes.length := by
  induction nodes with
  | nil => rfl
  | cons n rest ih =>
    unfold absorbPrimes
    split
    · simp [ih]
    · split
      · simp [ih]
      · rfl

/-- The rest of a row with hyphens and apostrophes replaced. The nodes before it are listed from
right to left. Primes without a base get an empty one in the place of the first. -/
def fixCharactersFrom (before : List Node) : List Node → List Node
  | [] => before.reverse
  | n :: rest =>
    if n.marks.hidden then fixCharactersFrom (n :: before) rest
    else if isPrime n then
      let prime := Node.leaf "mo" (String.ofList (primeGlyphs ((absorbPrimes rest).1 + 1)))
      match base? before with
      | some base =>
        fixCharactersFrom (.placeholder :: base.replace (attachPrime base.node prime))
          (absorbPrimes rest).2
      | none =>
        fixCharactersFrom (.branch "msup" [.element "none", prime] :: before) (absorbPrimes rest).2
    else fixCharactersFrom (fixMinus n :: before) rest
termination_by nodes => nodes.length
decreasing_by all_goals simp only [List.length_cons, length_absorbPrimes]; omega

/-- The row with hyphens and apostrophes replaced. -/
def fixCharacters (nodes : List Node) : List Node :=
  fixCharactersFrom [] nodes

end TexFormula.Row

/-! ### The whole row -/

namespace TexFormula

/-- The row with limits, scripts, fractions, spaces and characters put in their places. -/
def Row.arrange (nodes : List Node) : List Node :=
  Row.fixCharacters
    (Row.joinSpaces (Row.buildFractions (Row.attachScripts (Row.applySwitches nodes))))

/-- The node with its children arranged. -/
def Node.arrange (n : Node) : Node :=
  { n with children := Row.arrange n.children }

end TexFormula
