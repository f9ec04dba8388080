/-! Marks of nodes: what a node means for the nodes beside it. They decide how a row of nodes is put
together and are never written out themselves. -/
namespace TexFormula

/-- The marks of a node. -/
structure Marks where
  /-- The node keeps its place in a row and is never written. -/
  hidden : Bool := false
  largeOperator : Bool := false
  /-- The node is the superscript of the one before it. -/
  superscript : Bool := false
  /-- The node is the subscript of the one before it. -/
  subscript : Bool := false
  movableLimits : Bool := false
  /-- Scripts stand below and above the node and not beside it. -/
  stackedLimits : Bool := false
  /-- The node stands between two cells of a table. -/
  cellBreak : Bool := false
  /-- The node stands between two rows of a table. -/
  rowBreak : Bool := false
  /-- The node asks for stacked scripts on the operator before it. -/
  limits : Bool := false
  /-- The node asks for scripts beside the operator before it. -/
  noLimits : Bool := false
  /-- The node stands upright unless a variant is asked for. -/
  upright : Bool := false
  stretchy : Bool := false
  horizontalArrow : Bool := false
  verticalArrow : Bool := false
  /-- The node is the denominator of a fraction with a line. -/
  overOperand : Bool := false
  /-- The node is the lower number of a binomial. -/
  chooseOperand : Bool := false
  /-- The node is the lower part of a fraction without a line. -/
  atopOperand : Bool := false
  /-- The node was put together from a base and scripts. -/
  assembled : Bool := false
deriving DecidableEq, Repr, Inhabited

namespace Marks

/-- The marks of both. -/
def union (a b : Marks) : Marks where
  hidden := a.hidden || b.hidden
  largeOperator := a.largeOperator || b.largeOperator
  superscript := a.superscript || b.superscript
  subscript := a.subscript || b.subscript
  movableLimits := a.movableLimits || b.movableLimits
  stackedLimits := a.stackedLimits || b.stackedLimits
  cellBreak := a.cellBreak || b.cellBreak
  rowBreak := a.rowBreak || b.rowBreak
  limits := a.limits || b.limits
  noLimits := a.noLimits || b.noLimits
  upright := a.upright || b.upright
  stretchy := a.stretchy || b.stretchy
  horizontalArrow := a.horizontalArrow || b.horizontalArrow
  verticalArrow := a.verticalArrow || b.verticalArrow
  overOperand := a.overOperand || b.overOperand
  chooseOperand := a.chooseOperand || b.chooseOperand
  atopOperand := a.atopOperand || b.atopOperand
  assembled := a.assembled || b.assembled

/-- The node is a script of the one before it. -/
def isScript (m : Marks) : Bool :=
  m.superscript || m.subscript

/-- The node is the second operand of an operator that builds a fraction. -/
def isOperand (m : Marks) : Bool :=
  m.overOperand || m.chooseOperand || m.atopOperand

/-- The node switches the limits of the operator before it. -/
def isLimitSwitch (m : Marks) : Bool :=
  m.limits || m.noLimits

/-- The node ends a cell or a row. -/
def isBreak (m : Marks) : Bool :=
  m.cellBreak || m.rowBreak

/-- The marks without those that make a node a script. -/
def withoutScript (m : Marks) : Marks :=
  { m with superscript := false, subscript := false }

/-- The marks without those that make a node an operand of a fraction. -/
def withoutOperand (m : Marks) : Marks :=
  { m with overOperand := false, chooseOperand := false, atopOperand := false }

/-- Of all marks those that make a node an operand of a fraction. -/
def operandOnly (m : Marks) : Marks :=
  { overOperand := m.overOperand, chooseOperand := m.chooseOperand, atopOperand := m.atopOperand }

end Marks

end TexFormula
