/-! The context in which an expression is read. It is handed down from an expression to those inside
it. -/
namespace TexFormula

/-! ### Variants

Font variants of letters. A variant is a set of marks, for weight and slant combine with the
sans-serif form, but not every set has a name in the output. -/

/-- A font variant. -/
structure Variant where
  normal : Bool := false
  doubleStruck : Bool := false
  monospace : Bool := false
  /-- Script letters in the calligraphic form. -/
  chancery : Bool := false
  /-- Script letters in the round form. -/
  roundhand : Bool := false
  fraktur : Bool := false
  bold : Bool := false
  italic : Bool := false
  sans : Bool := false
deriving DecidableEq, Repr, Inhabited

namespace Variant

/-- The variants with a name in the output. -/
def named : List (Variant × String) :=
  [({ normal := true }, "normal"),
   ({ doubleStruck := true }, "double-struck"),
   ({ bold := true }, "bold"),
   ({ bold := true, italic := true }, "bold-italic"),
   ({ chancery := true }, "script"),
   ({ roundhand := true }, "script"),
   ({ fraktur := true }, "fraktur"),
   ({ italic := true }, "italic"),
   ({ sans := true }, "sans-serif"),
   ({ sans := true, bold := true }, "sans-serif-bold"),
   ({ sans := true, bold := true, italic := true }, "sans-serif-bold-italic"),
   ({ sans := true, italic := true }, "sans-serif-italic"),
   ({ monospace := true }, "monospace")]

/-- The name of a variant in the output. -/
def name? (v : Variant) : Option String :=
  named.lookup v

end Variant

/-! ### Contexts -/

/-- The styles that a formula can be set in. -/
structure StyleMarks where
  display : Bool := false
  inlined : Bool := false
  script : Bool := false
  scriptScript : Bool := false
deriving DecidableEq, Repr, Inhabited

/-- The styles of both. -/
def StyleMarks.union (a b : StyleMarks) : StyleMarks where
  display := a.display || b.display
  inlined := a.inlined || b.inlined
  script := a.script || b.script
  scriptScript := a.scriptScript || b.scriptScript

/-- The size of a formula that asks for none. -/
def Context.presetSize : Fin 16 := 0

/-- What the reading of an expression depends on. -/
structure Context where
  root : Bool := false
  styles : StyleMarks := {}
  /-- Letters become text, and whitespace becomes visible. -/
  text : Bool := false
  bracketed : Bool := false
  /-- The size, from 1 to 10, or 0 where none was asked for. -/
  size : Fin 16 := Context.presetSize
  /-- The marks between cells and rows count. -/
  table : Bool := false
  /-- An argument of the environment comes before its content. -/
  takesArgument : Bool := false
  variant : Variant := {}
deriving DecidableEq, Repr, Inhabited

namespace Context

/-- The context that asks for a size and for nothing else. A size has four bits. -/
def ofSize (level : Nat) : Context :=
  { size := Fin.ofNat 16 level }

/-- The context with everything that another one asks for added to it. Only variants do not combine:
the other one counts. -/
def combine (c other : Context) : Context where
  root := c.root || other.root
  styles := c.styles.union other.styles
  text := c.text || other.text
  bracketed := c.bracketed || other.bracketed
  size := c.size ||| other.size
  table := c.table || other.table
  takesArgument := c.takesArgument || other.takesArgument
  variant := other.variant

/-- The context with another variant. -/
def withVariant (c : Context) (variant : Variant) : Context :=
  { c with variant }

/-- A context in which nothing but a variant is asked for changes nothing but the variant. -/
theorem combine_variant (c : Context) (variant : Variant) :
    c.combine { variant } = c.withVariant variant := by
  have size : c.size ||| 0 = c.size := by
    generalize c.size = size
    revert size
    decide
  simp [combine, withVariant, StyleMarks.union, presetSize, size]

/-- The context with the styles, the size and the variant of another one, as far as that has any. -/
def switch (c other : Context) : Context :=
  { c with
    styles := if other.styles = {} then c.styles else other.styles
    size := if other.size = 0 then c.size else other.size
    variant := if other.variant = {} then c.variant else other.variant }

end Context

end TexFormula
