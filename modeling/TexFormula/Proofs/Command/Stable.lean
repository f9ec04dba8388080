import Mathlib.Data.Option.Basic
import TexFormula.Command
import TexFormula.Entries
import TexFormula.Proofs.Node.Stable

/-! The tables of commands: what is stable holds of the nodes that a table gives, the attributes
that a table names are attributes of the vocabulary, and no symbol or identifier has marks that
concern its neighbours. So no name of an attribute comes from a source, and only what is written as
such asks for a script or a fraction. -/
namespace TexFormula.Command

open Node (Stable attributeNames stable_element stable_leaf stable_one stable_two stable_row)
open Option (forall_mem_map)

variable {A : Node → Prop} [Stable A]

/-- The attributes that a command sets under a name of its own. -/
def Structural.attributes : Structural → List String
  | .binary (.decoration name) => [name]
  | .ternary (.span name) => [name]
  | _ => []

/-- A command all of whose nodes have a property everywhere, if it is stable. -/
def Everywhere (A : Node → Prop) : Command → Prop
  | .logo node => node.Everywhere A
  | .identifier marks => marks.isPending = false
  | .symbol found => found.marks.isPending = false
  | .built node => node.Everywhere A
  | .switch found => ∀ entry ∈ found.attributes, entry.1 ∈ attributeNames
  | .structural found => ∀ name ∈ found.attributes, name ∈ attributeNames
  | _ => True

/-! ### Optional values -/

/-- What holds of both alternatives holds of the first that is there. -/
theorem forall_mem_orElse {α : Type} {p : α → Prop} {a b : Option α} (first : ∀ x ∈ a, p x)
    (second : ∀ x ∈ b, p x) : ∀ x ∈ (a <|> b), p x := by
  cases a with
  | none => exact second
  | some x => exact first

theorem holds_getD {α : Type} {p : α → Prop} {a : Option α} {preset : α} (holds : ∀ x ∈ a, p x)
    (otherwise : p preset) : p (a.getD preset) := by
  cases a with
  | none => exact otherwise
  | some x => exact holds x rfl

/-! ### Logos and limits -/

theorem stable_shiftedLetter (text offset padding : String) :
    (shiftedLetter text offset padding).Everywhere A := by
  have letter := stable_leaf (A := A) "mtext" text (by decide)
  have style := stable_one "mstyle" letter (by decide)
  have sized := style.setAttributes [("scriptlevel", "0"), ("displaystyle", "false")] (by decide)
  have padded := stable_one "mpadded" sized (by decide)
  have raised := padded.setAttribute "voffset" offset (by decide)
  exact raised.setAttribute "style" padding (by decide)

theorem stable_tighten (width : String) : (tighten width).Everywhere A := by
  have space := (stable_element (A := A) "mspace" (by decide)).setAttribute
    "width" width (by decide)
  exact space.setAttribute "style" _ (by decide)

theorem stable_logoTail : ∀ n ∈ logoTail, n.Everywhere A := by
  have letter : ∀ text, (Node.leaf "mtext" text).Everywhere A := fun text =>
    stable_leaf _ text (by decide)
  simp only [logoTail, List.forall_mem_cons]
  exact ⟨letter _, stable_tighten _, stable_shiftedLetter _ _ _, stable_tighten _, letter _,
    List.forall_mem_nil _⟩

theorem stable_logoHead : ∀ n ∈ logoHead, n.Everywhere A := by
  have letter := stable_leaf (A := A) "mtext" "L" (by decide)
  have space := (stable_element (A := A) "mspace" (by decide)).setAttribute "style"
    "margin-left:-0.35em;" (by decide)
  simp only [logoHead, List.forall_mem_cons]
  exact ⟨letter, space, stable_shiftedLetter _ _ _, stable_tighten _, List.forall_mem_nil _⟩

theorem stable_logo? {name : String} {n : Node} (given : logo? name = some n) : n.Everywhere A := by
  unfold logo? at given
  split at given
  all_goals cases given
  · exact stable_row (List.forall_mem_append.mpr ⟨stable_logoHead, stable_logoTail⟩)
  · exact stable_row stable_logoTail

theorem stable_arrowLimit (arrow : String) : (arrowLimit arrow).Everywhere A := by
  have below := (stable_leaf (A := A) "mo" arrow (by decide)).setAttribute
    "stretchy" "true" (by decide)
  have word := stable_leaf (A := A) "mo" "lim" (by decide)
  exact (stable_two _ word below (by decide)).mark rfl

theorem stable_linedLimit (padding side : String) : (linedLimit padding side).Everywhere A := by
  have word := ((stable_leaf (A := A) "mo" "lim" (by decide)).setCss "padding" padding).setCss
    side "0.065em solid"
  exact (stable_one _ word (by decide)).mark rfl

theorem stable_builtLimit? {name : String} {n : Node} (given : builtLimit? name = some n) :
    n.Everywhere A := by
  unfold builtLimit? at given
  split at given
  all_goals cases given
  · exact stable_arrowLimit _
  · exact stable_arrowLimit _
  · exact stable_linedLimit _ _
  · exact stable_linedLimit _ _

/-! ### Tables -/

theorem isPending_identifierMarks? {name : String} :
    ∀ marks ∈ identifierMarks? name, marks.isPending = false := by
  intro marks given
  unfold identifierMarks? at given
  split at given
  · cases given
    rfl
  · split at given
    · cases given
      rfl
    · split at given
      · cases given
        rfl
      · cases given
        rfl
      · cases given

theorem isPending_named? {name : String} :
    ∀ found ∈ Symbol.named? name, found.marks.isPending = false := by
  intro found given
  obtain ⟨group, member, inside⟩ := List.exists_of_findSome?_eq_some given
  have all : ∀ group ∈ Symbol.groups, group.marks.isPending = false := by decide
  obtain ⟨glyph, _, same⟩ := Option.map_eq_some_iff.mp inside
  exact same ▸ all group member

omit [Stable A] in
theorem stable_switch {name : String} {found : Switch} (given : Switch.named? name = some found) :
    Everywhere A (.switch found) := by
  have all : ∀ entry ∈ Switch.all, ∀ a ∈ entry.2.attributes, a.1 ∈ attributeNames := by decide
  exact all _ (Entries.mem_of_lookup given)

omit [Stable A] in
theorem stable_structural {name : String} :
    ∀ found ∈ structural? name, Everywhere A (.structural found) := by
  have two : ∀ entry ∈ binaryCommands, ∀ a ∈ (Structural.binary entry.2).attributes,
      a ∈ attributeNames := by decide
  have three : ∀ entry ∈ ternaryCommands, ∀ a ∈ (Structural.ternary entry.2).attributes,
      a ∈ attributeNames := by decide
  refine forall_mem_orElse ?_ (forall_mem_orElse ?_ ?_)
  · exact forall_mem_map.mpr fun command _ => List.forall_mem_nil _
  · exact forall_mem_map.mpr fun command found => two _ (Entries.mem_of_lookup found)
  · exact forall_mem_map.mpr fun command found => three _ (Entries.mem_of_lookup found)

/-- The commands that no macro can hide are in the vocabulary. -/
theorem stable_fixed? {name : String} : ∀ command ∈ fixed? name, command.Everywhere A :=
  forall_mem_orElse (forall_mem_map.mpr fun _ _ => trivial)
    (forall_mem_map.mpr fun _ found => stable_logo? found)

omit [Stable A] in
theorem stable_kern? {name : String} : ∀ command ∈ kern? name, command.Everywhere A := by
  unfold kern?
  split
  · exact fun _ member => Option.some.inj member ▸ trivial
  · exact fun _ member => nomatch member

/-- All commands are in the vocabulary. -/
theorem stable_named (name : String) : (named name).Everywhere A := by
  unfold named
  refine holds_getD ?_ trivial
  refine forall_mem_orElse (forall_mem_map.mpr isPending_identifierMarks?) ?_
  refine forall_mem_orElse (forall_mem_map.mpr isPending_named?) ?_
  refine forall_mem_orElse (forall_mem_map.mpr fun _ found => stable_builtLimit? found) ?_
  refine forall_mem_orElse (forall_mem_map.mpr fun _ _ => trivial) ?_
  refine forall_mem_orElse (forall_mem_map.mpr fun _ _ => trivial) ?_
  refine forall_mem_orElse (forall_mem_map.mpr fun _ found => stable_switch found) ?_
  refine forall_mem_orElse (forall_mem_map.mpr stable_structural) ?_
  refine forall_mem_orElse stable_kern? ?_
  exact forall_mem_orElse (forall_mem_map.mpr fun _ _ => trivial)
    (forall_mem_map.mpr fun _ _ => trivial)

end TexFormula.Command
