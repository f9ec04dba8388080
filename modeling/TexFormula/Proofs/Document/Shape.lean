import TexFormula.Proofs.Document.Reading
import TexFormula.Proofs.Formula.Shape

/-! Elements of a rendered formula are in shape, as long as all states that reading it comes to are
sound. This is so whatever else is asked of children. -/
namespace TexFormula.Document

open Formula (Machine)
open Node (Fit Shaped Inner Solid plain_of_tag shaped_of_free solid_row solid_branch solid_leaf)

variable {F : Fit} {d after : Document} {source : String} {style : Style} {formula : Node}

/-- The states of reading a formula are in shape. -/
theorem Reaches.inShape {m : Machine} (reached : d.Reaches source style m)
    (sound : ∀ m, d.Reaches source style m → m.Sound F) : m.InShape F := by
  obtain ⟨tokens, expanded, prepared, found, run⟩ := reached
  exact Machine.InShape.run (Machine.inShape_start _ _ _ _)
    (fun between reached => sound between ⟨tokens, expanded, prepared, found, reached⟩) run

/-! ### Whole formulas -/

/-- A formula that is a single node is put into a row. -/
theorem inner_body {m : Machine} {node : Option Node} (done : m.focus = .done node)
    (shaped : m.InShape F) (whole : ∀ n, node = some n → n.Usable F →
      ∀ child ∈ Row.arrange [n], child.Arranged F) : (body node).Inner F := by
  unfold Machine.InShape at shaped
  rw [done] at shaped
  obtain ⟨job, gives, -⟩ := shaped
  unfold body
  cases node with
  | none => exact (solid_row (List.forall_mem_nil _)).toInner
  | some n =>
    have usable := gives.usable n rfl
    dsimp only
    split
    case isTrue row =>
      refine .plain usable.shaped (plain_of_tag fun operator => ?_)
      rw [operator] at row
      cases row
    case isFalse =>
      have arranged := whole n rfl usable
      have below : ∀ child ∈ Row.arrange [n], child.Inner F := fun child member =>
        (arranged child member).toInner
      exact (solid_row below).toInner

theorem inner_numbered (n : Nat) (holds : formula.Inner F) : (numbered n formula).Inner F := by
  have label : (Node.leaf "mtext" ("(" ++ toString n ++ ")")).Inner F :=
    (solid_leaf _ _ (by decide) (plain_of_tag (by decide : "mtext" ≠ "mo"))).toInner
  have cell : ∀ {content : Node}, content.Inner F → (Node.branch "mtd" [content]).Inner F :=
    fun known => (solid_branch _ (List.forall_mem_singleton.mpr known) (by decide)).toInner
  have row : (Node.branch "mlabeledtr" [.branch "mtd" [.leaf "mtext" ("(" ++ toString n ++ ")")],
      .branch "mtd" [formula]]).Inner F := by
    have cells : ∀ child ∈ [Node.branch "mtd" [.leaf "mtext" ("(" ++ toString n ++ ")")],
        .branch "mtd" [formula]], child.Inner F :=
      List.forall_mem_cons.mpr ⟨cell label, List.forall_mem_singleton.mpr (cell holds)⟩
    refine .plain (.node ⟨nofun, fun child member => (cells child member).inside, ?_, ?_⟩
      fun child member => (cells child member).shaped)
      (plain_of_tag (by decide : "mlabeledtr" ≠ "mo"))
    · exact fun table => absurd table (by decide : "mlabeledtr" ≠ "mtable")
    · exact fun _ =>
        List.forall_mem_cons.mpr ⟨fun _ => rfl, List.forall_mem_singleton.mpr fun _ => rfl⟩
  have other : ¬ ("mtable" = "mtr" ∨ "mtable" = "mlabeledtr") := by decide
  refine .plain (.node ⟨nofun, List.forall_mem_singleton.mpr row.inside, ?_, fun row =>
    absurd row other⟩ (List.forall_mem_singleton.mpr row.shaped))
    (plain_of_tag (by decide : "mtable" ≠ "mo"))
  exact fun _ => List.forall_mem_singleton.mpr fun _ => .inr rfl

theorem inner_annotate (d : Document) (source : String) (holds : formula.Inner F) :
    (d.annotate source formula).Inner F := by
  have written : (Node.leaf "annotation" source).Solid F :=
    solid_leaf _ _ (by decide) (plain_of_tag (by decide : "annotation" ≠ "mo"))
  unfold annotate
  split
  · refine (solid_branch "semantics" (List.forall_mem_cons.mpr ⟨holds, ?_⟩) (by decide)).toInner
    exact List.forall_mem_singleton.mpr (written.setAttribute _ _).toInner
  · exact holds

theorem inner_whole (style : Style) (holds : formula.Inner F) : (whole style formula).Inner F :=
  ((solid_branch "math" (List.forall_mem_singleton.mpr holds) (by decide)).setAttributes _).toInner

theorem inner_number (d : Document) (style : Style) (holds : formula.Inner F) :
    (d.number style formula).1.Inner F := by
  unfold number
  split
  · exact inner_numbered _ holds
  · exact holds

/-! ### Formulas that can be read -/

/-- A formula that can be read is in shape, and so is what is written around it. -/
theorem inner_of_read (succeeds : d.read source style = .ok (formula, after))
    (sound : ∀ m, d.Reaches source style m → m.Sound F)
    (single : ∀ m n, d.Reaches source style m → m.focus = .done (some n) → m.waiting = [] →
      n.Usable F → ∀ child ∈ Row.arrange [n], child.Arranged F) :
    formula.Inner F ∧
      (whole style (after.annotate source (after.number style formula).1)).Inner F := by
  obtain ⟨last, node, reached, done, alone, same, -⟩ := reaches_of_read succeeds
  have inner : formula.Inner F := by
    refine same ▸ inner_body done (reached.inShape sound) ?_
    rintro n rfl
    exact single last n reached done alone
  exact ⟨inner, inner_whole style (inner_annotate after source (inner_number after style inner))⟩

end TexFormula.Document
