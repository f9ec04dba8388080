import TexFormula.Node.Xml

/-! Texts inside nodes. What a node is written as holds what its written children are written as, on
one line or on many, and its other children leave no trace. -/
namespace TexFormula.Node

/-- Whether a text is written wherever a node is written, on one line or on many. -/
def Shows (n : Node) (part : String) : Prop :=
  (∃ front back, n.render = front ++ part ++ back) ∧
    ∀ depth, ∃ front back, n.renderPretty depth = front ++ part ++ back

variable {part : String}

theorem Shows.toXml {n : Node} (shows : n.Shows part) (pretty : Bool) :
    ∃ front back, n.toXml pretty = front ++ part ++ back := by
  cases pretty with
  | true => exact shows.2 0
  | false => exact shows.1

theorem renderAll_of_mem {child : Node} {children : List Node} (member : child ∈ children) :
    ∃ front back, renderAll children = front ++ child.render ++ back := by
  induction children with
  | nil => cases member
  | cons n rest ih =>
    rw [renderAll]
    rcases List.mem_cons.mp member with rfl | later
    · exact ⟨"", renderAll rest, by rw [String.empty_append]⟩
    · obtain ⟨front, back, same⟩ := ih later
      exact ⟨n.render ++ front, back, by rw [same]; simp only [String.append_assoc]⟩

theorem renderPrettyAll_of_mem {child : Node} {children : List Node} (depth : Nat)
    (written : child.isWritten = true) (member : child ∈ children) :
    ∃ front back, renderPrettyAll depth children =
      front ++ child.renderPretty depth ++ back := by
  induction children with
  | nil => cases member
  | cons n rest ih =>
    rw [renderPrettyAll]
    rcases List.mem_cons.mp member with rfl | later
    · refine ⟨"", "\n" ++ renderPrettyAll depth rest, ?_⟩
      rw [if_pos written, String.empty_append, String.append_assoc]
    · obtain ⟨front, back, same⟩ := ih later
      refine ⟨(if n.isWritten then n.renderPretty depth ++ "\n" else "") ++ front, back, ?_⟩
      rw [same]
      simp only [String.append_assoc]

/-- What a child shows is shown by its parent. -/
theorem Shows.of_child {n child : Node} (shows : child.Shows part) (member : child ∈ n.children)
    (child_written : child.isWritten = true) (written : n.isWritten = true)
    (filled : emptyTags.contains n.tag = false) : n.Shows part := by
  obtain ⟨tag, text, attributes, css, marks, children, token, option⟩ := n
  have some : children.isEmpty = false := by
    cases children with
    | nil => cases member
    | cons => rfl
  simp only at filled
  constructor
  · obtain ⟨front, back, here⟩ := renderAll_of_mem member
    obtain ⟨front', back', there⟩ := shows.1
    refine ⟨openTag ⟨tag, text, attributes, css, marks, children, token, option⟩ ++ front ++ front',
      back' ++ back ++ closeTag ⟨tag, text, attributes, css, marks, children, token, option⟩, ?_⟩
    rw [render]
    simp only [written, if_true, filled, some, Bool.false_eq_true, if_false, here, there,
      String.append_assoc]
  · intro depth
    obtain ⟨front, back, here⟩ := renderPrettyAll_of_mem (depth + 1) child_written member
    obtain ⟨front', back', there⟩ := shows.2 (depth + 1)
    refine ⟨indentation depth ++
      openTag ⟨tag, text, attributes, css, marks, children, token, option⟩ ++ "\n" ++ front ++
      front', back' ++ back ++ indentation depth ++
      closeTag ⟨tag, text, attributes, css, marks, children, token, option⟩, ?_⟩
    rw [renderPretty]
    simp only [written, if_true, filled, some, Bool.false_eq_true, if_false, here, there,
      String.append_assoc]

theorem render_of_unwritten {n : Node} (unwritten : n.isWritten = false) : n.render = "" := by
  obtain ⟨tag, text, attributes, css, marks, children, token, option⟩ := n
  rw [render, if_neg (by simp [unwritten])]

theorem renderAll_filter (nodes : List Node) :
    renderAll (nodes.filter isWritten) = renderAll nodes := by
  induction nodes with
  | nil => rfl
  | cons n rest ih =>
    cases written : n.isWritten with
    | true => rw [List.filter_cons_of_pos written, renderAll, renderAll, ih]
    | false =>
      rw [List.filter_cons_of_neg (by simp [written]), ih, renderAll, render_of_unwritten written,
        String.empty_append]

theorem renderPrettyAll_filter (depth : Nat) (nodes : List Node) :
    renderPrettyAll depth (nodes.filter isWritten) = renderPrettyAll depth nodes := by
  induction nodes with
  | nil => rfl
  | cons n rest ih =>
    cases written : n.isWritten with
    | true => rw [List.filter_cons_of_pos written, renderPrettyAll, renderPrettyAll, ih]
    | false =>
      rw [List.filter_cons_of_neg (by simp [written]), ih, renderPrettyAll,
        if_neg (by simp [written]), String.empty_append]

theorem render_row {nodes : List Node} (some : nodes.isEmpty = false) :
    (row nodes).render = (row []).openTag ++ renderAll nodes ++ (row []).closeTag := by
  have written : (row nodes).isWritten = true := rfl
  have filled : ¬ emptyTags.contains "mrow" = true := by decide
  unfold row branch at *
  rw [render, if_pos written, if_neg filled, if_neg (by simp [some])]
  rfl

theorem renderPretty_row {nodes : List Node} (some : nodes.isEmpty = false) :
    (row nodes).renderPretty 0 = indentation 0 ++ (row []).openTag ++
      ("\n" ++ renderPrettyAll 1 nodes ++ indentation 0) ++ (row []).closeTag := by
  have written : (row nodes).isWritten = true := rfl
  have filled : ¬ emptyTags.contains "mrow" = true := by decide
  unfold row branch at *
  rw [renderPretty, if_pos written, if_neg filled, if_neg (by simp [some])]
  rfl

/-- Placeholders behind the nodes of a row leave no trace. -/
theorem toXml_row_placeholders {nodes : List Node} (some : nodes ≠ []) (count : Nat)
    (pretty : Bool) :
    (row (nodes ++ List.replicate count placeholder)).toXml pretty = (row nodes).toXml pretty := by
  have same : (nodes ++ List.replicate count placeholder).filter isWritten =
      nodes.filter isWritten := by
    have unwritten : placeholder.isWritten = false := rfl
    simp [List.filter_append, unwritten]
  have filled : (nodes ++ List.replicate count placeholder).isEmpty = false := by simp [some]
  have filled' : nodes.isEmpty = false := by simpa using some
  cases pretty with
  | true =>
    change (row (_ ++ _)).renderPretty 0 = (row nodes).renderPretty 0
    rw [renderPretty_row filled, renderPretty_row filled', ← renderPrettyAll_filter 1 (_ ++ _),
      same, renderPrettyAll_filter]
  | false =>
    change (row (_ ++ _)).render = (row nodes).render
    rw [render_row filled, render_row filled', ← renderAll_filter (_ ++ _), same, renderAll_filter]

theorem exists_render_eq {n : Node} (written : n.isWritten = true) :
    ∃ front, n.render = front ++ n.closeTag := by
  obtain ⟨tag, text, attributes, css, marks, children, token, option⟩ := n
  rw [render, if_pos written]
  exact ⟨_, rfl⟩

theorem exists_renderPretty_eq {n : Node} (written : n.isWritten = true) (depth : Nat) :
    ∃ front, n.renderPretty depth = front ++ n.closeTag := by
  obtain ⟨tag, text, attributes, css, marks, children, token, option⟩ := n
  rw [renderPretty, if_pos written]
  exact ⟨_, rfl⟩

theorem exists_renderAll_eq {n : Node} (written : n.isWritten = true) (nodes : List Node) :
    ∃ front, renderAll (nodes ++ [n]) = front ++ n.closeTag := by
  induction nodes with
  | nil =>
    obtain ⟨front, ends⟩ := exists_render_eq written
    exact ⟨front, by rw [List.nil_append, renderAll, renderAll, ends, String.append_empty]⟩
  | cons m nodes ih =>
    obtain ⟨front, ends⟩ := ih
    exact ⟨m.render ++ front, by rw [List.cons_append, renderAll, ends, String.append_assoc]⟩

theorem exists_renderPrettyAll_eq {n : Node} (written : n.isWritten = true) (depth : Nat)
    (nodes : List Node) :
    ∃ front, renderPrettyAll depth (nodes ++ [n]) = front ++ n.closeTag ++ "\n" := by
  induction nodes with
  | nil =>
    obtain ⟨front, ends⟩ := exists_renderPretty_eq written depth
    refine ⟨front, ?_⟩
    rw [List.nil_append, renderPrettyAll, renderPrettyAll, if_pos written, ends,
      String.append_empty]
  | cons m nodes ih =>
    obtain ⟨front, ends⟩ := ih
    refine ⟨(if m.isWritten then m.renderPretty depth ++ "\n" else "") ++ front, ?_⟩
    rw [List.cons_append, renderPrettyAll, ends]
    simp only [String.append_assoc]

/-- What is written of a row ends with the end of its last node. -/
theorem exists_toXml_row_eq (pretty : Bool) :
    ∃ tail, ∀ (nodes : List Node) (n : Node), n.isWritten = true →
      ∃ front, (row (nodes ++ [n])).toXml pretty = front ++ n.closeTag ++ tail := by
  have some : ∀ (nodes : List Node) n, (nodes ++ [n]).isEmpty = false := by simp
  cases pretty with
  | true =>
    refine ⟨"\n" ++ indentation 0 ++ (row []).closeTag, fun nodes n written => ?_⟩
    obtain ⟨front, ends⟩ := exists_renderPrettyAll_eq written 1 nodes
    refine ⟨indentation 0 ++ (row []).openTag ++ "\n" ++ front, ?_⟩
    change (row (nodes ++ [n])).renderPretty 0 = _
    rw [renderPretty_row (some nodes n), ends]
    simp only [String.append_assoc]
  | false =>
    refine ⟨(row []).closeTag, fun nodes n written => ?_⟩
    obtain ⟨front, ends⟩ := exists_renderAll_eq written nodes
    refine ⟨(row []).openTag ++ front, ?_⟩
    change (row (nodes ++ [n])).render = _
    rw [render_row (some nodes n), ends]
    simp only [String.append_assoc]

/-- A text in which nothing has to be escaped. -/
theorem escape_of_plain {text : String} (plain : ∀ c ∈ text.toList, escapeChar c = [c]) :
    escape text = text := by
  have same : text.toList.flatMap escapeChar = text.toList := by
    generalize text.toList = chars at plain
    induction chars with
    | nil => rfl
    | cons c rest ih =>
      rw [List.flatMap_cons, plain c List.mem_cons_self,
        ih fun d member => plain d (List.mem_cons_of_mem _ member)]
      rfl
  rw [escape, same, String.ofList_toList]

end TexFormula.Node
