import Mathlib.Data.List.Chain
import Mathlib.Data.List.Forall2
import TexFormula.Proofs.Row.Runs

/-! The widths of spaces. Joining the spaces of a row keeps their width: what is left of a run of
spaces is one space, in the place of the first, that is as wide as all of them
(`spaces_conserve_width`). The pass is taken run by run here. A run that is given in the middle of a
row is one that the pass comes to as a whole, because no space before it reaches it
(`joinSpaces_append`). -/
namespace TexFormula.Row

open Node

variable {n first : Node} {nodes left others right : List Node}

/-- Whether a run of spaces with the placeholders among and behind them is a whole one: it starts
with a space, which no space before it reaches, and goes on as far as there are spaces and
placeholders. -/
structure WholeRun (nodes left : List Node) (first : Node) (others right : List Node) : Prop where
  row_eq : nodes = left ++ first :: (others ++ right)
  starts : isFixedSpace first = true
  inside : ∀ n ∈ others, continuesSpaces n = true
  ends : ∀ n ∈ right.head?, continuesSpaces n = false
  apart : ∀ n ∈ (occupied left).getLast?, isFixedSpace n = false

/-- Whether a space and another one next to it would have to be joined. -/
def Touches (m n : Node) : Prop :=
  isFixedSpace m = true ∧ isFixedSpace n = true

theorem length_joined (first : Node) (others : List Node) :
    (joined first others).length = (first :: others).length := by
  rw [joined, List.length_cons, List.length_map, List.length_cons]

/-! ### Places -/

/-- Whether a node that is no space to be joined is still there. -/
def Remains (n m : Node) : Prop :=
  isFixedSpace n = false → m = n

theorem remains_vacate (n : Node) : Remains n (vacate n) := by
  intro other
  rw [vacate, if_neg (by simp [other])]

/-- Each place of a row has what it had before, unless that is a space to be joined. -/
theorem remains_joinSpaces (nodes : List Node) : List.Forall₂ Remains nodes (joinSpaces nodes) := by
  induction nodes using run_induction with
  | nil => simp [joinSpaces]
  | other n rest other ih =>
    rw [joinSpaces_other other]
    exact .cons (fun _ => rfl) ih
  | run first others right space inside ends ih =>
    rw [joinSpaces_run space inside ends]
    have taken : Remains first (widen first (totalWidth (first :: others))) := by
      intro other
      cases space.symm.trans other
    have vacated : List.Forall₂ Remains others (others.map vacate) :=
      List.forall₂_map_right_iff.mpr (List.forall₂_same.mpr fun n _ => remains_vacate n)
    exact .cons taken (List.rel_append vacated ih)

/-! ### Runs -/

/-- The nodes before a place are joined without those behind it, if no space reaches over it. -/
theorem joinSpaces_append (apart : ∀ n ∈ (occupied left).getLast?, isFixedSpace n = false)
    (right : List Node) : joinSpaces (left ++ right) = joinSpaces left ++ joinSpaces right := by
  induction left using run_induction with
  | nil => rw [joinSpaces, List.nil_append, List.nil_append]
  | other n rest other ih =>
    rw [List.cons_append, joinSpaces_other other, joinSpaces_other other, List.cons_append]
    refine congrArg (n :: ·) (ih fun m member => apart m ?_)
    cases free : n.isPlaceholder with
    | true => rwa [occupied_free free]
    | false =>
      rw [occupied_cons free]
      exact List.mem_getLast?_cons member
  | run first others rest space inside ends ih =>
    have whole : occupied (first :: (others ++ rest)) =
        first :: (occupied others ++ occupied rest) := by
      rw [occupied_cons (isPlaceholder_of_isFixedSpace space), occupied_append]
    rw [whole] at apart
    have more : rest ≠ [] := by
      -- Otherwise the last node of the run would be a space at the end of the row.
      rintro rfl
      have spaces : ∀ n ∈ first :: occupied others, isFixedSpace n = true :=
        List.forall_mem_cons.mpr ⟨space, occupied_run inside⟩
      obtain ⟨n, last⟩ := Option.isSome_iff_exists.mp
        (List.getLast?_isSome.mpr (List.cons_ne_nil first (occupied others)))
      have far := apart n (by simpa using last)
      cases (spaces n (List.mem_of_getLast? last)).symm.trans far
    have ends' : ∀ n ∈ (rest ++ right).head?, continuesSpaces n = false := by
      rwa [List.head?_append_of_ne_nil _ more]
    rw [List.cons_append, List.append_assoc, joinSpaces_run space inside ends',
      joinSpaces_run space inside ends, ih, List.append_assoc]
    intro n member
    refine apart n (List.mem_getLast?_cons ?_)
    exact List.mem_getLast?_append_of_mem_getLast? member

/-- A whole run is joined where it stands. -/
theorem WholeRun.joinSpaces_eq (run : WholeRun nodes left first others right) :
    joinSpaces nodes = joinSpaces left ++ joined first others ++ joinSpaces right := by
  rw [run.row_eq, joinSpaces_append run.apart, joinSpaces_run run.starts run.inside run.ends,
    List.append_assoc]

theorem length_joinSpaces (nodes : List Node) : (joinSpaces nodes).length = nodes.length :=
  (remains_joinSpaces nodes).length_eq.symm

/-- A node that is no space reaches no run behind it. -/
theorem WholeRun.cons {m : Node} (run : WholeRun nodes left first others right)
    (other : isFixedSpace m = false) : WholeRun (m :: nodes) (m :: left) first others right := by
  obtain ⟨rfl, starts, inside, ends, apart⟩ := run
  refine ⟨rfl, starts, inside, ends, ?_⟩
  cases free : m.isPlaceholder with
  | true => rwa [occupied_free free]
  | false =>
    rw [occupied_cons free, List.getLast?_cons]
    rintro _ ⟨⟩
    cases last : (occupied left).getLast? with
    | none => exact other
    | some k => exact apart k last

/-- A run behind another one stays whole: the one before ends at a node that is neither a space nor
a placeholder, so something is in between. -/
theorem WholeRun.behind (run : WholeRun nodes left first others right)
    (ends : ∀ n ∈ nodes.head?, continuesSpaces n = false) (front : List Node) :
    WholeRun (front ++ nodes) (front ++ left) first others right := by
  obtain ⟨rfl, opens, inner, stops, apart⟩ := run
  refine ⟨(List.append_assoc ..).symm, opens, inner, stops, ?_⟩
  cases left with
  | nil =>
    have stop := ends first rfl
    rw [continuesSpaces, opens, Bool.or_true] at stop
    cases stop
  | cons m left =>
    have stop : continuesSpaces m = false := ends m rfl
    have taken : m.isPlaceholder = false := (Bool.or_eq_false_iff.mp stop).1
    rw [occupied_append, occupied_cons taken]
    rw [occupied_cons taken] at apart
    rwa [List.getLast?_append_of_ne_nil _ (List.cons_ne_nil _ _)]

/-- Every space belongs to a whole run. -/
theorem exists_wholeRun (nodes : List Node) {i : Nat} (found : nodes[i]? = some n)
    (space : isFixedSpace n = true) : ∃ left first others right,
      WholeRun nodes left first others right ∧
        left.length ≤ i ∧ i < left.length + (first :: others).length := by
  induction nodes using run_induction generalizing i with
  | nil => cases found
  | other m rest other ih =>
    cases i with
    | zero =>
      cases found
      cases space.symm.trans other
    | succ i =>
      obtain ⟨left, first, others, right, run, low, high⟩ := ih found
      refine ⟨m :: left, first, others, right, run.cons other, Nat.succ_le_succ low, ?_⟩
      rw [List.length_cons]
      omega
  | run head tail rest starts inside ends ih =>
    by_cases within : i < (head :: tail).length
    · refine ⟨[], head, tail, rest, ⟨rfl, starts, inside, ends, ?_⟩, Nat.zero_le i, ?_⟩
      · simp
      · rwa [List.length_nil, Nat.zero_add]
    · have outside : (head :: tail).length ≤ i := Nat.le_of_not_lt within
      have later : rest[i - (head :: tail).length]? = some n := by
        rw [← found, ← List.cons_append, List.getElem?_append_right outside]
      obtain ⟨left, first, others, right, run, low, high⟩ := ih later
      refine ⟨head :: tail ++ left, first, others, right, run.behind ends (head :: tail), ?_, ?_⟩
      · rw [List.length_append]
        omega
      · rw [List.length_append]
        omega

/-! ### Main result -/

/-- No two spaces are left next to each other. -/
theorem apart_joinSpaces (nodes : List Node) :
    (occupied (joinSpaces nodes)).IsChain fun m n => ¬ Touches m n := by
  induction nodes using run_induction with
  | nil => simp [joinSpaces]
  | other n rest other ih =>
    rw [joinSpaces_other other]
    cases free : n.isPlaceholder with
    | true => rwa [occupied_free free]
    | false =>
      rw [occupied_cons free]
      refine List.isChain_cons.mpr ⟨fun m _ touches => ?_, ih⟩
      cases touches.1.symm.trans other
  | run first others right space inside ends ih =>
    rw [joinSpaces_run space inside ends, occupied_append, occupied_joined space inside,
      List.singleton_append]
    refine List.isChain_cons.mpr ⟨fun m member touches => ?_, ih⟩
    -- The node behind the run is neither a space nor a placeholder, so the pass leaves it alone.
    cases right with
    | nil => simp [joinSpaces] at member
    | cons k right =>
      obtain ⟨taken, other⟩ := Bool.or_eq_false_iff.mp (ends k rfl)
      rw [joinSpaces_other other, occupied_cons taken] at member
      cases member
      cases touches.2.symm.trans other

/-- Joining the spaces of a row conserves their widths. The row has as many places as before, and no
two spaces are left with nothing but placeholders in between. Each whole run of spaces is joined in
the place of its first one, which is as wide as all of them are together, and there is no other
space in the end. Whatever is no such space is where it was. -/
theorem spaces_conserve_width (nodes : List Node) :
    (joinSpaces nodes).length = nodes.length ∧
    (occupied (joinSpaces nodes)).IsChain (fun m n => ¬ Touches m n) ∧
    (∀ left first others right, WholeRun nodes left first others right →
      joinSpaces nodes = joinSpaces left ++ joined first others ++ joinSpaces right) ∧
    (∀ (i : Nat) m, (joinSpaces nodes)[i]? = some m → isFixedSpace m = true →
      ∃ left first others right, WholeRun nodes left first others right ∧ left.length = i ∧
        m = widen first (totalWidth (first :: others))) ∧
    ∀ (i : Nat) n, nodes[i]? = some n → isFixedSpace n = false →
      (joinSpaces nodes)[i]? = some n := by
  have kept : ∀ (i : Nat) n, nodes[i]? = some n → isFixedSpace n = false →
      (joinSpaces nodes)[i]? = some n := by
    intro i n found other
    obtain ⟨inside, same⟩ := List.getElem?_eq_some_iff.mp found
    have within : i < (joinSpaces nodes).length := (length_joinSpaces nodes).symm ▸ inside
    have remains : Remains nodes[i] (joinSpaces nodes)[i] :=
      (remains_joinSpaces nodes).get inside within
    rw [List.getElem?_eq_getElem within, remains (same ▸ other), same]
  refine ⟨length_joinSpaces nodes, apart_joinSpaces nodes, fun left first others right run =>
    run.joinSpaces_eq, fun i m found space => ?_, kept⟩
  have inside : i < nodes.length :=
    length_joinSpaces nodes ▸ (List.getElem?_eq_some_iff.mp found).1
  have here : nodes[i]? = some nodes[i] := List.getElem?_eq_getElem inside
  have was : isFixedSpace nodes[i] = true := by
    by_contra other
    have same := (kept i _ here (Bool.not_eq_true _ ▸ other)).symm.trans found
    cases same
    exact other space
  obtain ⟨left, first, others, right, run, low, high⟩ := exists_wholeRun nodes here was
  refine ⟨left, first, others, right, run, ?_⟩
  obtain ⟨k, rfl⟩ := Nat.exists_eq_add_of_le low
  have place : (joined first others)[k]? = some m := by
    rw [← found, run.joinSpaces_eq, List.append_assoc,
      List.getElem?_append_right (by rw [length_joinSpaces]; exact low), length_joinSpaces,
      Nat.add_sub_cancel_left, List.getElem?_append_left]
    rw [length_joined]
    omega
  cases k with
  | zero => exact ⟨rfl, (Option.some.inj place).symm⟩
  | succ k =>
    obtain ⟨n, _, rfl⟩ := List.mem_map.mp (List.mem_of_getElem? (l := others.map vacate) place)
    cases (isFixedSpace_vacate n).symm.trans space

end TexFormula.Row
