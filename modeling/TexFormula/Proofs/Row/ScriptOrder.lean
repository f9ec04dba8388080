import Mathlib.Data.List.Basic
import TexFormula.Proofs.Row.Clusters

/-! The order of a subscript and a superscript. The passes read a row from left to right, so a row
can be cut where what they do before the cut does not depend on what stands behind it: a limit
switch must not reach over the cut, and no script before it may find a partner behind it. Behind
such a cut the two scripts make the same node in either order. -/
namespace TexFormula.Row

open Node

variable {sub sup script last : Node} {nodes before pre post front rest after : List Node}
  {partner : Option Node}

/-! ### Limit switches -/

theorem applySwitchesFrom_append (plain : ∀ n ∈ rest.head?, n.marks.isLimitSwitch = false) :
    applySwitchesFrom last (nodes ++ rest) = applySwitchesFrom last nodes ++ applySwitches rest := by
  induction nodes generalizing last with
  | nil =>
    cases rest with
    | nil => rfl
    | cons n rest => simp [applySwitchesFrom, applySwitches, plain n rfl]
  | cons n nodes ih =>
    rw [List.cons_append, applySwitchesFrom, applySwitchesFrom, ih, ih]
    split <;> rfl

/-- No switch reaches over a place where the next node is none. -/
theorem applySwitches_append (plain : ∀ n ∈ rest.head?, n.marks.isLimitSwitch = false) :
    applySwitches (nodes ++ rest) = applySwitches nodes ++ applySwitches rest := by
  cases nodes with
  | nil => rfl
  | cons n nodes => exact applySwitchesFrom_append plain

theorem isPendingScript_switchLimits (switch : Marks) (n : Node) :
    isPendingScript (switchLimits switch n) = isPendingScript n := by
  unfold switchLimits
  split <;> rfl

theorem applySwitchesFrom_ne_nil (last : Node) (nodes : List Node) :
    applySwitchesFrom last nodes ≠ [] := by
  cases nodes with
  | nil => exact List.cons_ne_nil _ _
  | cons n nodes =>
    rw [applySwitchesFrom]
    split <;> exact List.cons_ne_nil _ _

/-- The last node of a row with its switches applied is the last one that is no switch, as far as
scripts go. -/
theorem plain_of_applySwitchesFrom (plain : isPendingScript
      ((nodes.filter (!·.marks.isLimitSwitch)).getLast?.getD last) = false) :
    ∀ n ∈ (applySwitchesFrom last nodes).getLast?, isPendingScript n = false := by
  induction nodes generalizing last with
  | nil =>
    rintro _ ⟨⟩
    exact plain
  | cons m nodes ih =>
    rw [applySwitchesFrom]
    split
    case isTrue switch =>
      rw [List.getLast?_cons_of_ne_nil (applySwitchesFrom_ne_nil _ _)]
      refine ih ?_
      rw [List.filter_cons_of_neg (by simp [switch])] at plain
      cases others : (nodes.filter (!·.marks.isLimitSwitch)).getLast? with
      | none =>
        rw [others] at plain
        exact (isPendingScript_switchLimits _ _).trans plain
      | some n => rwa [others] at plain
    case isFalse other =>
      rw [List.getLast?_cons_of_ne_nil (applySwitchesFrom_ne_nil _ _)]
      refine ih ?_
      rwa [List.filter_cons_of_pos (by simp [other]), List.getLast?_cons] at plain

/-- A row ends with no script once its switches are applied, if the last node that is no switch is
none and the switches are not written. -/
theorem plain_of_applySwitches
    (switches : ∀ n ∈ nodes, n.marks.isLimitSwitch = true → n.marks.hidden = true)
    (plain : ∀ n ∈ (nodes.filter (!·.marks.isLimitSwitch)).getLast?, n.marks.isScript = false) :
    ∀ n ∈ (applySwitches nodes).getLast?, isPendingScript n = false := by
  cases nodes with
  | nil => exact fun _ member => nomatch member
  | cons first nodes =>
    refine plain_of_applySwitchesFrom ?_
    cases switch : first.marks.isLimitSwitch with
    | true =>
      rw [List.filter_cons_of_neg (by simp [switch])] at plain
      cases others : (nodes.filter (!·.marks.isLimitSwitch)).getLast? with
      | none => simp [isPendingScript, switches first List.mem_cons_self switch]
      | some n => simp [isPendingScript, plain n others]
    | false =>
      rw [List.filter_cons_of_pos (by simp [switch]), List.getLast?_cons] at plain
      rw [isPendingScript, plain _ rfl, Bool.false_and]

/-! ### Scripts -/

theorem Partner.append (pair : Partner script front partner after) (more : front ≠ []) :
    Partner script (front ++ rest) partner (after ++ rest) := by
  cases pair with
  | pair other => exact .pair other
  | alone unpaired =>
    refine .alone ?_
    rwa [List.head?_append_of_ne_nil _ more]

/-- Behind a node that is no script the pass starts anew, with what it has made so far. -/
theorem attachScriptsFrom_append (before front rest : List Node)
    (plain : ∀ n ∈ front.getLast?, isPendingScript n = false) :
    attachScriptsFrom before (front ++ rest) =
      attachScriptsFrom (attachScriptsFrom before front).reverse rest := by
  refine attachScriptsFrom_append_of_partners before front rest
    fun n later partner after suffix pending pair => pair.append ?_
  rintro rfl
  obtain ⟨skipped, rfl⟩ := suffix
  cases pending.symm.trans (plain n (by simp))

/-- Whether a node is written as a subscript, and is neither a superscript nor a limit switch. -/
structure OnlySubscript (n : Node) : Prop where
  shown : n.marks.hidden = false
  subscript : n.marks.subscript = true
  noSuperscript : n.marks.superscript = false
  noSwitch : n.marks.isLimitSwitch = false

/-- Whether a node is written as a superscript, and is neither a subscript nor a limit switch. -/
structure OnlySuperscript (n : Node) : Prop where
  shown : n.marks.hidden = false
  superscript : n.marks.superscript = true
  noSubscript : n.marks.subscript = false
  noSwitch : n.marks.isLimitSwitch = false

/-- A subscript and a superscript next to each other go to the same base and make the same node. -/
theorem attachScriptsFrom_pair (lower : OnlySubscript sub) (upper : OnlySuperscript sup) :
    attachScriptsFrom before (sub :: sup :: rest) =
      attachScriptsFrom before (sup :: sub :: rest) := by
  have made : ∀ base, attach base sub (some sup) = attach base sup (some sub) := fun base => by
    rw [attach, attach, if_pos lower.subscript, if_neg (Bool.eq_false_iff.mp upper.noSubscript)]
    rfl
  have first : isPendingScript sub = true := by
    simp [isPendingScript, Marks.isScript, lower.subscript, lower.shown]
  have second : isPendingScript sup = true := by
    simp [isPendingScript, Marks.isScript, upper.superscript, upper.shown]
  rw [attachScriptsFrom_script first (.pair ⟨upper.shown, .inl ⟨lower.subscript, upper.superscript⟩⟩),
    attachScriptsFrom_script second
      (.pair ⟨lower.shown, .inr ⟨upper.noSubscript, lower.subscript⟩⟩)]
  simp only [placeScripts, made, Option.toList_some, List.map_cons, List.map_nil]

/-! ### Main result -/

/-- The order of a subscript and a superscript makes no difference to a row. No switch may act on
the second of them, and the node before the first may be no script. -/
theorem arrange_scripts_comm (n : Node) (lower : OnlySubscript sub) (upper : OnlySuperscript sup)
    (switches : ∀ m ∈ pre, m.marks.isLimitSwitch = true → m.marks.hidden = true)
    (plain : ∀ m ∈ (pre.filter (!·.marks.isLimitSwitch)).getLast?, m.marks.isScript = false)
    (next : ∀ m ∈ post.head?, m.marks.isLimitSwitch = false) :
    ({ n with children := pre ++ [sub, sup] ++ post } : Node).arrange =
      ({ n with children := pre ++ [sup, sub] ++ post } : Node).arrange := by
  -- With both scripts behind the cut the switches leave them alone, whatever their order is.
  have cut : ∀ a b : Node, a.marks.isLimitSwitch = false → b.marks.isLimitSwitch = false →
      attachScripts (applySwitches (pre ++ [a, b] ++ post)) =
        attachScriptsFrom (attachScripts (applySwitches pre)).reverse
          (a :: b :: applySwitches post) := by
    intro a b first second
    have split : pre ++ [a, b] ++ post = pre ++ ([a] ++ ([b] ++ post)) := by simp
    rw [split, applySwitches_append (by simpa using first),
      applySwitches_append (by simpa using second), applySwitches_append next]
    exact attachScriptsFrom_append [] _ _ (plain_of_applySwitches switches plain)
  have same : attachScripts (applySwitches (pre ++ [sub, sup] ++ post)) =
      attachScripts (applySwitches (pre ++ [sup, sub] ++ post)) := by
    rw [cut _ _ lower.noSwitch upper.noSwitch, cut _ _ upper.noSwitch lower.noSwitch]
    exact attachScriptsFrom_pair lower upper
  simp only [Node.arrange, Row.arrange, same]

/-- Behind a sum and its limit switch an exponent and an index can change places. -/
theorem arrange_scripts_comm_sum :
    ∃ sum switch index exponent : Node, OnlySubscript index ∧ OnlySuperscript exponent ∧
      (∀ m ∈ [sum, switch], m.marks.isLimitSwitch = true → m.marks.hidden = true) ∧
      (∀ m ∈ ([sum, switch].filter (!·.marks.isLimitSwitch)).getLast?,
        m.marks.isScript = false) ∧
      (row [sum, switch, index, exponent]).arrange.children.map Node.tag =
        ["", "munderover", "", ""] ∧
      (row [sum, switch, index, exponent]).arrange =
        (row [sum, switch, exponent, index]).arrange := by
  have lower : OnlySubscript ((leaf "mi" "i").mark { subscript := true }) := by constructor <;> rfl
  have upper : OnlySuperscript ((leaf "mn" "2").mark { superscript := true }) := by
    constructor <;> rfl
  have switches : ∀ m ∈ [leaf "mo" "∑", placeholder.mark { limits := true }],
      m.marks.isLimitSwitch = true → m.marks.hidden = true := by decide
  have plain : ∀ m ∈ ([leaf "mo" "∑", placeholder.mark { limits := true }].filter
      (!·.marks.isLimitSwitch)).getLast?, m.marks.isScript = false := by decide
  have next : ∀ m ∈ ([] : List Node).head?, m.marks.isLimitSwitch = false := by simp
  exact ⟨_, _, _, _, lower, upper, switches, plain, by cbv,
    arrange_scripts_comm (row []) lower upper switches plain next⟩

end TexFormula.Row
