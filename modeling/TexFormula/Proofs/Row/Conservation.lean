import Mathlib.Data.List.Forall2
import TexFormula.Proofs.Row.Clusters

/-! What a row keeps while its scripts are attached. Nothing that is written is lost, doubled or
moved past another node, nothing that is not written moves, and no end of a cell or a row does. Each
is kept by every step of the rule for clusters, and so by the whole of it. -/
namespace TexFormula.Row

open Node

variable {n script : Node} {nodes rest after : List Node} {partner : Option Node} {c : Cluster}
  {row left gap final : List Place}

theorem Partner.pending (pair : Partner script rest partner after) :
    ∀ n ∈ partner, OtherKind script n := by
  cases pair with
  | pair other =>
    rintro _ ⟨⟩
    exact other
  | alone => simp

theorem OtherKind.isPendingScript (other : OtherKind script n) :
    Row.isPendingScript n = true :=
  isPendingScript_of_isPartner (isPartner_iff.mpr other)

theorem length_freed (partner : Option Node) : (freed partner).length = partner.toList.length :=
  List.length_map _

theorem length_of_clusters (clusters : Clusters row nodes final) :
    final.length = row.length + nodes.length := by
  induction clusters with
  | done => rfl
  | keep _ _ ih =>
    rw [ih, List.length_append, List.length_singleton, List.length_cons]
    omega
  | attach _ pair nearest _ ih =>
    obtain ⟨rfl, _⟩ := nearest
    rw [ih, pair.nodes_eq]
    simp only [List.length_append, List.length_cons, length_freed]
    omega
  | bare _ pair _ _ ih =>
    rw [ih, pair.nodes_eq]
    simp only [List.length_append, List.length_cons, length_freed]
    omega

/-- Whether a cluster was put together by the rule: every base in it is written and no break, every
script in it is a script, every partner of the other kind, and a node without scripts is none. -/
def Cluster.Proper : Cluster → Prop
  | .single n => Row.isPendingScript n = false
  | .blank => True
  | .attached base script partner => base.Proper ∧ IsBase base.node ∧
    Row.isPendingScript script = true ∧ ∀ n ∈ partner, OtherKind script n

/-- Whether a place holds nothing that was not put together by the rule. -/
def Place.Proper (p : Place) : Prop :=
  ∀ c ∈ p, c.Proper

theorem proper_freed : ∀ p ∈ freed partner, p.Proper := by
  simp [freed, Place.Proper]

theorem proper_of_clusters (clusters : Clusters row nodes final) (proper : ∀ p ∈ row, p.Proper) :
    ∀ p ∈ final, p.Proper := by
  have place : ∀ {c : Cluster}, c.Proper → Place.Proper (some c) := by
    rintro c proper _ ⟨⟩
    exact proper
  have free : Place.Proper none := by simp [Place.Proper]
  induction clusters with
  | done => exact proper
  | keep plain _ ih =>
    exact ih (List.forall_mem_append.mpr ⟨proper, List.forall_mem_singleton.mpr (place plain)⟩)
  | @attach _ left c gap n rest partner after final script pair nearest _ ih =>
    obtain ⟨rfl, _, base⟩ := nearest
    obtain ⟨before, behind⟩ := List.forall_mem_append.mp proper
    obtain ⟨here, between⟩ := List.forall_mem_cons.mp behind
    have made : Place.Proper (some (.attached c n partner)) :=
      place ⟨here c rfl, base, script, pair.pending⟩
    exact ih (List.forall_mem_append.mpr ⟨before, List.forall_mem_cons.mpr ⟨made,
      List.forall_mem_append.mpr ⟨between, List.forall_mem_cons.mpr ⟨free, proper_freed⟩⟩⟩⟩)
  | bare script pair _ _ ih =>
    exact ih (List.forall_mem_append.mpr ⟨proper, List.forall_mem_cons.mpr
      ⟨place ⟨trivial, ⟨rfl, rfl⟩, script, pair.pending⟩, proper_freed⟩⟩)

/-- In what is put together no script waits for a base. -/
theorem plain_of_proper {p : Place} (proper : p.Proper) : isPendingScript p.node = false := by
  match p, proper with
  | none, _ => rfl
  | some (.single n), proper => exact proper _ rfl
  | some .blank, _ => rfl
  | some (.attached base script partner), _ =>
    simp [isPendingScript, Place.node, Cluster.node, marks_attach, Marks.isScript,
      Marks.operandOnly]

/-! ### Nodes -/

theorem sources_freed : (freed partner).flatMap Place.sources = [] := by
  cases partner <;> rfl

/-- Where nothing is written there is no node of the row that is written. -/
theorem shown_gap (hidden : ∀ p ∈ gap, p.node.marks.hidden = true) :
    (gap.flatMap Place.sources).filter isShown = [] := by
  rw [List.filter_flatMap, List.flatMap_eq_nil_iff]
  intro p member
  match p, hidden p member with
  | none, _ => rfl
  | some (.single n), hidden =>
    have hidden : n.marks.hidden = true := hidden
    simp [Place.sources, Cluster.sources, isShown, hidden]
  | some .blank, hidden => cases hidden
  | some (.attached base script partner), hidden =>
    simp [Place.node, Cluster.node, marks_attach, Marks.operandOnly] at hidden

/-- The nodes that are written are in the clusters, each of them once, in the order in which they
came. -/
theorem sources_of_clusters (clusters : Clusters row nodes final) :
    (final.flatMap Place.sources).filter isShown =
      (row.flatMap Place.sources ++ nodes).filter isShown := by
  induction clusters with
  | done => rw [List.append_nil]
  | keep _ _ ih =>
    rw [ih]
    simp [Place.sources, Cluster.sources]
  | @attach row left c gap n rest partner after final script pair nearest _ ih =>
    obtain ⟨rfl, hidden, _⟩ := nearest
    have joined : n :: (partner.toList ++ after) = [n] ++ partner.toList ++ after := rfl
    have placed : c.sources ++ n :: partner.toList = c.sources ++ [n] ++ partner.toList := by simp
    rw [ih, pair.nodes_eq, joined]
    simp only [List.flatMap_append, List.flatMap_cons, Place.sources, Option.elim_some,
      Option.elim_none, Cluster.sources, placed, sources_freed, List.filter_append,
      shown_gap hidden, List.nil_append, List.append_nil, List.append_assoc]
  | bare _ pair _ _ ih =>
    rw [ih, pair.nodes_eq]
    simp [Place.sources, Cluster.sources, sources_freed]

/-- The nodes in a cluster that are no scripts are those that the scripts in it belong to. -/
theorem core_of_proper {c : Cluster} (proper : c.Proper) :
    c.core.filter isShown = (c.sources.filter isShown).filter (!·.marks.isScript) := by
  induction c with
  | single n =>
    have plain : (n.marks.isScript && !n.marks.hidden) = false := proper
    cases hidden : n.marks.hidden <;>
      simp_all [Cluster.core, Cluster.sources, isShown]
  | blank => rfl
  | attached base script partner ih =>
    obtain ⟨inner, _, pending, other⟩ := proper
    have scripts : ∀ n ∈ script :: partner.toList, n.marks.isScript = true := by
      refine List.forall_mem_cons.mpr ⟨(Bool.and_eq_true_iff.mp pending).1, fun n member => ?_⟩
      have pending := (other n (Option.mem_toList.mp member)).isPendingScript
      exact (Bool.and_eq_true_iff.mp pending).1
    have none : ((script :: partner.toList).filter isShown).filter (!·.marks.isScript) = [] := by
      refine List.filter_eq_nil_iff.mpr fun n member => ?_
      simp [scripts n (List.mem_of_mem_filter member)]
    rw [Cluster.core, Cluster.sources, ih inner, List.filter_append, List.filter_append, none,
      List.append_nil]

theorem cores_of_proper (proper : ∀ p ∈ row, p.Proper) :
    (row.flatMap Place.core).filter isShown =
      ((row.flatMap Place.sources).filter isShown).filter (!·.marks.isScript) := by
  induction row with
  | nil => rfl
  | cons p row ih =>
    obtain ⟨here, later⟩ := List.forall_mem_cons.mp proper
    have first : p.core.filter isShown =
        (p.sources.filter isShown).filter (!·.marks.isScript) := by
      cases p with
      | none => rfl
      | some c => exact core_of_proper (here c rfl)
    rw [List.flatMap_cons, List.flatMap_cons, List.filter_append, List.filter_append,
      List.filter_append, first, ih later]

/-! ### Places -/

/-- Whether a node that is not written or ends a cell or a row is still there. -/
def Stays (n m : Node) : Prop :=
  n.marks.hidden = true ∨ n.marks.isBreak = true → m = n

theorem stays_of_base (base : IsBase n) (m : Node) : Stays n m := by
  rintro (hidden | ends)
  · cases base.1.symm.trans hidden
  · cases base.2.symm.trans ends

theorem stays_self (nodes : List Node) : List.Forall₂ Stays nodes nodes :=
  List.forall₂_same.mpr fun _ _ _ => rfl

/-- What stays in its place in one step, step by step. -/
theorem getElem?_of_stays {i : Nat} (stays : List.Forall₂ Stays nodes rest)
    (found : nodes[i]? = some n) (fixed : n.marks.hidden = true ∨ n.marks.isBreak = true) :
    rest[i]? = some n := by
  induction stays generalizing i with
  | nil => cases found
  | @cons m m' nodes rest here _ ih =>
    cases i with
    | zero =>
      cases found
      exact congrArg some (here fixed)
    | succ i => exact ih found

/-- Whether nothing that ends a cell or a row is a script. -/
def PlainBreaks (nodes : List Node) : Prop :=
  ∀ n ∈ nodes, n.marks.isBreak = true → n.marks.isScript = false

theorem isBase_of_pending (separator : n.marks.isBreak = true → n.marks.isScript = false)
    (pending : isPendingScript n = true) : IsBase n := by
  obtain ⟨script, shown⟩ := Bool.and_eq_true_iff.mp pending
  refine ⟨by simpa using shown, Bool.eq_false_iff.mpr fun ends => ?_⟩
  cases script.symm.trans (separator ends)

/-- The places of a script and its partner are filled anew or become free, and nothing else moves
among the nodes that are still to come. -/
theorem stays_freed (separators : PlainBreaks (n :: (partner.toList ++ after)))
    (script : isPendingScript n = true) (other : ∀ m ∈ partner, OtherKind n m) (m : Node) :
    List.Forall₂ Stays (n :: (partner.toList ++ after))
      (m :: ((freed partner).map Place.node ++ after)) := by
  obtain ⟨here, later⟩ := List.forall_mem_cons.mp separators
  have first : IsBase n := isBase_of_pending here script
  refine .cons (stays_of_base first m) (List.rel_append ?_ (stays_self after))
  cases partner with
  | none => exact .nil
  | some next =>
    have second : IsBase next :=
      isBase_of_pending (later next List.mem_cons_self) (other next rfl).isPendingScript
    exact .cons (stays_of_base second _) .nil

/-- What is not written and what ends a cell or a row keeps its place, if no end of a cell or row is
a script. -/
theorem getElem?_of_clusters (clusters : Clusters row nodes final) (separators : PlainBreaks nodes)
    {i : Nat} (found : (row.map Place.node ++ nodes)[i]? = some n)
    (fixed : n.marks.hidden = true ∨ n.marks.isBreak = true) :
    (final.map Place.node)[i]? = some n := by
  -- A step leaves the row so far and the nodes to come as long as they are together, so a place is
  -- counted in both, and it is enough that no step changes what is fixed there.
  induction clusters with
  | done => rwa [List.append_nil] at found
  | keep _ _ ih =>
    refine ih (List.forall_mem_cons.mp separators).2 ?_
    rwa [List.map_append, List.append_assoc]
  | attach script pair nearest _ ih =>
    obtain ⟨rfl, _, base⟩ := nearest
    rw [pair.nodes_eq] at separators found
    have later := (List.forall_mem_append.mp (List.forall_mem_cons.mp separators).2).2
    refine ih later (getElem?_of_stays ?_ found fixed)
    simp only [List.map_append, List.map_cons, List.append_assoc, List.cons_append]
    exact List.rel_append (stays_self _) (.cons (stays_of_base base _)
      (List.rel_append (stays_self _) (stays_freed separators script pair.pending _)))
  | bare script pair _ _ ih =>
    rw [pair.nodes_eq] at separators found
    have later := (List.forall_mem_append.mp (List.forall_mem_cons.mp separators).2).2
    refine ih later (getElem?_of_stays ?_ found fixed)
    simp only [List.map_append, List.map_cons, List.append_assoc, List.cons_append]
    exact List.rel_append (stays_self _) (stays_freed separators script pair.pending _)

/-! ### Main result -/

/-- Whether a node is put together from a base, a script and its partner. -/
structure Assembled (base script : Node) (partner : Option Node) (n : Node) : Prop where
  lone : partner = none →
    n.children = [{ base with marks := base.marks.withoutOperand }, unscripted script]
  pair : ∀ other ∈ partner, n.children =
    if script.marks.subscript then
      [{ base with marks := base.marks.withoutOperand }, unscripted script, unscripted other]
    else [{ base with marks := base.marks.withoutOperand }, unscripted other, unscripted script]
  stacked : n.tag ∈ ["munder", "mover", "munderover"] ↔ base.marks.stackedLimits = true
  beside : n.tag ∈ ["msub", "msup", "msubsup"] ↔ base.marks.stackedLimits = false
  operand : n.marks.operandOnly = base.marks.operandOnly

theorem mem_scriptTag : ∀ sub sup stacked : Bool,
    (scriptTag sub sup stacked ∈ ["munder", "mover", "munderover"] ↔ stacked = true) ∧
      (scriptTag sub sup stacked ∈ ["msub", "msup", "msubsup"] ↔ stacked = false) := by
  decide

theorem exists_tag_attach (base script : Node) (partner : Option Node) :
    ∃ sub sup, (attach base script partner).tag = scriptTag sub sup base.marks.stackedLimits := by
  unfold attach
  split <;> exact ⟨_, _, rfl⟩

theorem assembled_attach (base script : Node) (partner : Option Node) :
    Assembled base script partner (attach base script partner) := by
  obtain ⟨sub, sup, tag⟩ := exists_tag_attach base script partner
  obtain ⟨stacked, beside⟩ := mem_scriptTag sub sup base.marks.stackedLimits
  refine ⟨?_, ?_, tag ▸ stacked, tag ▸ beside, by rw [marks_attach]; rfl⟩
  · rintro rfl
    unfold attach
    split <;> rfl
  · rintro other ⟨⟩
    unfold attach
    split <;> rfl

/-- What the row with its scripts at their bases has of the row before. Its places hold the clusters
that the rule makes. -/
structure Conserved (nodes : List Node) (places : List Place) : Prop where
  row : attachScripts nodes = places.map Place.node
  length : (attachScripts nodes).length = nodes.length
  attached : ∀ m ∈ attachScripts nodes, m.marks.hidden = false → m.marks.isScript = false
  fixed : ∀ (i : Nat) (n : Node), nodes[i]? = some n →
    n.marks.hidden = true ∨ n.marks.isBreak = true → (attachScripts nodes)[i]? = some n
  shown : (places.flatMap Place.sources).filter isShown = nodes.filter isShown
  bases : (places.flatMap Place.core).filter isShown =
    (nodes.filter isShown).filter (!·.marks.isScript)
  proper : ∀ p ∈ places, p.Proper

/-- Attaching the scripts of a row conserves it. A script goes with its partner to the nearest
cluster to its left or to an empty base, and so each node that is written is in one place of the
result, as a node of the row or in a cluster; the others keep their places, and so do the nodes that
end a cell or a row. -/
theorem scripts_conserve_row (separators : PlainBreaks nodes) :
    (∃ places, Clusters [] nodes places) ∧
    (∀ places, Clusters [] nodes places → Conserved nodes places) ∧
    ∀ (base : Cluster) (script : Node) (partner : Option Node),
      Assembled base.node script partner (Cluster.attached base script partner).node := by
  refine ⟨exists_clusters [] nodes, fun places clusters => ?_,
    fun base script partner => assembled_attach base.node script partner⟩
  have row : attachScripts nodes = places.map Place.node := attachScriptsFrom_of_clusters clusters
  have proper : ∀ p ∈ places, p.Proper := proper_of_clusters clusters (List.forall_mem_nil _)
  have shown : (places.flatMap Place.sources).filter isShown = nodes.filter isShown :=
    sources_of_clusters clusters
  refine ⟨row, ?_, ?_, ?_, shown, ?_, proper⟩
  · rw [row, List.length_map, length_of_clusters clusters, List.length_nil, Nat.zero_add]
  · intro m member shown
    obtain ⟨p, inside, rfl⟩ := List.mem_map.mp (row ▸ member)
    simpa [isPendingScript, shown] using plain_of_proper (proper p inside)
  · intro i n found fixed
    rw [row]
    exact getElem?_of_clusters clusters separators found fixed
  · rw [cores_of_proper proper, shown]

/-- A row with a base and a pair of scripts, a script behind a placeholder, and one that starts a
cell. -/
def crowdedRow : List Node :=
  [.leaf "mi" "x", (leaf "mn" "2").mark { superscript := true },
    (leaf "mi" "i").mark { subscript := true }, .placeholder,
    (leaf "mn" "3").mark { superscript := true }, (element "mtd").mark { cellBreak := true },
    (leaf "mn" "4").mark { superscript := true }]

/-- The letter gets the pair and the script behind it, and the last script has no base. -/
theorem scripts_conserve_crowdedRow :
    PlainBreaks crowdedRow ∧
      (attachScripts crowdedRow).map Node.tag = ["msup", "", "", "", "", "mtd", "msup"] ∧
      ∃ places, Clusters [] crowdedRow places ∧ Conserved crowdedRow places := by
  have separators : PlainBreaks crowdedRow := by unfold PlainBreaks; decide
  obtain ⟨⟨places, clusters⟩, conserved, _⟩ := scripts_conserve_row separators
  exact ⟨separators, by decide, places, clusters, conserved places clusters⟩

end TexFormula.Row
