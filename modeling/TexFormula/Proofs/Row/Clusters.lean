import Mathlib.Data.List.Induction
import TexFormula.Proofs.Row.Passes

/-! Scripts and their bases, place by place. While the scripts of a row are attached, a place holds
a cluster, which is a node with the scripts that have come to it, or it has become free. The rule by
which clusters grow is said here on the row from left to right and by the places of its nodes
(`Clusters`). The pass follows it (`attachScriptsFrom_of_clusters`), and it never gets stuck
(`exists_clusters`), so what the pass does can be read off the rule. -/
namespace TexFormula.Row

open Node

/-- A node with the scripts that have come to it. -/
inductive Cluster where
  /-- A node of the row without scripts. -/
  | single (n : Node)
  /-- An empty base. -/
  | blank
  /-- A base with one script, or with a script and a partner of the other kind. -/
  | attached (base : Cluster) (script : Node) (partner : Option Node)

namespace Cluster

/-- The node that stands for a cluster. -/
def node : Cluster → Node
  | single n => n
  | blank => .element "none"
  | attached base script partner => attach base.node script partner

/-- The nodes of the row that are in a cluster, in the order in which they came. -/
def sources : Cluster → List Node
  | single n => [n]
  | blank => []
  | attached base script partner => base.sources ++ script :: partner.toList

/-- The node of the row that the scripts of a cluster belong to. -/
def core : Cluster → List Node
  | single n => [n]
  | blank => []
  | attached base _ _ => base.core

end Cluster

/-- What a place of a row holds: a cluster, or nothing any more. -/
abbrev Place := Option Cluster

namespace Place

/-- The node in a place. -/
def node (p : Place) : Node :=
  p.elim .placeholder Cluster.node

/-- The nodes of the row that a place holds. -/
def sources (p : Place) : List Node :=
  p.elim [] Cluster.sources

/-- The node of the row that the scripts in a place belong to. -/
def core (p : Place) : List Node :=
  p.elim [] Cluster.core

end Place

/-- Whether a node is written. -/
def isShown (n : Node) : Bool :=
  !n.marks.hidden

/-- Whether a node is a script of the other kind, which goes to a base together with the first one.
-/
def OtherKind (script n : Node) : Prop :=
  n.marks.hidden = false ∧
    (script.marks.subscript = true ∧ n.marks.superscript = true ∨
      script.marks.subscript = false ∧ n.marks.subscript = true)

/-- The partner of a script among the nodes behind it, and what is left behind both. -/
inductive Partner (script : Node) : List Node → Option Node → List Node → Prop
  | pair {n rest} (other : OtherKind script n) : Partner script (n :: rest) (some n) rest
  | alone {rest} (unpaired : ∀ n ∈ rest.head?, ¬ OtherKind script n) : Partner script rest none rest

/-- Whether a cluster is the nearest one in a row that is written, and no break: `left` is what
stands before it, and `gap` what is between it and the end of the row. -/
structure Nearest (row left : List Place) (c : Cluster) (gap : List Place) : Prop where
  row_eq : row = left ++ some c :: gap
  hidden : ∀ p ∈ gap, p.node.marks.hidden = true
  base : IsBase c.node

/-- Whether there is no base at the end of a row: nothing is written, or the nearest thing that is
ends a cell or a row. -/
def Baseless (row : List Place) : Prop :=
  (∀ p ∈ row, p.node.marks.hidden = true) ∨
    ∃ left p gap, row = left ++ p :: gap ∧ (∀ p ∈ gap, p.node.marks.hidden = true) ∧
      p.node.marks.hidden = false ∧ p.node.marks.isBreak = true

/-- Places that have become free. -/
def freed (partner : Option Node) : List Place :=
  partner.toList.map fun _ => none

/-- How a row is put together from left to right: the row as it is so far, the nodes that are still
to come, and the row in the end. -/
inductive Clusters : List Place → List Node → List Place → Prop
  | done {row} : Clusters row [] row
  | keep {row n rest final} (plain : isPendingScript n = false)
    (more : Clusters (row ++ [some (.single n)]) rest final) : Clusters row (n :: rest) final
  | attach {row left c gap n rest partner after final} (script : isPendingScript n = true)
    (pair : Partner n rest partner after) (nearest : Nearest row left c gap)
    (more : Clusters (left ++ some (.attached c n partner) :: (gap ++ none :: freed partner))
      after final) : Clusters row (n :: rest) final
  | bare {row n rest partner after final} (script : isPendingScript n = true)
    (pair : Partner n rest partner after) (baseless : Baseless row)
    (more : Clusters (row ++ some (.attached .blank n partner) :: freed partner) after final) :
    Clusters row (n :: rest) final

variable {n script : Node} {nodes before rest after between beyond : List Node}
  {partner : Option Node} {c : Cluster} {row left gap final : List Place}

theorem isPartner_iff : isPartner script n = true ↔ OtherKind script n := by
  unfold isPartner OtherKind
  cases script.marks.subscript <;> simp

/-! ### The base -/

/-- A base is looked for behind what is not written. -/
theorem base?_append_of_hidden (hidden : ∀ n ∈ between, n.marks.hidden = true)
    (beyond : List Node) : base? (between ++ beyond) =
      (base? beyond).map fun b => { b with between := between ++ b.between } := by
  induction between with
  | nil => cases found : base? beyond <;> simp [found]
  | cons m between ih =>
    obtain ⟨here, later⟩ := List.forall_mem_cons.mp hidden
    rw [List.cons_append, base?, if_pos here, ih later, Option.map_map]
    rfl

theorem base?_of_nearest (hidden : ∀ n ∈ between, n.marks.hidden = true) (base : IsBase n) :
    base? (between ++ n :: beyond) = some ⟨between, n, beyond⟩ := by
  rw [base?_append_of_hidden hidden]
  simp [base?, base.1, base.2]

theorem base?_of_break (hidden : ∀ n ∈ between, n.marks.hidden = true)
    (shown : n.marks.hidden = false) (ends : n.marks.isBreak = true) :
    base? (between ++ n :: beyond) = none := by
  rw [base?_append_of_hidden hidden]
  simp [base?, shown, ends]

theorem base?_of_hidden (hidden : ∀ n ∈ nodes, n.marks.hidden = true) : base? nodes = none := by
  have found := base?_append_of_hidden hidden []
  rwa [List.append_nil] at found

/-- The nodes of a row, listed from right to left. -/
def backwards (row : List Place) : List Node :=
  (row.map Place.node).reverse

theorem hidden_backwards (hidden : ∀ p ∈ gap, p.node.marks.hidden = true) :
    ∀ n ∈ backwards gap, n.marks.hidden = true := by
  intro n member
  obtain ⟨p, inside, rfl⟩ := List.mem_map.mp (List.mem_reverse.mp member)
  exact hidden p inside

theorem backwards_append (row gap : List Place) :
    backwards (row ++ gap) = backwards gap ++ backwards row := by
  rw [backwards, List.map_append, List.reverse_append]
  rfl

theorem backwards_cons (p : Place) (gap : List Place) :
    backwards (p :: gap) = backwards gap ++ [p.node] := by
  rw [backwards, List.map_cons, List.reverse_cons]
  rfl

theorem backwards_freed (partner : Option Node) :
    backwards (freed partner) = partner.toList.map fun _ => .placeholder := by
  cases partner <;> rfl

/-- A row has a nearest cluster for a script, or it has no base. -/
theorem nearest_or_baseless (row : List Place) :
    (∃ left c gap, Nearest row left c gap) ∨ Baseless row := by
  induction row using List.reverseRecOn with
  | nil => exact .inr (.inl (List.forall_mem_nil _))
  | append_singleton row p ih =>
    have alone : ∀ q ∈ ([] : List Place), q.node.marks.hidden = true := List.forall_mem_nil _
    cases hidden : p.node.marks.hidden with
    | true =>
      have last : ∀ q ∈ [p], q.node.marks.hidden = true := List.forall_mem_singleton.mpr hidden
      rcases ih with ⟨left, c, gap, rfl, between, base⟩ | all | ⟨left, q, gap, rfl, between, ends⟩
      · refine .inl ⟨left, c, gap ++ [p], by simp, ?_, base⟩
        exact List.forall_mem_append.mpr ⟨between, last⟩
      · exact .inr (.inl (List.forall_mem_append.mpr ⟨all, last⟩))
      · refine .inr (.inr ⟨left, q, gap ++ [p], by simp, ?_, ends⟩)
        exact List.forall_mem_append.mpr ⟨between, last⟩
    | false =>
      cases ends : p.node.marks.isBreak with
      | true => exact .inr (.inr ⟨row, p, [], rfl, alone, hidden, ends⟩)
      | false =>
        cases p with
        | none => cases hidden
        | some c => exact .inl ⟨row, c, [], rfl, alone, hidden, ends⟩

/-! ### The pass follows the rule -/

theorem attachScriptsFrom_plain (plain : isPendingScript n = false) :
    attachScriptsFrom before (n :: rest) = attachScriptsFrom (n :: before) rest := by
  cases rest with
  | nil => simp [attachScriptsFrom, plain]
  | cons next rest => simp [attachScriptsFrom, plain]

/-- A script goes to its base with its partner, if it has one. -/
theorem attachScriptsFrom_script (pending : isPendingScript n = true)
    (pair : Partner n rest partner after) :
    attachScriptsFrom before (n :: rest) = attachScriptsFrom
      (placeScripts before n partner (partner.toList.map fun _ => .placeholder)) after := by
  cases pair with
  | @pair next _ other => simp [attachScriptsFrom, pending, isPartner_iff.mpr other]
  | alone unpaired =>
    cases rest with
    | nil => simp [attachScriptsFrom, pending]
    | cons next rest =>
      have other : isPartner n next = false :=
        Bool.eq_false_iff.mpr fun pair => unpaired next rfl (isPartner_iff.mp pair)
      simp [attachScriptsFrom, pending, other]

theorem exists_partner (script : Node) (rest : List Node) :
    ∃ partner after, Partner script rest partner after := by
  cases rest with
  | nil => exact ⟨none, [], .alone (by simp)⟩
  | cons n rest =>
    by_cases other : OtherKind script n
    · exact ⟨some n, rest, .pair other⟩
    · refine ⟨none, n :: rest, .alone ?_⟩
      rintro _ ⟨⟩
      exact other

/-- Whatever the rule makes of a row, the pass makes of it. -/
theorem attachScriptsFrom_of_clusters (clusters : Clusters row nodes final) :
    attachScriptsFrom (backwards row) nodes = final.map Place.node := by
  induction clusters with
  | done => rw [attachScriptsFrom, backwards, List.reverse_reverse]
  | @keep row n rest final plain _ ih =>
    rw [attachScriptsFrom_plain plain, ← ih, backwards_append]
    rfl
  | @attach row left c gap n rest partner after final script pair nearest _ ih =>
    obtain ⟨rfl, hidden, base⟩ := nearest
    have split : backwards (left ++ some c :: gap) =
        backwards gap ++ c.node :: backwards left := by
      simp [backwards_append, backwards_cons, Place.node]
    rw [attachScriptsFrom_script script pair, ← ih]
    congr 1
    rw [placeScripts, split, base?_of_nearest (hidden_backwards hidden) base]
    simp [backwards_append, backwards_cons, backwards_freed, Base.replace, Place.node, Cluster.node]
  | @bare row n rest partner after final script pair baseless _ ih =>
    have found : base? (backwards row) = none := by
      rcases baseless with hidden | ⟨left, p, gap, rfl, hidden, shown, ends⟩
      · exact base?_of_hidden (hidden_backwards hidden)
      · rw [backwards_append, backwards_cons, List.append_assoc]
        exact base?_of_break (hidden_backwards hidden) shown ends
    rw [attachScriptsFrom_script script pair, ← ih]
    congr 1
    rw [placeScripts, found]
    simp [backwards_append, backwards_cons, backwards_freed, Place.node, Cluster.node]

theorem Partner.nodes_eq (pair : Partner script rest partner after) :
    rest = partner.toList ++ after := by
  cases pair <;> rfl

theorem Partner.suffix (pair : Partner script rest partner after) : after <:+ rest :=
  ⟨_, pair.nodes_eq.symm⟩

/-- A row consists of scripts with their partners and of other nodes. -/
theorem script_induction {P : List Node → Prop} (nil : P [])
    (plain : ∀ n rest, isPendingScript n = false → P rest → P (n :: rest))
    (script : ∀ n rest partner after, isPendingScript n = true → Partner n rest partner after →
      P after → P (n :: rest)) : ∀ nodes : List Node, P nodes
  | [] => nil
  | n :: rest => by
    cases pending : isPendingScript n with
    | false => exact plain n rest pending (script_induction nil plain script rest)
    | true =>
      obtain ⟨partner, after, pair⟩ := exists_partner n rest
      have shorter := pair.suffix.length_le
      exact script n rest partner after pending pair (script_induction nil plain script after)
termination_by nodes => nodes.length

/-- The pass starts anew behind a place, with what it has made so far, if no script in front of the
place takes a partner from behind it. -/
theorem attachScriptsFrom_append_of_partners (before front rest : List Node)
    (stays : ∀ n later partner after, n :: later <:+ front → isPendingScript n = true →
      Partner n later partner after → Partner n (later ++ rest) partner (after ++ rest)) :
    attachScriptsFrom before (front ++ rest) =
      attachScriptsFrom (attachScriptsFrom before front).reverse rest := by
  induction front using script_induction generalizing before with
  | nil => rw [attachScriptsFrom, List.reverse_reverse]; rfl
  | plain n front pending ih =>
    rw [List.cons_append, attachScriptsFrom_plain pending, attachScriptsFrom_plain pending]
    exact ih _ fun m later partner after suffix =>
      stays m later partner after (suffix.trans (List.suffix_cons n front))
  | script n front partner after pending pair ih =>
    have together := stays n front partner after List.suffix_rfl pending pair
    rw [List.cons_append, attachScriptsFrom_script pending together,
      attachScriptsFrom_script pending pair]
    exact ih _ fun m later partner' after' suffix =>
      stays m later partner' after' (suffix.trans (pair.suffix.trans (List.suffix_cons n front)))

/-- The rule never gets stuck. -/
theorem exists_clusters (row : List Place) (nodes : List Node) :
    ∃ final, Clusters row nodes final := by
  induction nodes using script_induction generalizing row with
  | nil => exact ⟨row, .done⟩
  | plain n rest pending ih =>
    obtain ⟨final, more⟩ := ih (row ++ [some (.single n)])
    exact ⟨final, .keep pending more⟩
  | script n rest partner after pending pair ih =>
    rcases nearest_or_baseless row with ⟨left, c, gap, nearest⟩ | baseless
    · obtain ⟨final, more⟩ :=
        ih (left ++ some (.attached c n partner) :: (gap ++ none :: freed partner))
      exact ⟨final, .attach pending pair nearest more⟩
    · obtain ⟨final, more⟩ := ih (row ++ some (.attached .blank n partner) :: freed partner)
      exact ⟨final, .bare pending pair baseless more⟩

end TexFormula.Row
