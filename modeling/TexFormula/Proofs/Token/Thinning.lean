import TexFormula.Proofs.Expr.Alike
import TexFormula.Proofs.Token.Partners

/-! Preparation without comments. Where comments are missing the positions of tokens move, and with
them the offsets; but each pass of the pairing finds the same links between tokens that are in other
places now. So a list that is prepared without some of its comments is cut into expressions as
before, or it cannot be prepared with them either (`Thins.prepare`). -/
namespace TexFormula
open Queue Token Pairing

/-- A list and another one with the tokens that a pattern leaves of it. -/
inductive Sieved (D : Difference) (ends : Prop) (R : Token → Token → Prop) :
    List Bool → List Token → List Token → Prop
  | nil : Sieved D ends R [] [] []
  | drop {p c l l'} (allowed : D.comments) (comment : c.kind = { comment := true })
    (gap : Gap ends l) (more : Sieved D ends R p l l') : Sieved D ends R (false :: p) (c :: l) l'
  | keep {p t t' l l'} (alike : R t t') (more : Sieved D ends R p l l') :
    Sieved D ends R (true :: p) (t :: l) (t' :: l')

/-- How many of the first positions a pattern leaves. This is where the next position comes to. -/
def shift (p : List Bool) (i : Nat) : Nat :=
  (p.take i).count true

/-- A link between the places that its ends come to. -/
def Pairing.Link.moved (place : Nat → Nat) (l : Link) : Link :=
  ⟨place l.opener, place l.closer⟩

/-- Positions from `i` on are counted as a pattern says. -/
def Counts (place : Nat → Nat) : Nat → List Bool → Prop
  | _, [] => True
  | i, kept :: p => place (i + 1) = place i + kept.toNat ∧ Counts place (i + 1) p

/-- The places of two delimiters that are left, and where they come to. A delimiter that waits for
its partner has it inside the list, at the place that the partner comes to, or outside of the list
in both readings. -/
inductive Partners (p : List Bool) (l l' : List Token) (t t' : Token) : Prop
  | none (one : t.offset ≤ 0) (other : t'.offset ≤ 0)
  | inside {n : Nat} {u : Token} (kept : p[n]? = some true) (found : l[n]? = some u)
    (closes : u.kind.closes = true) (one : t.offset = n + 1) (other : t'.offset = shift p n + 1)
  | outside (one : l.length < t.offset) (other : l'.length < t'.offset)

/-- A list and another one with the tokens that a pattern leaves of it, in which delimiters have the
same partners. -/
inductive Coupled (D : Difference) (ends : Prop) : List Bool → List Token → List Token → Prop
  | nil : Coupled D ends [] [] []
  | drop {p c l l'} (allowed : D.comments) (comment : c.kind = { comment := true })
    (gap : Gap ends l) (more : Coupled D ends p l l') : Coupled D ends (false :: p) (c :: l) l'
  | keep {p t t' l l'} (marks : SameMarks D t t') (alone : t.offset = 0 ↔ t'.offset = 0)
    (partners : Partners p l l' t t') (more : Coupled D ends p l l') :
    Coupled D ends (true :: p) (t :: l) (t' :: l')

/-- Both ends of a link are left. -/
def Kept (p : List Bool) (links : List Link) : Prop :=
  ∀ l ∈ links, p[l.opener]? = some true ∧ p[l.closer]? = some true

variable {D : Difference} {ends : Prop} {R S : Token → Token → Prop} {p : List Bool} {i j k : Nat}
  {t t' : Token} {l l' m m' : List Token} {place : Nat → Nat} {waiting : List (Nat × Bracket)}
  {links : List Link}

/-! ### Positions -/

@[simp] theorem shift_zero : shift p 0 = 0 := rfl

@[simp] theorem shift_cons (kept : Bool) : shift (kept :: p) (i + 1) = kept.toNat + shift p i := by
  cases kept <;> simp [shift, Nat.add_comm]

theorem shift_le (before : i ≤ j) : shift p i ≤ shift p j :=
  (List.take_prefix_take_left before).sublist.count_le true

theorem shift_succ (kept : p[i]? = some true) : shift p (i + 1) = shift p i + 1 := by
  rw [shift, List.take_add_one, kept, List.count_append]
  rfl

/-- A position that is left comes before all that were behind it. -/
theorem shift_lt (kept : p[i]? = some true) (before : i < j) : shift p i < shift p j :=
  Nat.lt_of_lt_of_le (by rw [shift_succ kept]; exact Nat.lt_succ_self _) (shift_le before)

theorem eq_of_shift_eq (left : p[i]? = some true) (right : p[j]? = some true)
    (same : shift p i = shift p j) : i = j := by
  rcases Nat.lt_trichotomy i j with before | equal | behind
  · exact absurd same (Nat.ne_of_lt (shift_lt left before))
  · exact equal
  · exact absurd same.symm (Nat.ne_of_lt (shift_lt right behind))

theorem counts_shift (p : List Bool) : Counts (shift p) 0 p := by
  have behind : ∀ (front p : List Bool), Counts (shift (front ++ p)) front.length p := by
    intro front p
    induction p generalizing front with
    | nil => trivial
    | cons kept p ih =>
      refine ⟨?_, ?_⟩
      · simp only [shift]
        rw [List.take_left, List.take_add_one, List.take_left, List.count_append]
        cases kept <;> simp
      · have later := ih (front ++ [kept])
        rwa [List.append_assoc, List.length_append] at later
  exact behind [] p

/-! ### Patterns -/

theorem Thins.sieved (thins : Thins D ends l l') :
    ∃ p, Sieved D ends (SameMarks D) p l l' := by
  induction thins with
  | nil => exact ⟨[], .nil⟩
  | drop allowed comment gap _ ih =>
    obtain ⟨p, sieved⟩ := ih
    exact ⟨_, .drop allowed comment gap sieved⟩
  | keep alike _ ih =>
    obtain ⟨p, sieved⟩ := ih
    exact ⟨_, .keep alike.toSameMarks sieved⟩

namespace Sieved

theorem of_map_unpaired (sieved : Sieved D ends (SameMarks D) p l l')
    (one : m.map unpaired = l.map unpaired) (other : m'.map unpaired = l'.map unpaired) :
    Sieved D ends (SameMarks D) p m m' := by
  induction sieved generalizing m m' with
  | nil =>
    rw [List.map_nil, List.map_eq_nil_iff] at one other
    rw [one, other]
    exact .nil
  | drop allowed comment gap _ ih =>
    obtain ⟨c, rest, rfl, same, later⟩ := List.map_eq_cons_iff.mp one
    refine .drop allowed ?_ ?_ (ih later other)
    · rw [← kind_unpaired c, same, kind_unpaired, comment]
    · cases rest with
      | nil =>
        cases List.map_eq_nil_iff.mp later.symm
        exact gap
      | cons u rest =>
        obtain ⟨v, _, rfl, kind, _⟩ := List.map_eq_cons_iff.mp later.symm
        exact gap.cons (by rw [← kind_unpaired u, ← kind, kind_unpaired])
  | keep alike _ ih =>
    obtain ⟨t, rest, rfl, same, later⟩ := List.map_eq_cons_iff.mp one
    obtain ⟨t', rest', rfl, same', later'⟩ := List.map_eq_cons_iff.mp other
    refine .keep ⟨D.lasts.unpaired same.symm alike.holds, ?_⟩ (ih later later')
    rw [same, same', alike.same]

/-- Only comments are left out. -/
theorem kept (sieved : Sieved D ends R p l l') (found : l[i]? = some t)
    (heard : t.kind ≠ { comment := true }) : p[i]? = some true := by
  induction sieved generalizing i with
  | nil => cases found
  | drop _ comment _ _ ih =>
    cases i with
    | zero =>
      cases found
      exact absurd comment heard
    | succ i => exact ih found
  | keep _ _ ih =>
    cases i with
    | zero => rfl
    | succ i => exact ih found

/-- What holds of every token and the token in its place holds of the pattern as well. -/
theorem strengthen (sieved : Sieved D ends R p l l')
    (each : ∀ i t t', p[i]? = some true → l[i]? = some t → l'[shift p i]? = some t' → S t t') :
    Sieved D ends (fun t t' => R t t' ∧ S t t') p l l' := by
  induction sieved with
  | nil => exact .nil
  | drop allowed comment gap _ ih =>
    refine .drop allowed comment gap (ih fun i t t' kept one other => ?_)
    exact each (i + 1) t t' kept one (by simpa using other)
  | keep alike _ ih =>
    refine .keep ⟨alike, each 0 _ _ rfl rfl rfl⟩ (ih fun i t t' kept one other => ?_)
    exact each (i + 1) t t' kept one (by rw [shift_cons, Nat.add_comm]; exact other)

/-! ### Links -/

/-- The delimiters of a family are read in their new places as before. -/
theorem reads {f : Family} (sieved : Sieved D ends (SameMarks D) p l l') (counts : Counts place i p)
    (reads : Reads f.mark? i waiting l links) :
    Reads f.mark? (place i) (waiting.map (Prod.map place id)) l' (links.map (·.moved place)) := by
  induction sieved generalizing i waiting links with
  | nil =>
    cases reads
    exact .done
  | @drop _ c _ _ _ comment _ _ ih =>
    obtain ⟨next, counts⟩ := counts
    have deaf : f.mark? c = none := by cases f <;> simp [Family.mark?, Family.has, comment]
    have later := ih counts ((reads_of_none deaf).mp reads)
    rwa [next] at later
  | @keep p t t' l l' alike _ ih =>
    obtain ⟨next, counts⟩ := counts
    have marked : f.mark? t' = f.mark? t :=
      (alike.eq_of_blind fun t => (f.mark?_unpaired t).symm).symm
    have next : place (i + 1) = place i + 1 := next
    cases reads with
    | pass plain more => exact .pass (marked.trans plain) (next ▸ ih counts more)
    | push opens more => exact .push (marked.trans opens) (next ▸ ih counts more)
    | join closes more => exact .join (marked.trans closes) (next ▸ ih counts more)

/-- Delimiters that have no partner yet are paired in their new places as before. -/
theorem looseLinks {waiting waiting' : Waiting}
    (sieved : Sieved D ends (fun t t' => SameMarks D t t' ∧ (t.offset = 0 ↔ t'.offset = 0)) p l l')
    (counts : Counts place i p)
    (waits : List.Forall₂ (fun w w' => w'.1 = place w.1 ∧ SameMarks D w.2 w'.2) waiting waiting') :
    looseLinks (place i) waiting' l' = (looseLinks i waiting l).map (·.moved place) := by
  induction sieved generalizing i waiting waiting' with
  | nil => rfl
  | @drop p c l l' _ comment _ _ ih =>
    obtain ⟨next, counts⟩ := counts
    have passed : Pairing.looseLinks i waiting (c :: l) = Pairing.looseLinks (i + 1) waiting l := by
      simp [Pairing.looseLinks, comment]
    have next : place (i + 1) = place i := next
    rw [passed, ← ih counts waits, next]
  | @keep p t t' l l' alike _ ih =>
    obtain ⟨next, counts⟩ := counts
    have next : place i + 1 = place (i + 1) := next.symm
    obtain ⟨marks, alone⟩ := alike
    have alone : (t'.offset != 0) = (t.offset != 0) := by
      rw [Bool.eq_iff_iff]
      simpa using not_congr alone.symm
    have kind : t'.kind = t.kind := marks.kind.symm
    have value : t'.value = t.value := marks.value.symm
    simp only [Pairing.looseLinks, alone, kind, next]
    split
    · exact ih counts waits
    · split
      · exact ih counts (.cons ⟨rfl, marks⟩ waits)
      · split
        · exact ih counts waits
        · cases waits with
          | nil => exact ih counts .nil
          | @cons w w' below below' top others =>
            obtain ⟨position, opener⟩ := w
            obtain ⟨position', opener'⟩ := w'
            obtain ⟨rfl, same⟩ := top
            have same : SameMarks D opener opener' := same
            have pairs : Pairing.pairsLoosely opener' t' = Pairing.pairsLoosely opener t := by
              simp only [Pairing.pairsLoosely, kind, value, same.kind, same.value]
            simp only [pairs]
            cases Pairing.pairsLoosely opener t with
            | true => exact congrArg _ (ih counts others)
            | false => exact ih counts (.cons ⟨rfl, same⟩ others)

end Sieved

/-! ### Offsets -/

/-- A token has a partner in both readings or in none. -/
theorem alone_of_linked (linked : Linked l links)
    (linked' : Linked l' (links.map (·.moved (shift p)))) (kept : Kept p links)
    (here : p[i]? = some true) (one : l[i]? = some t) (other : l'[shift p i]? = some t') :
    t.offset = 0 ↔ t'.offset = 0 := by
  constructor
  · intro alone
    by_contra paired
    obtain ⟨moved, image, ends⟩ := linked'.only _ _ other paired
    obtain ⟨link, member, rfl⟩ := List.mem_map.mp image
    obtain ⟨opener, closer⟩ := kept link member
    refine linked.offset_ne_zero member one (ends.imp ?_ ?_) alone
    · exact fun same => eq_of_shift_eq opener here same
    · exact fun same => eq_of_shift_eq closer here same
  · intro alone
    by_contra paired
    obtain ⟨link, member, ends⟩ := linked.only _ _ one paired
    refine linked'.offset_ne_zero (List.mem_map_of_mem member) other (ends.imp ?_ ?_) alone
    · exact fun same => congrArg (shift p) same
    · exact fun same => congrArg (shift p) same

/-- Where a token that has its partner behind it stands, and where its partner does. -/
theorem partner_of_linked_moved (linked : Linked l links)
    (linked' : Linked l' (links.map (·.moved (shift p)))) (kept : Kept p links)
    (here : p[i]? = some true) (one : l[i]? = some t) (other : l'[shift p i]? = some t') :
    t.offset ≤ 0 ∧ t'.offset ≤ 0 ∨ ∃ link ∈ links, link.opener = i ∧
      t.offset = link.closer - i ∧ t'.offset = shift p link.closer - shift p i := by
  by_cases alone : t.offset = 0
  · have alone' := (alone_of_linked linked linked' kept here one other).mp alone
    exact .inl ⟨by omega, by omega⟩
  · obtain ⟨link, member, ends⟩ := linked.only _ _ one alone
    have moved : link.moved (shift p) ∈ links.map (·.moved (shift p)) := List.mem_map_of_mem member
    have forward := linked.forward link member
    rcases ends with rfl | rfl
    · obtain ⟨o, atOpener, offset⟩ := linked.opener link member
      obtain ⟨o', atOpener', offset'⟩ := linked'.opener _ moved
      cases one.symm.trans atOpener
      cases other.symm.trans atOpener'
      exact .inr ⟨link, member, rfl, offset, offset'⟩
    · obtain ⟨c, atCloser, offset⟩ := linked.closer link member
      obtain ⟨c', atCloser', offset'⟩ := linked'.closer _ moved
      cases one.symm.trans atCloser
      cases other.symm.trans atCloser'
      have before := shift_lt (kept link member).1 forward
      simp only [Link.moved] at offset'
      exact .inl ⟨by omega, by omega⟩

/-- Lists with the same links are coupled. -/
theorem Sieved.coupled (sieved : Sieved D ends (SameMarks D) p l l')
    (alone : ∀ i t t', p[i]? = some true → l[i]? = some t → l'[shift p i]? = some t' →
      (t.offset = 0 ↔ t'.offset = 0))
    (partner : ∀ i t t', p[i]? = some true → l[i]? = some t → l'[shift p i]? = some t' →
      t.offset ≤ 0 ∧ t'.offset ≤ 0 ∨ ∃ j u, i < j ∧ p[j]? = some true ∧ l[j]? = some u ∧
        u.kind.closes = true ∧ t.offset = (j : Int) - i ∧
        t'.offset = (shift p j : Int) - shift p i) : Coupled D ends p l l' := by
  induction sieved with
  | nil => exact .nil
  | drop allowed comment gap _ ih =>
    refine .drop allowed comment gap (ih ?_ ?_)
    · exact fun i t t' kept one other => alone (i + 1) t t' kept one (by simpa using other)
    · intro i t t' kept one other
      refine (partner (i + 1) t t' kept one (by simpa using other)).imp_right ?_
      rintro ⟨j, u, before, closer, found, closes, offset, offset'⟩
      obtain ⟨j, rfl⟩ := Nat.exists_eq_succ_of_ne_zero (Nat.ne_zero_of_lt before)
      simp only [Nat.succ_eq_add_one, shift_cons] at offset offset'
      exact ⟨j, u, by omega, closer, found, closes, by omega, by simpa using offset'⟩
  | @keep p t t' l l' alike _ ih =>
    have later : ∀ {i : Nat} {u : Token}, l'[shift p i]? = some u →
        (t' :: l')[shift (true :: p) (i + 1)]? = some u := by
      intro i u other
      rwa [shift_cons, Bool.toNat_true, Nat.add_comm, List.getElem?_cons_succ]
    refine .keep alike (alone 0 t t' rfl rfl rfl) ?_ (ih ?_ ?_)
    · rcases partner 0 t t' rfl rfl rfl with ⟨one, other⟩ | ⟨j, u, before, kept, found, closes,
        offset, offset'⟩
      · exact .none one other
      · obtain ⟨j, rfl⟩ := Nat.exists_eq_succ_of_ne_zero (Nat.ne_zero_of_lt before)
        refine .inside kept found closes (by simpa using offset) ?_
        simp only [Nat.succ_eq_add_one, shift_cons, shift_zero, Bool.toNat_true] at offset'
        omega
    · exact fun i u u' kept one other => alone (i + 1) u u' kept one (later other)
    · intro i u u' kept one other
      refine (partner (i + 1) u u' kept one (later other)).imp_right ?_
      rintro ⟨j, v, before, closer, found, closes, offset, offset'⟩
      obtain ⟨j, rfl⟩ := Nat.exists_eq_succ_of_ne_zero (Nat.ne_zero_of_lt before)
      simp only [Nat.succ_eq_add_one, shift_cons, Bool.toNat_true] at offset offset'
      exact ⟨j, v, by omega, closer, found, closes, by omega, by omega⟩

/-! ### Pieces -/

namespace Coupled

theorem length (coupled : Coupled D ends p l l') :
    p.length = l.length ∧ shift p p.length = l'.length := by
  induction coupled with
  | nil => exact ⟨rfl, rfl⟩
  | drop _ _ _ _ ih => simpa using ih
  | keep _ _ _ _ ih =>
    simp only [List.length_cons, shift_cons, Bool.toNat_true]
    omega

theorem drop_left (coupled : Coupled D ends p l l') (k : Nat) :
    Coupled D ends (p.drop k) (l.drop k) (l'.drop (shift p k)) := by
  induction coupled generalizing k with
  | nil => simpa using .nil
  | drop allowed comment gap more ih =>
    cases k with
    | zero => exact .drop allowed comment gap more
    | succ k => simpa using ih k
  | keep marks alone partners more ih =>
    cases k with
    | zero => exact .keep marks alone partners more
    | succ k =>
      rw [shift_cons, Bool.toNat_true, Nat.add_comm 1 (shift _ k)]
      exact ih k

/-- The front of a list, if no comment is missing at its end. -/
theorem take_left (coupled : Coupled D ends p l l') (k : Nat)
    (last : (p.take k).getLast? ≠ some false) :
    Coupled D False (p.take k) (l.take k) (l'.take (shift p k)) := by
  induction coupled generalizing k with
  | nil => simpa using .nil
  | @drop p c l l' allowed comment gap more ih =>
    cases k with
    | zero => exact .nil
    | succ k =>
      rw [List.take_succ_cons, List.getLast?_cons] at last
      rw [shift_cons, Bool.toNat_false, Nat.zero_add]
      refine .drop allowed comment ?_ (ih k fun atEnd => last (by rw [atEnd]; rfl))
      have some : p.take k ≠ [] := by
        intro none
        rw [none] at last
        exact last rfl
      cases more with
      | nil => simp at some
      | drop | keep =>
        cases k with
        | zero => simp at some
        | succ k => exact gap
  | @keep p t t' l l' marks alone partners more ih =>
    cases k with
    | zero => exact .nil
    | succ k =>
      rw [List.take_succ_cons, List.getLast?_cons] at last
      rw [shift_cons, Bool.toNat_true, Nat.add_comm 1 (shift _ k)]
      refine .keep marks alone ?_ (ih k fun atEnd => last (by rw [atEnd]; rfl))
      cases partners with
      | none one other => exact .none one other
      | @inside n u kept found closes one other =>
        by_cases before : n < k
        · have same : shift (p.take k) n = shift p n := by
            rw [shift, shift, List.take_take, Nat.min_eq_left (Nat.le_of_lt before)]
          refine .inside (n := n) (u := u) ?_ ?_ closes one (same ▸ other)
          · rwa [List.getElem?_take_of_lt before]
          · rwa [List.getElem?_take_of_lt before]
        · have behind := shift_le (p := p) (Nat.le_of_not_lt before)
          refine .outside ?_ ?_ <;> rw [List.length_take] <;> omega
      | outside one other => refine .outside ?_ ?_ <;> rw [List.length_take] <;> omega

/-- A blank comes behind a comment that is missing. -/
theorem blank_behind (coupled : Coupled D ends p l l') (missing : p[i]? = some false)
    (next : l[i + 1]? = some t) : t.kind = { whitespace := true } := by
  induction coupled generalizing i with
  | nil => simp at missing
  | @drop p c l l' _ _ gap more ih =>
    cases i with
    | zero =>
      cases l with
      | nil => simp at next
      | cons u l =>
        simp only [List.getElem?_cons_succ, List.getElem?_cons_zero, Option.some.injEq] at next
        exact next ▸ gap
    | succ i => exact ih missing next
  | keep _ _ _ _ ih =>
    cases i with
    | zero => cases missing
    | succ i => exact ih missing next

/-- The expression of a delimiter reaches to its partner in both readings. -/
theorem reach_cases (length : p.length = l.length) (marks : SameMarks D t t')
    (partners : Partners p l l' t t') (length' : shift p p.length = l'.length) :
    (reach t l).1 = (reach t' l').1 ∧ ((reach t l).2 = 0 ∧ (reach t' l').2 = 0 ∨
      ∃ n u, p[n]? = some true ∧ l[n]? = some u ∧ u.kind.closes = true ∧
        (reach t l).2 = n + 1 ∧ (reach t' l').2 = shift p n + 1) := by
  have blank : t'.isBlank = t.isBlank := marks.isBlank.symm
  have shape : compositeKind? t' = compositeKind? t :=
    (marks.eq_of_blind (f := compositeKind?) fun _ => rfl).symm
  unfold reach
  rw [blank]
  split
  · exact ⟨rfl, .inl ⟨rfl, rfl⟩⟩
  · unfold composite?
    rw [shape]
    cases partners with
    | none one other =>
      rw [if_neg (by omega), if_neg (by omega)]
      exact ⟨rfl, .inl ⟨rfl, rfl⟩⟩
    | outside one other =>
      rw [if_neg (by omega), if_neg (by omega)]
      exact ⟨rfl, .inl ⟨rfl, rfl⟩⟩
    | @inside n u kept found closes one other =>
      have within := (List.getElem?_eq_some_iff.mp found).1
      have within' := shift_lt kept (by omega : n < p.length)
      rw [if_pos (by omega), if_pos (by omega)]
      cases compositeKind? t with
      | none => exact ⟨rfl, .inl ⟨rfl, rfl⟩⟩
      | some composite =>
        refine ⟨rfl, .inr ⟨n, u, kept, found, closes, ?_, ?_⟩⟩
        · simp only [Option.map_some, Option.getD_some]
          omega
        · simp only [Option.map_some, Option.getD_some]
          omega

/-- Coupled lists are cut in the same places. -/
theorem aligned {ends : Prop} {p : List Bool} {l l' : List Token} (coupled : Coupled D ends p l l')
    (allowed : D.comments) : Aligned D ends l l' := by
  match p, l, l', coupled with
  | _, _, _, .nil => exact .nil
  | _, _, _, .drop allowed comment gap more =>
    exact .drop allowed comment gap (more.aligned allowed)
  | _, _, _, @Coupled.keep _ _ p t t' l l' marks alone partners more =>
    obtain ⟨length, length'⟩ := more.length
    have alike : Token.Alike D t t' := ⟨marks, alone, .inl allowed⟩
    obtain ⟨kind, ⟨one, other⟩ | ⟨n, u, kept, found, closes, one, other⟩⟩ :=
      reach_cases length marks partners length'
    · have behind := more.aligned allowed
      refine .keep alike kind ?_ ?_ ?_ behind <;> rw [one, other]
      · exact .nil
      · exact .nil
      · exact behind
    · have within := (List.getElem?_eq_some_iff.mp found).1
      have whole : (p.take (n + 1)).getLast? ≠ some false := by
        rw [List.take_add_one, kept, Option.toList_some, List.getLast?_concat]
        simp
      have before : (p.take n).getLast? ≠ some false := by
        intro missing
        cases n with
        | zero => simp at missing
        | succ n =>
          have inside : n < p.length := by omega
          rw [List.take_add_one, List.getElem?_eq_getElem inside, Option.toList_some,
            List.getLast?_concat] at missing
          rw [more.blank_behind ((List.getElem?_eq_getElem inside).trans missing) found] at closes
          cases closes
      have place := shift_succ kept
      have room := shift_lt kept (by omega : n < p.length)
      have inner := (more.take_left n before).aligned allowed
      have front : ∀ {list : List Token} {i : Nat}, i < list.length →
          (list.take (i + 1)).dropLast = list.take i := fun inside => by
        rw [List.take_succ_eq_append_getElem inside, List.dropLast_concat]
      refine .keep alike kind ?_ ?_ ?_ (more.aligned allowed) <;> rw [one, other]
      · rw [← place]
        exact (more.take_left (n + 1) whole).aligned allowed
      · rwa [front within, front (by omega)]
      · rw [← place]
        exact (more.drop_left (n + 1)).aligned allowed
termination_by l.length

end Coupled

/-! ### Preparation -/

/-- A comment goes together with everything. -/
theorem Thins.coherent (thins : Thins D ends l l') (allowed : D.comments) :
    ∀ t ∈ l, t.kind.Coherent := by
  induction thins with
  | nil => simp
  | drop _ comment _ _ ih =>
    exact List.forall_mem_cons.mpr ⟨by rw [comment]; exact ⟨by simp, by simp⟩, ih⟩
  | keep alike _ ih => exact List.forall_mem_cons.mpr ⟨D.coherent allowed _ alike.holds, ih⟩

/-- No end of a link is a comment, so all of them are left. -/
theorem Sieved.kept_links (sieved : Sieved D ends R p m m') (one : Preparation l m)
    (coherent : ∀ t ∈ l, t.kind.Coherent) :
    Kept p (one.environments ++ one.curlies ++ one.loose) := by
  intro link member
  have linked := one.linked_prepared coherent
  obtain ⟨o, atOpener, _⟩ := linked.opener link member
  obtain ⟨c, atCloser, _⟩ := linked.closer link member
  obtain ⟨opens, -, closes, -⟩ := one.faces coherent link member o c atOpener atCloser
  refine ⟨sieved.kept atOpener fun comment => ?_, sieved.kept atCloser fun comment => ?_⟩
  · simp [comment] at opens
  · simp [comment] at closes

section Preparation
variable (thins : Thins D ends l l') (allowed : D.comments)
include thins allowed

/-- Lists that go together are prepared to lists that are cut in the same places. -/
theorem Thins.prepared_aligned (one : Preparation l m) (other : Preparation l' m') :
    Aligned D ends m m' := by
  have coherent := thins.coherent allowed
  have coherent' : ∀ t ∈ l', t.kind.Coherent :=
    fun t member => D.coherent allowed t (thins.holds t member)
  have collapsed : Collapsed (Token.unlinked l) one.collapsed :=
    one.collapsed_eq ▸ collapsed_unlinked one.braces_found
  have collapsed' : Collapsed (Token.unlinked l') other.collapsed :=
    other.collapsed_eq ▸ collapsed_unlinked other.braces_found
  obtain ⟨out, again, thinned⟩ := thins.unlinked.collapsed collapsed
  cases collapsed'.unique again
  obtain ⟨p, sieved⟩ := thinned.sieved
  have prepared : Sieved D ends (SameMarks D) p m m' :=
    sieved.of_map_unpaired one.map_unpaired_prepared other.map_unpaired_prepared
  have nested : Sieved D ends (SameMarks D) p one.nested other.nested :=
    sieved.of_map_unpaired one.map_unpaired_nested other.map_unpaired_nested
  have strict : ∀ f, other.strict f = (one.strict f).map (·.moved (shift p)) := fun f =>
    (sieved.reads (counts_shift p) (one.reads_strict f rfl)).unique (other.reads_strict f rfl)
  have kept := prepared.kept_links one coherent
  have linked := one.linked_nested coherent
  have linked' := other.linked_nested coherent'
  rw [show other.environments = _ from strict .environment, show other.curlies = _ from
    strict .curly, ← List.map_append] at linked'
  have alone := fun i t t' => @alone_of_linked p i t t' one.nested other.nested _ linked linked'
    fun link member => kept link (List.mem_append_left _ member)
  have loose : other.loose = one.loose.map (·.moved (shift p)) :=
    (nested.strengthen alone).looseLinks (counts_shift p) .nil
  have linked := one.linked_prepared coherent
  have linked' := other.linked_prepared coherent'
  rw [show other.environments = _ from strict .environment, show other.curlies = _ from
    strict .curly, loose, ← List.map_append, ← List.map_append] at linked'
  refine (prepared.coupled (fun i t t' => alone_of_linked linked linked' kept) ?_).aligned allowed
  intro i t t' here left right
  refine (partner_of_linked_moved linked linked' kept here left right).imp_right ?_
  rintro ⟨link, member, rfl, offset, offset'⟩
  obtain ⟨o, atOpener, _⟩ := linked.opener link member
  obtain ⟨c, atCloser, _⟩ := linked.closer link member
  obtain ⟨-, -, closes, -⟩ := one.faces coherent link member o c atOpener atCloser
  exact ⟨link.closer, c, linked.forward link member, (kept link member).2, atCloser, closes,
    offset, offset'⟩

/-- A list can be prepared without some of its comments if it can be prepared with them. -/
theorem Thins.prepare_ok_iff : (∃ m, prepare l = .ok m) ↔ ∃ m', prepare l' = .ok m' := by
  have strict : ∀ {out out' : List Token}, Thins D ends out out' →
      wordOf strictMark? out = wordOf strictMark? out' := fun thinned =>
    thinned.filterMap_eq (fun t => (strictMark?_unpaired t).symm) fun t comment => by
      simp [strictMark?, comment]
  rw [prepare_ok_iff_nested (thins.coherent allowed), prepare_ok_iff_nested
    fun t member => D.coherent allowed t (thins.holds t member), thins.unlinked.wordOf_eq]
  refine and_congr_right fun braces => ⟨?_, ?_⟩
  · rintro ⟨out, collapsed, nested⟩
    obtain ⟨out', collapsed', thinned⟩ := thins.unlinked.collapsed collapsed
    exact ⟨out', collapsed', strict thinned ▸ nested⟩
  · rintro ⟨out', collapsed', nested⟩
    rw [← thins.unlinked.wordOf_eq] at braces
    obtain ⟨links, found⟩ := strictLinks_ok_iff_nested.mpr braces
    obtain ⟨out, again, thinned⟩ := thins.unlinked.collapsed (collapsed_unlinked found)
    cases collapsed'.unique again
    exact ⟨_, collapsed_unlinked found, (strict thinned).symm ▸ nested⟩

end Preparation

/-- What two readings come to where each of them can fail. Both succeed or both fail, for the same
reason; only the place of a bracket without its partner can be another one where comments are
missing. -/
inductive Outcome (D : Difference) {α β : Type} (R : α → β → Prop) :
    Except Error α → Except Error β → Prop
  | ok {a b} (related : R a b) : Outcome D R (.ok a) (.ok b)
  | error (e : Error) : Outcome D R (.error e) (.error e)
  | mismatched (allowed : D.comments) (b : Bracket) (i : Nat) (x : String) (b' : Bracket) (i' : Nat)
    (x' : String) : Outcome D R (.error (.mismatched b i x)) (.error (.mismatched b' i' x'))

/-- What the first reading comes to is known where the second one is compared with it. -/
theorem Outcome.known {α β : Type} {R : α → β → Prop} {one : Except Error α}
    {other : Except Error β} (outcome : Outcome D R one other) :
    Outcome D (fun a b => one = .ok a ∧ R a b) one other := by
  cases outcome with
  | ok related => exact .ok ⟨rfl, related⟩
  | error e => exact .error e
  | mismatched allowed b i x b' i' x' => exact .mismatched allowed b i x b' i' x'

theorem Outcome.bind {α β γ δ : Type} {R : α → β → Prop} {S : γ → δ → Prop}
    {one : Except Error α} {other : Except Error β} {f : α → Except Error γ}
    {g : β → Except Error δ} (first : Outcome D R one other)
    (second : ∀ a b, R a b → Outcome D S (f a) (g b)) : Outcome D S (one >>= f) (other >>= g) := by
  cases first with
  | ok related => exact second _ _ related
  | error e => exact .error e
  | mismatched allowed b i x b' i' x' => exact .mismatched allowed b i x b' i' x'

/-- The second reading is at its end, and the first one goes on. -/
theorem Outcome.bind_left {α β γ : Type} {R : α → β → Prop} {S : γ → β → Prop}
    {one : Except Error α} {other : Except Error β} {f : α → Except Error γ}
    (first : Outcome D R one other) (second : ∀ a b, R a b → Outcome D S (f a) (.ok b)) :
    Outcome D S (one >>= f) other := by
  rw [← bind_pure other]
  exact first.bind second

/-- Preparing goes the same way in both readings. -/
theorem Thins.prepare (thins : Thins D ends l l') :
    Outcome D (Aligned D ends) (prepare l) (prepare l') := by
  by_cases allowed : D.comments
  · have both := thins.prepare_ok_iff allowed
    cases one : Token.prepare l with
    | ok m =>
      obtain ⟨m', other⟩ := both.mp ⟨m, one⟩
      obtain ⟨p⟩ := prepare_eq_ok_iff.mp one
      obtain ⟨p'⟩ := prepare_eq_ok_iff.mp other
      rw [other]
      exact .ok (thins.prepared_aligned allowed p p')
    | error e =>
      cases other : Token.prepare l' with
      | ok m' =>
        obtain ⟨m, done⟩ := both.mpr ⟨m', other⟩
        cases one.symm.trans done
      | error e' =>
        obtain ⟨b, i, x, rfl⟩ := mismatched_of_prepare one
        obtain ⟨b', i', x', rfl⟩ := mismatched_of_prepare other
        exact .mismatched allowed b i x b' i' x'
  · have holds := thins.holds
    cases thins.eq allowed
    cases done : Token.prepare l with
    | ok m => exact .ok (.refl (D.lasts.prepare holds done))
    | error e => exact .error e

end TexFormula
