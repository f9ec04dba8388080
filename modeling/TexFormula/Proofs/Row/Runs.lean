import Mathlib.Algebra.Ring.Int.Defs
import Mathlib.Data.List.TakeWhile
import TexFormula.Command.Space
import TexFormula.Row

/-! Runs in a row. Two passes take nodes together that stand next to each other: spaces of fixed
width, and apostrophes. Placeholders do not part such nodes, so a run consists of nodes of the one
kind and of placeholders, and it ends where another node begins. What is taken together is said here
by `takeWhile` and `dropWhile`, and for spaces the pass is taken run by run (`joinSpaces_run`,
`run_induction`). -/
namespace TexFormula.Row

open Node

variable {n : Node} {nodes front others rest : List Node}

/-! ### Placeholders -/

/-- The nodes of a row that are no placeholders. -/
def occupied (nodes : List Node) : List Node :=
  nodes.filter (!·.isPlaceholder)

theorem hidden_of_isPlaceholder (free : n.isPlaceholder = true) : n.marks.hidden = true :=
  (Bool.and_eq_true_iff.mp free).2

theorem isPlaceholder_of_shown (shown : n.marks.hidden = false) : n.isPlaceholder = false := by
  simp [isPlaceholder, shown]

@[simp] theorem occupied_nil : occupied [] = [] := rfl

theorem occupied_append (nodes rest : List Node) :
    occupied (nodes ++ rest) = occupied nodes ++ occupied rest :=
  List.filter_append _ _

theorem occupied_free (free : n.isPlaceholder = true) (rest : List Node) :
    occupied (n :: rest) = occupied rest :=
  List.filter_cons_of_neg (by simp [free])

theorem occupied_cons (taken : n.isPlaceholder = false) (rest : List Node) :
    occupied (n :: rest) = n :: occupied rest :=
  List.filter_cons_of_pos (by simp [taken])

theorem occupied_reverse (nodes : List Node) :
    occupied nodes.reverse = (occupied nodes).reverse :=
  List.filter_reverse

theorem occupied_occupied (nodes : List Node) : occupied (occupied nodes) = occupied nodes := by
  simp [occupied]

theorem occupied_replicate (count : Nat) (rest : List Node) :
    occupied (List.replicate count .placeholder ++ rest) = occupied rest := by
  induction count with
  | zero => rfl
  | succ count ih => exact ih

/-- Where a run of nodes and placeholders ends does not depend on the placeholders. -/
theorem occupied_dropWhile {p : Node → Bool}
    (free : ∀ n : Node, n.isPlaceholder = true → p n = true) (nodes : List Node) :
    occupied (nodes.dropWhile p) = (occupied nodes).dropWhile p := by
  induction nodes with
  | nil => rfl
  | cons n rest ih =>
    cases placeholder : n.isPlaceholder with
    | true => rw [List.dropWhile_cons_of_pos (free n placeholder), ih, occupied_free placeholder]
    | false =>
      rw [occupied_cons placeholder]
      cases more : p n with
      | true => rw [List.dropWhile_cons_of_pos more, List.dropWhile_cons_of_pos more, ih]
      | false =>
        have stop : ¬ p n = true := by simp [more]
        rw [List.dropWhile_cons_of_neg stop, List.dropWhile_cons_of_neg stop,
          occupied_cons placeholder]

theorem occupied_takeWhile {p : Node → Bool}
    (free : ∀ n : Node, n.isPlaceholder = true → p n = true) (nodes : List Node) :
    occupied (nodes.takeWhile p) = (occupied nodes).takeWhile p := by
  induction nodes with
  | nil => rfl
  | cons n rest ih =>
    cases placeholder : n.isPlaceholder with
    | true =>
      rw [List.takeWhile_cons_of_pos (free n placeholder), occupied_free placeholder, ih,
        occupied_free placeholder]
    | false =>
      rw [occupied_cons placeholder]
      cases more : p n with
      | true =>
        rw [List.takeWhile_cons_of_pos more, List.takeWhile_cons_of_pos more,
          occupied_cons placeholder, ih]
      | false =>
        have stop : ¬ p n = true := by simp [more]
        rw [List.takeWhile_cons_of_neg stop, List.takeWhile_cons_of_neg stop]
        rfl

/-- What is taken from the front of a row does not depend on what stands behind a node that is not
taken. -/
theorem takeWhile_append_of_stop {p : Node → Bool} (stop : ∀ n ∈ rest.head?, p n = false)
    (front : List Node) : (front ++ rest).takeWhile p = front.takeWhile p ∧
      (front ++ rest).dropWhile p = front.dropWhile p ++ rest := by
  induction front with
  | nil =>
    cases rest with
    | nil => exact ⟨rfl, rfl⟩
    | cons n rest => simp [stop n rfl]
  | cons n front ih => cases more : p n <;> simp [more, ih]

/-! ### Spaces -/

/-- Whether a node is a space that can be joined with others. -/
def isFixedSpace (n : Node) : Bool :=
  (spaceWidth? n).isSome

/-- Whether a node continues a run of spaces. -/
def continuesSpaces (n : Node) : Bool :=
  n.isPlaceholder || isFixedSpace n

/-- The width of all spaces among some nodes. -/
def totalWidth (nodes : List Node) : Int :=
  (nodes.filterMap spaceWidth?).sum

/-- What is left of a node of a run after its first. -/
def vacate (n : Node) : Node :=
  if isFixedSpace n then .placeholder else n

/-- A space with another width. -/
def widen (n : Node) (width : Int) : Node :=
  n.setAttribute "width" (Length.ofEighteenths width)

/-- A run of spaces joined in the place of the first. -/
def joined (first : Node) (others : List Node) : List Node :=
  widen first (totalWidth (first :: others)) :: others.map vacate

theorem spaceWidth?_of_isPlaceholder (free : n.isPlaceholder = true) : spaceWidth? n = none := by
  have unnamed : n.tag = "" := by simpa using (Bool.and_eq_true_iff.mp free).1
  simp [spaceWidth?, unnamed]

theorem isFixedSpace_of_isPlaceholder (free : n.isPlaceholder = true) : isFixedSpace n = false := by
  rw [isFixedSpace, spaceWidth?_of_isPlaceholder free]
  rfl

theorem isPlaceholder_of_isFixedSpace (space : isFixedSpace n = true) : n.isPlaceholder = false :=
  Bool.eq_false_iff.mpr fun free =>
    Bool.eq_false_iff.mp (isFixedSpace_of_isPlaceholder free) space

theorem isFixedSpace_vacate (n : Node) : isFixedSpace (vacate n) = false := by
  unfold vacate
  cases space : isFixedSpace n
  · exact space
  · rfl

theorem absorbSpaces_eq (nodes : List Node) :
    absorbSpaces nodes = (totalWidth (nodes.takeWhile continuesSpaces),
      (nodes.takeWhile continuesSpaces).map vacate ++ nodes.dropWhile continuesSpaces) := by
  induction nodes with
  | nil => rfl
  | cons n rest ih =>
    unfold absorbSpaces
    split
    case isTrue free =>
      have other : isFixedSpace n = false := isFixedSpace_of_isPlaceholder free
      have more : continuesSpaces n = true := by simp [continuesSpaces, free]
      simp [ih, more, totalWidth, spaceWidth?_of_isPlaceholder free, vacate, other]
    case isFalse taken =>
      split
      case h_1 other =>
        have stop : continuesSpaces n = false := by
          simp [continuesSpaces, taken, isFixedSpace, other]
        simp [stop, totalWidth]
      case h_2 width space =>
        have more : continuesSpaces n = true := by simp [continuesSpaces, isFixedSpace, space]
        simp [ih, more, totalWidth, space, vacate, isFixedSpace]

theorem joinSpaces_other (other : isFixedSpace n = false) (rest : List Node) :
    joinSpaces (n :: rest) = n :: joinSpaces rest := by
  have none : spaceWidth? n = none := by simpa [isFixedSpace] using other
  rw [joinSpaces, none]

theorem joinSpaces_append_of_other (other : ∀ n ∈ front, isFixedSpace n = false)
    (rest : List Node) :
    joinSpaces (front ++ rest) = front ++ joinSpaces rest := by
  induction front with
  | nil => rfl
  | cons n front ih =>
    obtain ⟨here, later⟩ := List.forall_mem_cons.mp other
    rw [List.cons_append, joinSpaces_other here, ih later, List.cons_append]

/-- A space is joined with the rest of its run. -/
theorem joinSpaces_space (space : isFixedSpace n = true) (rest : List Node) :
    joinSpaces (n :: rest) =
      joined n (rest.takeWhile continuesSpaces) ++ joinSpaces (rest.dropWhile continuesSpaces) := by
  obtain ⟨width, found⟩ := Option.isSome_iff_exists.mp space
  have vacated : ∀ m ∈ (rest.takeWhile continuesSpaces).map vacate, isFixedSpace m = false := by
    intro m member
    obtain ⟨m, _, rfl⟩ := List.mem_map.mp member
    exact isFixedSpace_vacate m
  have total : totalWidth (n :: rest.takeWhile continuesSpaces) =
      width + totalWidth (rest.takeWhile continuesSpaces) := by
    rw [totalWidth, List.filterMap_cons_some found, List.sum_cons, totalWidth]
  rw [joinSpaces, found]
  simp only [absorbSpaces_eq]
  rw [joinSpaces_append_of_other vacated, joined, widen, total, List.cons_append]

/-- A run of spaces is joined, whatever stands behind it. -/
theorem joinSpaces_run (space : isFixedSpace n = true)
    (inside : ∀ m ∈ others, continuesSpaces m = true)
    (ends : ∀ m ∈ rest.head?, continuesSpaces m = false) :
    joinSpaces (n :: (others ++ rest)) = joined n others ++ joinSpaces rest := by
  obtain ⟨taken, left⟩ := takeWhile_append_of_stop ends others
  rw [joinSpaces_space space, taken, left, List.takeWhile_eq_self_iff.mpr inside,
    List.dropWhile_eq_nil_iff.mpr inside, List.nil_append]

/-- A row consists of runs of spaces and of other nodes. -/
theorem run_induction {P : List Node → Prop} (nil : P [])
    (other : ∀ n rest, isFixedSpace n = false → P rest → P (n :: rest))
    (run : ∀ first others right, isFixedSpace first = true →
      (∀ n ∈ others, continuesSpaces n = true) → (∀ n ∈ right.head?, continuesSpaces n = false) →
      P right → P (first :: (others ++ right))) : ∀ nodes : List Node, P nodes
  | [] => nil
  | n :: rest => by
    cases space : isFixedSpace n with
    | false => exact other n rest space (run_induction nil other run rest)
    | true =>
      have shorter : (rest.dropWhile continuesSpaces).length ≤ rest.length :=
        (List.dropWhile_sublist _).length_le
      have ends : ∀ m ∈ (rest.dropWhile continuesSpaces).head?, continuesSpaces m = false := by
        intro m member
        have stop := List.head?_dropWhile_not continuesSpaces rest
        rwa [Option.mem_def.mp member] at stop
      have split := run n (rest.takeWhile continuesSpaces) (rest.dropWhile continuesSpaces) space
        (fun m member => List.mem_takeWhile_imp member) ends (run_induction nil other run _)
      rwa [List.takeWhile_append_dropWhile] at split
termination_by nodes => nodes.length

/-- In front of a node that does not continue a run the pass can be cut. -/
theorem joinSpaces_cut {right : List Node}
    (stop : ∀ n ∈ right.head?, continuesSpaces n = false) (left : List Node) :
    joinSpaces (left ++ right) = joinSpaces left ++ joinSpaces right := by
  induction left using run_induction with
  | nil => rw [joinSpaces, List.nil_append, List.nil_append]
  | other n rest other ih =>
    rw [List.cons_append, joinSpaces_other other, joinSpaces_other other, ih, List.cons_append]
  | run first others rest space inside ends ih =>
    have stops : ∀ n ∈ (rest ++ right).head?, continuesSpaces n = false := by
      cases rest with
      | nil => exact stop
      | cons m rest => exact ends
    rw [List.cons_append, List.append_assoc, joinSpaces_run space inside stops,
      joinSpaces_run space inside ends, ih, List.append_assoc]

theorem occupied_run (inside : ∀ n ∈ others, continuesSpaces n = true) :
    ∀ n ∈ occupied others, isFixedSpace n = true := by
  intro n member
  obtain ⟨member, taken⟩ := List.mem_filter.mp member
  have continues := inside n member
  simp only [Bool.not_eq_true'] at taken
  rwa [continuesSpaces, taken, Bool.false_or] at continues

theorem occupied_vacate (inside : ∀ n ∈ others, continuesSpaces n = true) :
    occupied (others.map vacate) = [] := by
  refine List.filter_eq_nil_iff.mpr fun m member => ?_
  obtain ⟨n, inner, rfl⟩ := List.mem_map.mp member
  have continues := inside n inner
  unfold vacate
  cases space : isFixedSpace n with
  | true => simp [isPlaceholder, placeholder]
  | false =>
    rw [continuesSpaces, space, Bool.or_false] at continues
    simp [continues]

/-- Of a run that was joined, the first node is what is left. -/
theorem occupied_joined (space : isFixedSpace n = true)
    (inside : ∀ m ∈ others, continuesSpaces m = true) :
    occupied (joined n others) = [widen n (totalWidth (n :: others))] := by
  have wide : (widen n (totalWidth (n :: others))).isPlaceholder = false :=
    isPlaceholder_of_isFixedSpace space
  rw [joined, occupied_cons wide, occupied_vacate inside]

/-- Placeholders have no width. -/
theorem totalWidth_occupied (nodes : List Node) :
    totalWidth (occupied nodes) = totalWidth nodes := by
  induction nodes with
  | nil => rfl
  | cons n rest ih =>
    cases free : n.isPlaceholder with
    | true =>
      rw [occupied_free free, ih, totalWidth, totalWidth,
        List.filterMap_cons_none (spaceWidth?_of_isPlaceholder free)]
    | false =>
      unfold totalWidth at ih ⊢
      rw [occupied_cons free, List.filterMap_cons, List.filterMap_cons]
      split
      · exact ih
      · rw [List.sum_cons, List.sum_cons, ih]

/-! ### Apostrophes -/

/-- Whether a node continues a run of apostrophes. -/
def continuesPrimes (n : Node) : Bool :=
  n.isPlaceholder || isPrime n

/-- The number of apostrophes among some nodes. -/
def countPrimes (nodes : List Node) : Nat :=
  (occupied nodes).countP isPrime

/-- The glyphs that are written for a number of apostrophes. -/
def primes (count : Nat) : Node :=
  .leaf "mo" (String.ofList (primeGlyphs count))

theorem absorbPrimes_eq (nodes : List Node) :
    absorbPrimes nodes = (countPrimes (nodes.takeWhile continuesPrimes),
      List.replicate (nodes.takeWhile continuesPrimes).length .placeholder ++
        nodes.dropWhile continuesPrimes) := by
  induction nodes with
  | nil => rfl
  | cons n rest ih =>
    unfold absorbPrimes
    split
    case isTrue free =>
      have more : continuesPrimes n = true := by simp [continuesPrimes, free]
      simp [ih, more, countPrimes, occupied_free free, List.replicate_succ]
    case isFalse taken =>
      rw [Bool.not_eq_true] at taken
      split
      case isTrue prime =>
        have more : continuesPrimes n = true := by simp [continuesPrimes, prime]
        simp [ih, more, countPrimes, occupied_cons taken, prime, List.replicate_succ]
      case isFalse other =>
        have stop : continuesPrimes n = false := by simp [continuesPrimes, taken, other]
        simp [stop, countPrimes]

end TexFormula.Row
