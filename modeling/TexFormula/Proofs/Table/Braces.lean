import TexFormula.Proofs.Formula.Sealed
import TexFormula.Proofs.Table.Division

/-! Braces in a table. What stands in braces is no part of the grid of the table around them, even
if it is a break: a letter in its place gives rows with the same cells
(`Environment.grid_of_braced`). This needs that the braces are sealed, so that the break does not
come out of them alone, and that the spans of the cells stay the same. -/
namespace TexFormula
open Queue

/-- A pair of braces around a position of a token list. No pair of delimiters that is read as one
expression crosses it, and none ends at the position. -/
structure Token.Encloses (tokens : List Token) (brace : Token) (start position : Nat) : Prop where
  opens : tokens[start]? = some brace
  kind : brace.kind = { curly := true, opens := true }
  value : brace.value = "\x7b"
  after : start < position
  before : (position : Int) < start + brace.offset
  closes : (start : Int) + brace.offset < tokens.length
  uncrossed : ∀ i < start, ∀ t, tokens[i]? = some t → (compositeKind? t).isSome →
    (i : Int) + t.offset < start ∨ (start : Int) + brace.offset < i + t.offset
  apart : ∀ i < position, ∀ t, tokens[i]? = some t → (compositeKind? t).isSome →
    (i : Int) + t.offset ≠ position

/-- A mark between cells or rows as it is written. -/
def Token.WritesBreak (t : Token) : Prop :=
  t.kind = { reserved := true } ∧ t.value = "&" ∨
    (∃ star, t.kind = { command := true, star }) ∧ (t.value = "\\" ∨ t.value = "cr")

/-- A token that shows and is no delimiter. -/
structure Token.StandsAlone (t : Token) : Prop where
  shown : t.isShown = true
  single : compositeKind? t = none

variable {brace t u letter : Token} {tokens content pre suf : List Token} {left : Nat}

theorem Token.WritesBreak.standsAlone (writes : u.WritesBreak) : u.StandsAlone := by
  obtain ⟨kind, value, offset⟩ := u
  rcases writes with ⟨rfl, rfl⟩ | ⟨⟨star, rfl⟩, rfl | rfl⟩ <;> exact ⟨rfl, rfl⟩

theorem Token.standsAlone_of_letter (kind : letter.kind = { letter := true })
    (value : letter.value ≠ "[") : letter.StandsAlone := by
  refine ⟨?_, ?_⟩
  · simp [isShown, isBlank, Step.pendingMarks?, Step.operandMarks?, kind]
  · simp [compositeKind?, kind, value]

/-! ### Queues -/

theorem Expr.braced_of_mem {e : Expr} (member : brace ∈ e.tokens)
    (kind : brace.kind = { curly := true, opens := true }) (value : brace.value = "\x7b") :
    e.Braced := by
  have spelling : '\x7b' ∈ brace.spelling.toList := by
    simp [Token.spelling, Token.isBlank, kind, value]
  have shown : (!brace.kind.comment) = true := by rw [kind]; rfl
  have text : brace.spelling ∈ (e.tokens.filter (!·.kind.comment)).map Token.spelling :=
    List.mem_map_of_mem (List.mem_filter.mpr ⟨member, shown⟩)
  rw [Expr.Braced, Length.Braced, Token.spellingAll, String.toList_join]
  exact List.mem_flatMap.mpr ⟨_, text, spelling⟩

theorem Queue.reach_congr (x : Token) {rest rest' : List Token}
    (lengths : rest.length = rest'.length) : reach x rest = reach x rest' := by
  rw [reach, reach, composite?, composite?, lengths]

/-- Queues that are the same but for the token in front of their last `left` ones. -/
abbrev Queue.BesideAlone (left : Nat) (q q' : Queue) : Prop :=
  Queue.Beside (fun _ _ => False) left q q'

/-- An expression that ends in front of the place where two lists differ is the same in both. -/
theorem Queue.beside_behind {x : Token} {v tail tail' : List Token}
    (same : tail.length = tail'.length) (short : (reach x (v ++ tail)).2 ≤ v.length)
    (further : left ≤ tail.length)
    (next : BesideAlone left (ofTokens (v.drop (reach x (v ++ tail)).2 ++ tail))
      (ofTokens (v.drop (reach x (v ++ tail)).2 ++ tail'))) :
    BesideAlone left (ofTokens (x :: (v ++ tail))) (ofTokens (x :: (v ++ tail'))) := by
  have lengths : (v ++ tail).length = (v ++ tail').length := by simp [same]
  rw [ofTokens_cons, ofTokens_cons, ← reach_congr x lengths, List.take_append_of_le_length short,
    List.take_append_of_le_length short, List.drop_append_of_le_length short,
    List.drop_append_of_le_length short]
  refine .there ?_ next
  rw [weight_ofTokens, List.length_append]
  omega

section Braced
variable (kind : brace.kind = { curly := true, opens := true }) (value : brace.value = "\x7b")
  (alone : u.StandsAlone) (alone' : letter.StandsAlone)
include kind value alone alone'

/-- An expression around braces with another token in them. -/
theorem Queue.beside_around {x : Token} {v post : List Token} {k : Nat}
    (member : brace ∈ x :: v) (reaches : (reach x (v ++ u :: post)).2 = v.length + 1 + (k + 1))
    (apart : ∀ w y z, v = w ++ y :: z → (compositeKind? y).isSome → y.offset ≠ z.length + 1)
    (within : (reach x (v ++ u :: post)).1 = .options →
      BesideAlone (k + 2) (ofTokens (v ++ u :: post.take (k + 1)))
        (ofTokens (v ++ letter :: post.take (k + 1)))) :
    BesideAlone (post.length + 1) (ofTokens (x :: (v ++ u :: post)))
      (ofTokens (x :: (v ++ letter :: post))) := by
  have same : (v ++ u :: post).length = (v ++ letter :: post).length := by simp
  have room : k + 1 ≤ post.length := by
    have inside := reach_le x (v ++ u :: post)
    rw [reaches, List.length_append, List.length_cons] at inside
    omega
  obtain ⟨taken, rest⟩ := take_beyond v post u (k + 1)
  obtain ⟨taken', rest'⟩ := take_beyond v post letter (k + 1)
  have far : 0 < (reach x (v ++ u :: post)).2 := by omega
  have composite := (composite_of_reach far).2.2
  have shows {a : Token} (alone : a.StandsAlone) :
      Queue.Shows (ofTokens (v ++ a :: post.take (k + 1)).dropLast) := by
    rw [dropLast_beyond v a k (by omega)]
    exact shows_ofTokens alone.shown alone.single apart _
  have braced {e : Expr} (tokens : brace ∈ e.tokens) : e.Braced :=
    Expr.braced_of_mem tokens kind value
  have behind : Queue.weight (ofTokens (post.drop (k + 1))) = post.length - (k + 1) := by
    rw [weight_ofTokens, List.length_drop]
  rw [ofTokens_cons, ofTokens_cons, ← reach_congr x same, reaches, taken, rest, taken', rest']
  generalize (reach x (v ++ u :: post)).1 = form at composite within
  have first : brace ∈ x :: (v ++ u :: post.take (k + 1)) := by
    rw [← List.cons_append]
    exact List.mem_append_left _ member
  have first' : brace ∈ x :: (v ++ letter :: post.take (k + 1)) := by
    rw [← List.cons_append]
    exact List.mem_append_left _ member
  refine .here ⟨rfl, rfl, .inr ⟨composite _ _, braced first, braced first'⟩⟩ (composite _ _)
    ?_ ?_ ?_ (fun group => ?_) (fun options => ?_) fun options => ?_
  · simp [Expr.tokens]
  · rw [behind]
    omega
  · rw [weight_cons, behind]
    simp only [Expr.tokens, List.length_cons, List.length_append, List.length_take]
    omega
  · obtain rfl : form = .group := group
    exact ⟨shows alone, shows alone'⟩
  · rw [weight_splice, behind]
    simp only [List.length_cons, List.length_append, List.length_take]
    omega
  · have spliced := (within options).append (ofTokens (post.drop (k + 1)))
    have total : k + 2 + Queue.weight (ofTokens (post.drop (k + 1))) = post.length + 1 := by
      rw [behind]
      omega
    rw [total] at spliced
    exact spliced

section Wider
variable {x : Token} {v behind : List Token} {k : Nat} (closes : suf ≠ [])
include closes

/-- An expression that has the braces inside and takes `k` tokens behind them. -/
theorem Queue.beside_outside
    (reaches : (reach x (v ++ brace :: (pre ++ u :: (suf ++ behind)))).2 =
      v.length + 1 + pre.length + 1 + suf.length + k)
    (apart : ∀ w y z, v ++ brace :: pre = w ++ y :: z → (compositeKind? y).isSome →
      y.offset ≠ z.length + 1)
    (inside : BesideAlone ((suf ++ behind.take k).length + 1)
      (ofTokens (v ++ brace :: (pre ++ u :: (suf ++ behind.take k))))
      (ofTokens (v ++ brace :: (pre ++ letter :: (suf ++ behind.take k))))) :
    BesideAlone ((suf ++ behind).length + 1)
      (ofTokens (x :: (v ++ brace :: (pre ++ u :: (suf ++ behind)))))
      (ofTokens (x :: (v ++ brace :: (pre ++ letter :: (suf ++ behind))))) := by
  have last := List.length_pos_iff.mpr closes
  have room : k ≤ behind.length := by
    have bounded := reach_le x (v ++ brace :: (pre ++ u :: (suf ++ behind)))
    simp only [reaches, List.length_append, List.length_cons] at bounded
    omega
  have split (a : Token) (tail : List Token) :
      v ++ brace :: (pre ++ a :: tail) = (v ++ brace :: pre) ++ a :: tail := by simp
  have taken : (suf ++ behind).take (suf.length - 1 + k + 1) = suf ++ behind.take k := by
    have count : suf.length - 1 + k + 1 = suf.length + k := by omega
    rw [count, List.take_length_add_append]
  have count : (suf ++ behind.take k).length + 1 = suf.length - 1 + k + 2 := by
    rw [List.length_append, List.length_take]
    omega
  rw [count, split, split] at inside
  rw [split] at reaches
  rw [split, split]
  refine beside_around kind value alone alone' (k := suf.length - 1 + k) ?_ ?_ apart fun _ => ?_
  · simp
  · rw [reaches, List.length_append, List.length_cons]
    omega
  · rw [taken]
    exact inside

variable (pair : brace.offset = pre.length + 1 + suf.length)
include pair

/-- The braces themselves. -/
theorem Queue.beside_inside
    (apart : ∀ w y z, pre = w ++ y :: z → (compositeKind? y).isSome → y.offset ≠ z.length + 1) :
    BesideAlone ((suf ++ behind).length + 1)
      (ofTokens (brace :: (pre ++ u :: (suf ++ behind))))
      (ofTokens (brace :: (pre ++ letter :: (suf ++ behind)))) := by
  have last := List.length_pos_iff.mpr closes
  have shown : brace.isBlank = false := by rw [Token.isBlank, kind]; rfl
  have opens : compositeKind? brace = some .group := by rw [compositeKind?, kind]; rfl
  have within : 0 < brace.offset ∧ brace.offset ≤ (pre ++ u :: (suf ++ behind)).length := by
    simp only [List.length_append, List.length_cons]
    omega
  have reaches : reach brace (pre ++ u :: (suf ++ behind)) =
      (.group, pre.length + 1 + suf.length) := by
    rw [reach, shown, if_neg Bool.false_ne_true, composite?, if_pos within, opens, pair]
    rfl
  refine beside_around kind value alone alone' (k := suf.length - 1) List.mem_cons_self ?_ apart ?_
  · rw [reaches]
    omega
  · rw [reaches]
    intro options
    cases options

/-- Lists that differ in one token in braces only give queues that differ in one place. -/
theorem Queue.beside_braced (front behind : List Token)
    (uncrossed : ∀ w x v, front = w ++ x :: v → (compositeKind? x).isSome →
      x.offset ≤ v.length ∨ v.length + 1 + brace.offset < x.offset)
    (apart : ∀ w x v, front ++ brace :: pre = w ++ x :: v → (compositeKind? x).isSome →
      x.offset ≠ v.length + 1) :
    BesideAlone ((suf ++ behind).length + 1)
      (ofTokens (front ++ brace :: (pre ++ u :: (suf ++ behind))))
      (ofTokens (front ++ brace :: (pre ++ letter :: (suf ++ behind)))) := by
  -- the first expression is cut off if it ends in front of the braces, and opened if it does not
  induction total : front.length using Nat.strong_induction_on generalizing front behind with
  | _ size ih =>
    cases front with
    | nil =>
      exact beside_inside kind value alone alone' closes pair
        fun w y z split => apart (brace :: w) y z (by rw [split]; rfl)
    | cons x v =>
      have later (behind : List Token) (w : List Token) (suffix : w <:+ v) :
          BesideAlone ((suf ++ behind).length + 1)
            (ofTokens (w ++ brace :: (pre ++ u :: (suf ++ behind))))
            (ofTokens (w ++ brace :: (pre ++ letter :: (suf ++ behind)))) := by
        have shorter : w.length < size := total ▸ Nat.lt_succ_of_le suffix.length_le
        obtain ⟨skipped, rfl⟩ := suffix
        refine ih _ shorter _ behind ?_ ?_ rfl
        · exact fun l y z split => uncrossed (x :: (skipped ++ l)) y z (by rw [split]; simp)
        · refine fun l y z split => apart (x :: (skipped ++ l)) y z ?_
          rw [List.cons_append, List.append_assoc, split]
          simp
      rw [List.cons_append, List.cons_append]
      by_cases short : (reach x (v ++ brace :: (pre ++ u :: (suf ++ behind)))).2 ≤ v.length
      · refine beside_behind (by simp) short ?_ (later behind _ (List.drop_suffix _ v))
        simp only [List.length_append, List.length_cons]
        omega
      · have far := Nat.lt_of_not_le short
        obtain ⟨opens, offset, -⟩ := composite_of_reach (Nat.zero_lt_of_lt far)
        have beyond : v.length + 1 + brace.offset < x.offset :=
          (uncrossed [] x v rfl opens).resolve_left (by omega)
        obtain ⟨k, reaches⟩ := Nat.exists_eq_add_of_le
          (show v.length + 1 + pre.length + 1 + suf.length ≤
            (reach x (v ++ brace :: (pre ++ u :: (suf ++ behind)))).2 by omega)
        refine beside_outside kind value alone alone' closes reaches ?_
          (later (behind.take k) v (List.suffix_refl v))
        exact fun w y z split => apart (x :: w) y z (by rw [List.cons_append, split]; rfl)

end Wider

end Braced

/-- Another token in braces gives a queue that differs in one place. -/
theorem Token.Encloses.beside {start position : Nat}
    (encloses : Token.Encloses tokens brace start position) (here : tokens[position]? = some u)
    (alone : u.StandsAlone) (alone' : letter.StandsAlone) :
    BesideAlone (tokens.length - position) (ofTokens tokens)
      (ofTokens (tokens.set position letter)) := by
  obtain ⟨opens, kind, value, after, before, closes, uncrossed, apart⟩ := encloses
  obtain ⟨within, there⟩ := List.getElem?_eq_some_iff.mp here
  obtain ⟨first, last, whole, place, changed⟩ := @List.exists_of_set _ _ letter _ within
  rw [there] at whole
  have inFirst : start < first.length := place ▸ after
  have opener : first[start] = brace := by
    rw [whole, List.getElem?_append_left inFirst] at opens
    exact (List.getElem?_eq_some_iff.mp opens).2
  obtain ⟨front, pre, split, length, -⟩ := @List.exists_of_set _ _ brace _ inFirst
  rw [opener] at split
  have positions : position = start + 1 + pre.length := by
    rw [← place, split, List.length_append, List.length_cons, length]
    omega
  have total : tokens.length = position + 1 + last.length := by
    rw [whole, List.length_append, List.length_cons, place]
    omega
  -- behind the position come what is left in the braces and what is behind them
  obtain ⟨count, reaches⟩ : ∃ count : Nat, brace.offset = pre.length + 1 + count :=
    ⟨(brace.offset - pre.length - 1).toNat, by omega⟩
  have inside : (last.take count).length = count := List.length_take_of_le (by omega)
  have parts (a : Token) : first ++ a :: last =
      front ++ brace :: (pre ++ a :: (last.take count ++ last.drop count)) := by
    rw [split, List.take_append_drop]
    simp
  have remains : tokens.length - position =
      (last.take count ++ last.drop count).length + 1 := by
    rw [List.take_append_drop]
    omega
  have found {w v : List Token} {x : Token} (cut : first = w ++ x :: v) :
      tokens[w.length]? = some x ∧ position = w.length + 1 + v.length := by
    have size := congrArg List.length cut
    rw [place, List.length_append, List.length_cons] at size
    refine ⟨?_, by omega⟩
    rw [whole, cut]
    simp
  rw [remains, changed]
  nth_rewrite 1 [whole]
  rw [parts, parts]
  apply beside_braced kind value alone alone'
  · exact List.length_pos_iff.mp (by omega)
  · rw [inside]
    exact reaches
  · intro w x v cut opener
    have leading : first = w ++ x :: (v ++ brace :: pre) := by
      rw [split, cut]
      simp
    have size := congrArg List.length cut
    rw [length, List.length_append, List.length_cons] at size
    rcases uncrossed w.length (by omega) x (found leading).1 opener with near | away
    · omega
    · omega
  · intro w x v cut opener
    obtain ⟨there, place⟩ := found (split.trans cut)
    have other := apart w.length (by omega) x there opener
    omega

namespace Environment

open Formula (readJob)
open Table (breaksOf endsOpen grid rowLengths SameSpans)

variable {o : Options} {depth : Nat} {bound : Queue} {c : Context} {s : Scope}
  {start position : Nat}

/-! ### Main result -/

/-- Whether no job of the step that takes a position of the content of an environment ends with a
break or a limit switch alone. -/
def isSealedAt (o : Options) (depth : Nat) (t : Token) (c : Context) (content : List Token)
    (s : Scope) (position : Nat) : Bool :=
  let job := contentJob t c content
  Formula.isSealed o depth job.context (content.length - position) job.queue s

/-- A letter in place of a break in braces divides the content of an environment as the break does.
-/
theorem level_content (encloses : Token.Encloses content brace start position)
    (here : content[position]? = some u) (writes : u.WritesBreak)
    (kind : letter.kind = { letter := true }) (value : letter.value ≠ "[")
    (idle : ∀ u ∈ content, u.kind.command = true → ¬ s.macros.Active u.value)
    (closed : isSealedAt o depth t c content s position = true)
    (closed' : isSealedAt o depth t c (content.set position letter) s position = true) :
    let job := contentJob t c content
    let job' := contentJob t c (content.set position letter)
    (Formula.readRow o depth job.context job.queue {} s).1.Level
      (Formula.readRow o depth job'.context job'.queue {} s).1 := by
  intro job job'
  have within : position < content.length := (List.getElem?_eq_some_iff.mp here).1
  have idle' : ∀ u ∈ content.set position letter, u.kind.command = true →
      ¬ s.macros.Active u.value := by
    intro u member command
    rcases List.mem_or_eq_of_mem_set member with old | rfl
    · exact idle u old command
    · rw [kind] at command
      cases command
  have beside := (encloses.beside here writes.standsAlone
    (Token.standsAlone_of_letter kind value)).start (context t.value t.kind.star c)
      (some (.element "mrow"))
  have still : Formula.Idle s.macros job.queue :=
    Formula.idle_start (Formula.idle_ofTokens idle) _ _
  have still' : Formula.Idle s.macros job'.queue :=
    Formula.idle_start (Formula.idle_ofTokens idle') _ _
  have same : job'.context = job.context := (Job.context_start _ _ _).trans
    (Job.context_start _ _ _).symm
  have plain : job.context.takesArgument = false := by
    rw [show job.context = contentContext t c from Job.context_start _ _ _]
    rfl
  simp only [isSealedAt, List.length_set] at closed closed'
  rw [same] at closed' ⊢
  exact Formula.level_beside o depth plain s (by omega) beside
    (Row.Draft.level_self ⟨rfl, rfl, rfl⟩) still still' closed closed'

/-- A break in braces does not matter to the grid of the table around them, if no job of the step
that takes the braces ends with a break or a limit switch alone: a letter in place of the break
gives a table with as many rows, and with as many cells in each of them if the cells span the same.
Other groups of the table may give breaks as their nodes. Both contents have to be sealed: a command
does not take a break as its argument, so `{\class&{&}}` is a row that starts with an error, but
with a letter in place of the first `&` it is the second one alone. -/
theorem grid_of_braced (encloses : Token.Encloses content brace start position)
    (here : content[position]? = some u) (writes : u.WritesBreak)
    (kind : letter.kind = { letter := true }) (value : letter.value ≠ "[")
    (idle : ∀ u ∈ content, u.kind.command = true → ¬ s.macros.Active u.value)
    (tabular : (context t.value t.kind.star c).table = true)
    (short : content.length < bound.weight)
    (short' : (content.set position letter).length < bound.weight)
    (closed : isSealedAt o depth t c content s position = true)
    (closed' : isSealedAt o depth t c (content.set position letter) s position = true) :
    ∃ n n', (readJob o depth (contentJob t c content) s).1 = some n ∧
      (readJob o depth (contentJob t c (content.set position letter)) s).1 = some n' ∧
      let lengths := rowLengths (Table.ofRow n)
      let lengths' := rowLengths (Table.ofRow n')
      ShowsRows o depth t c short s lengths ∧ ShowsRows o depth t c short' s lengths' ∧
        breaksOf n.children = breaksOf n'.children ∧ lengths.length = lengths'.length ∧
        (SameSpans (grid n.children) (grid n'.children) → lengths = lengths') := by
  have level := level_content encloses here writes kind value idle closed closed'
  obtain ⟨n, gives, -⟩ := exists_content o depth t c content s
  obtain ⟨n', gives', -⟩ := exists_content o depth t c (content.set position letter) s
  obtain ⟨breaks, ends⟩ := divided_content gives
  obtain ⟨breaks', ends'⟩ := divided_content gives'
  have same : breaksOf n.children = breaksOf n'.children := by
    rw [breaks, breaks', level.division]
  have open_ : endsOpen n.children = endsOpen n'.children := by
    rw [ends, ends', level.division]
  exact ⟨n, n', gives, gives', showsRows_of_reads tabular short gives,
    showsRows_of_reads tabular short' gives', same,
    (Table.length_rowLengths_iff_of_breaks same).mpr open_,
    Table.rowLengths_eq_of_breaks same open_⟩

set_option maxRecDepth 4096 in
/-- A break between two letters in the argument of a command, in a table in which another group
gives a break. -/
theorem grid_of_braced_argument :
    let symbol (value : String) : Token := { kind := { letter := true }, value }
    let opener (offset : Int) : Token :=
      { kind := { curly := true, opens := true }, value := "\x7b", offset }
    let closer (offset : Int) : Token :=
      { kind := { curly := true, closes := true }, value := "\x7d", offset }
    let separator : Token := { kind := { reserved := true }, value := "&" }
    let root : Token := { kind := { command := true }, value := "sqrt" }
    let content := [opener 2, separator, closer (-2), root, opener 4, symbol "b", separator,
      symbol "c", closer (-4), separator, symbol "d"]
    let matrix : Token := { kind := { env := true, opens := true }, value := "matrix" }
    let bound : Queue := [⟨.environment, matrix, content⟩]
    let short : content.length < bound.weight := Nat.lt_succ_self _
    let short' : (content.set 6 (symbol "x")).length < bound.weight := Nat.lt_succ_self _
    ShowsRows {} 0 matrix {} short { macros := .empty } [3] ∧
      ShowsRows {} 0 matrix {} short' { macros := .empty } [3] := by
  intro symbol opener closer separator root content matrix bound short short'
  let c := context matrix.value matrix.kind.star {}
  let leaf (value : String) : Node := .ofPlain (symbol value) c
  let radical (between : Node) : Node :=
    (Node.branch "msqrt" [.row [leaf "b", between, leaf "c"]]).finish root c
  let whole (between : Node) : Node :=
    .row [Step.cellBreak, radical between, Step.cellBreak, leaf "d"]
  have encloses : Token.Encloses content (opener 4) 4 6 := by
    refine ⟨rfl, rfl, rfl, by decide, by decide, by decide, ?_, ?_⟩
    · intro i before t here delimits
      have among : i = 0 ∨ i = 1 ∨ i = 2 ∨ i = 3 := by omega
      rcases among with rfl | rfl | rfl | rfl <;> cases here <;> exact .inl (by decide)
    · intro i before t here delimits
      have among : i = 0 ∨ i = 1 ∨ i = 2 ∨ i = 3 ∨ i = 4 ∨ i = 5 := by omega
      rcases among with rfl | rfl | rfl | rfl | rfl | rfl <;> cases here <;> decide
  have idle : ∀ u ∈ content, u.kind.command = true →
      ¬ ({ macros := .empty } : Scope).macros.Active u.value := by
    have plain : ∀ u ∈ content, u.kind.command = true → u.value = "sqrt" := by decide
    intro u member command active
    rw [plain u member command] at active
    rcases active with defines | ⟨m, known, -⟩
    · cases defines
    · cases known
  have closed : isSealedAt {} 0 matrix {} content { macros := .empty } 6 = true := by cbv
  have closed' : isSealedAt {} 0 matrix {} (content.set 6 (symbol "x")) { macros := .empty } 6 =
      true := by cbv
  obtain ⟨n, n', gives, gives', shown, shown', -, -, same⟩ :=
    grid_of_braced encloses rfl (.inl ⟨rfl, rfl⟩) rfl (by decide) idle (by decide) short short'
      closed closed'
  have reads : (readJob {} 0 (contentJob matrix {} content) { macros := .empty }).1 =
      some (whole Step.cellBreak) := by cbv
  have reads' : (readJob {} 0 (contentJob matrix {} (content.set 6 (symbol "x")))
      { macros := .empty }).1 = some (whole (leaf "x")) := by cbv
  obtain rfl := Option.some.inj (reads.symm.trans gives)
  obtain rfl := Option.some.inj (reads'.symm.trans gives')
  have spans :
      SameSpans (grid (whole Step.cellBreak).children) (grid (whole (leaf "x")).children) :=
    Table.sameSpans_of_unspanned (by decide)
  have rows : rowLengths (Table.ofRow (whole (leaf "x"))) = [3] := by cbv
  rw [same spans] at shown
  rw [rows] at shown shown'
  exact ⟨shown, shown'⟩

/-- A break that is alone in braces divides a cell of the table around them. -/
theorem cell_divided_in_braces :
    ¬ ∀ (content : List Token) (brace t letter : Token) (start position : Nat) (n n' : Node),
      Token.Encloses content brace start position → content[position]? = some t →
      (t.isCellBreak || t.isRowBreak) = true → letter.kind = { letter := true } →
      let matrix : Token := { kind := { env := true, opens := true }, value := "matrix" }
      (readJob {} 0 (contentJob matrix {} content) { macros := .empty }).1 = some n →
      (readJob {} 0 (contentJob matrix {} (content.set position letter)) { macros := .empty }).1 =
        some n' →
      rowLengths (Table.ofRow n) = rowLengths (Table.ofRow n') := by
  intro kept
  let symbol (value : String) : Token := { kind := { letter := true }, value }
  let opener : Token := { kind := { curly := true, opens := true }, value := "\x7b", offset := 2 }
  let closer : Token :=
    { kind := { curly := true, closes := true }, value := "\x7d", offset := -2 }
  let separator : Token := { kind := { reserved := true }, value := "&" }
  let content := [symbol "a", opener, separator, closer, symbol "b"]
  let c := context "matrix" false {}
  let whole (between : Node) : Node :=
    .row [.ofPlain (symbol "a") c, between, .ofPlain (symbol "b") c]
  have encloses : Token.Encloses content opener 1 2 := by
    refine ⟨rfl, rfl, rfl, by decide, by decide, by decide, ?_, ?_⟩
    · intro i before t here delimits
      obtain rfl : i = 0 := by omega
      cases here
      cases delimits
    · intro i before t here delimits
      obtain rfl | rfl : i = 0 ∨ i = 1 := by omega
      · cases here
        cases delimits
      · cases here
        decide
  have same := kept content opener separator (symbol "x") 1 2 (whole Step.cellBreak)
    (whole (.ofPlain (symbol "x") c)) encloses rfl (by decide) rfl (by cbv) (by cbv)
  have two : rowLengths (Table.ofRow (whole Step.cellBreak)) = [2] := by cbv
  have one : rowLengths (Table.ofRow (whole (.ofPlain (symbol "x") c))) = [1] := by cbv
  rw [two, one] at same
  cases same

end Environment

end TexFormula
