import Mathlib
import Primer.Proofs.Evaluation.Activity

/-!
# What a range stands for

A range keeps its two ends only, and three parts of the language go through what lies between them:
printing, equality and the `FOR` loop.  They agree on one meaning, the integers that counting gives
(`IntegerRange.counted`): the text of a range lists them, two ranges are equal when they are the
same, and a loop does its body for one after the other (`Value.range_means_counted`).

`Eval.inTurn` is the loop over a list that is fixed before the first round.  What the body assigns
cannot change the list, neither through the loop variable nor otherwise.
-/

namespace Primer

namespace Numeral

/-- Integers are written as usual. -/
theorem render_eq_toString (i : Int) : render i = toString i := by
  cases i with
  | ofNat n => rfl
  | negSucc n =>
    apply String.toList_inj.mp
    rw [render, if_pos (Int.negSucc_lt_zero n), String.toList_ofList]
    change '-' :: Nat.toDigits 10 (n + 1) = ("-" ++ String.ofList (Nat.toDigits 10 (n + 1))).toList
    simp only [String.toList_append, String.toList_ofList]
    rfl

end Numeral

namespace IntegerRange

/-- Counting up from `start` for as long as it is below `stop`. -/
def counted (start stop : Int) : List Int :=
  if start < stop then start :: counted (start + 1) stop else []
termination_by (stop - start).toNat

theorem counted_of_lt {start stop : Int} (less : start < stop) :
    counted start stop = start :: counted (start + 1) stop := by
  rw [counted, if_pos less]

theorem counted_of_le {start stop : Int} (empty : stop ≤ start) : counted start stop = [] := by
  rw [counted, if_neg (Int.not_lt.mpr empty)]

theorem toList_of_lt {start stop : Int} (less : start < stop) :
    toList ⟨start, stop⟩ = start :: toList ⟨start + 1, stop⟩ := by
  have longer : length ⟨start, stop⟩ = length ⟨start + 1, stop⟩ + 1 := by
    simp only [length]
    omega
  have shift : ∀ i : Nat, start + ((i + 1 : Nat) : Int) = start + 1 + i := by
    intro i
    omega
  rw [toList, longer, List.range_succ_eq_map, List.map_cons, List.map_map]
  simp only [Function.comp_def, Nat.succ_eq_add_one, shift]
  simp [toList]

theorem toList_eq_counted (r : IntegerRange) : r.toList = counted r.start r.stop := by
  obtain ⟨start, stop⟩ := r
  fun_induction counted start stop with
  | case1 start less ih => rw [toList_of_lt less, ih]
  | case2 start empty =>
    have none : length ⟨start, stop⟩ = 0 := by
      simp only [length]
      omega
    rw [toList, none]
    rfl

theorem length_counted (start stop : Int) : (counted start stop).length = (stop - start).toNat := by
  rw [← toList_eq_counted ⟨start, stop⟩, toList, List.length_map, List.length_range, length]

/-- The ends of a range that is not empty can be read off the integers between them. -/
theorem counted_inj {a b c d : Int} (less : a < b) (same : counted a b = counted c d) :
    a = c ∧ b = d := by
  have lengths := congrArg List.length same
  rw [length_counted, length_counted] at lengths
  have less' : c < d := by omega
  rw [counted_of_lt less, counted_of_lt less'] at same
  have heads : a = c := (List.cons.inj same).1
  omega

theorem beq_iff_counted (a b c d : Int) :
    ((⟨a, b⟩ : IntegerRange) == ⟨c, d⟩) = true ↔ counted a b = counted c d := by
  change equal ⟨a, b⟩ ⟨c, d⟩ = true ↔ _
  simp only [equal, isEmpty, Bool.or_eq_true, Bool.and_eq_true, decide_eq_true_eq, beq_iff_eq]
  constructor
  · rintro (⟨empty, empty'⟩ | ⟨rfl, rfl⟩)
    · rw [counted_of_le empty, counted_of_le empty']
    · rfl
  · intro same
    by_cases less : a < b
    · exact .inr (counted_inj less same)
    · by_cases less' : c < d
      · obtain ⟨rfl, rfl⟩ := counted_inj less' same.symm
        exact .inr ⟨rfl, rfl⟩
      · exact .inl ⟨Int.not_lt.mp less, Int.not_lt.mp less'⟩

end IntegerRange

/-! ## Loops -/

namespace Eval

/-- Does `body` in a new innermost frame that binds `name` to `element` and nothing else.  The frame
is closed however `body` ends. -/
def withElement (name : String) (body : Eval Completion) (element : Int) : Eval Completion :=
  fun machine =>
    let frame : Frame Value FunctionBody := ⟨[(name, .integer element)], []⟩
    let (outcome, after) :=
      body ⟨⟨machine.scope.root, frame :: machine.scope.inner⟩, machine.effects⟩
    (outcome, ⟨after.scope.pop, after.effects⟩)

/-- Does `work` for every element of a list, in order, until one does not run to its end. -/
def inTurn (work : Int → Eval Completion) : List Int → Eval Completion
  | [] => fun machine => (.value .completed, machine)
  | element :: elements => fun machine =>
    match work element machine with
    | (.value .completed, after) => inTurn work elements after
    | stopped => stopped

/-- The name of a loop can always be bound: its frame is new. -/
theorem nested_addVariable (name : String) (body : Eval Completion) (element : Int) :
    nested (do
      changeScope (·.addVariable name (.integer element))
      body) = withElement name body element :=
  rfl

theorem forEach_eq_inTurn (name : String) (body : Eval Completion) (count : Nat) (current : Int) :
    forEach name body count current =
      inTurn (withElement name body) (IntegerRange.counted current (current + count)) := by
  induction count generalizing current with
  | zero =>
    rw [IntegerRange.counted_of_le (by omega)]
    rfl
  | succ count ih =>
    have stop : current + ((count + 1 : Nat) : Int) = current + 1 + count := by omega
    rewrite [IntegerRange.counted_of_lt (by omega), stop, forEach, inTurn, nested_addVariable, ih]
    rfl

theorem forEach_range (name : String) (body : Eval Completion) (a b : Int) :
    forEach name body (IntegerRange.length ⟨a, b⟩) a =
      inTurn (withElement name body) (IntegerRange.counted a b) := by
  rw [forEach_eq_inTurn]
  by_cases less : a < b
  · have stop : a + (IntegerRange.length ⟨a, b⟩ : Int) = b := by
      simp only [IntegerRange.length]
      omega
    rw [stop]
  · have none : IntegerRange.length ⟨a, b⟩ = 0 := by
      simp only [IntegerRange.length]
      omega
    rw [none, IntegerRange.counted_of_le (by omega), IntegerRange.counted_of_le (by omega)]

end Eval

/-- A range means the integers that are counted from its start up to its stop.  Its text lists
them; it is equal to the ranges that mean the same; and a loop over it does its body for each of
them, in order and in a frame of its own, until the body fails or returns. -/
theorem Value.range_means_counted (a b : Int) :
    (Value.range ⟨a, b⟩).render =
      "[" ++ ", ".intercalate ((IntegerRange.counted a b).map toString) ++ "]" ∧
    (∀ c d, (Value.range ⟨a, b⟩ == Value.range ⟨c, d⟩) = true ↔
      IntegerRange.counted a b = IntegerRange.counted c d) ∧
    ∀ (call : MethodCall) (rounds : Nat) (name : String) (range : Expression)
      (body : List Statement) (machine after : Machine),
      range.evaluate call machine = (.value (.range ⟨a, b⟩), after) →
      (Statement.forEach name range body).execute call rounds machine =
        Eval.inTurn (Eval.withElement name (Statement.executeAll call rounds body))
          (IntegerRange.counted a b) after := by
  refine ⟨?_, IntegerRange.beq_iff_counted a b, ?_⟩
  · have texts : Numeral.render = toString := funext Numeral.render_eq_toString
    rw [Value.render, IntegerRange.render, IntegerRange.toList_eq_counted, texts]
  · intro call rounds name range body machine after evaluated
    rw [Statement.execute, Eval.bind_of_value evaluated]
    dsimp only
    rw [Eval.forEach_range]

/-- The body of a loop over the range in `numbers`.  It overwrites that variable and the one of the
loop, and returns as soon as the sum is two. -/
def overwritingBody : List Statement :=
  let here : Note := { span := ⟨0, 0⟩ }
  let named := fun name => Expression.access here name none
  [.assignment (named "sum") (.binary here .add (named "sum") (named "i")),
    .assignment (named "i") (.literal here .nil),
    .assignment (named "numbers") (.literal here .nil),
    .conditional (.binary here .equal (named "sum") (.literal here (.integer 2)))
      [.result (named "sum")] []]

def overwritingLoop : Statement :=
  .forEach "i" (.access { span := ⟨0, 0⟩ } "numbers" none) overwritingBody

def overwritingMachine : Machine :=
  { scope := { root := ⟨[("numbers", .range ⟨-1, 4⟩), ("sum", .integer 0)], []⟩ } }

/-- What the body overwrites does not matter: it is done for -1, 0, 1 and 2, and would be done for 3
if it did not return. -/
theorem Value.range_means_counted_overwriting :
    (overwritingLoop.execute (Method.call 0) 0 overwritingMachine).1 =
        .value (.returned (.integer 2)) ∧
      overwritingLoop.execute (Method.call 0) 0 overwritingMachine =
        Eval.inTurn (Eval.withElement "i" (Statement.executeAll (Method.call 0) 0 overwritingBody))
          [-1, 0, 1, 2, 3] overwritingMachine := by
  have elements : IntegerRange.counted (-1) 4 = [-1, 0, 1, 2, 3] := by
    simp [IntegerRange.counted]
  constructor
  · cbv
  · rw [← elements]
    exact (Value.range_means_counted (-1) 4).2.2 _ 0 "i" _ overwritingBody _ _ rfl

end Primer
