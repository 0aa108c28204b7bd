import Primer.Proofs.Decimal.Arithmetic
import Primer.Proofs.Evaluation.Ranges

/-!
# Equality of values

Two kinds of values have several representations: a number has a decimal for each scale, and there
are many empty ranges.  Equality looks through them (`Value.beq_iff_alike`).  So does every operator
on two values: operands that are equal to the ones before give an equal result, or the same error.

Where the order is defined it is that of a list of numbers, the `rank` of a value: the number itself
for a number, and the scalar values of its characters for a string.  The six comparisons are those
of the ranks, so they fit together as they do in any total order.
-/

namespace Primer

namespace Value

/-! ## Representations -/

/-- The values differ at most in the scale of a decimal or the ends of an empty range. -/
inductive Alike : Value → Value → Prop
  | same (value : Value) : Alike value value
  | decimals {a b : Decimal} : a.value = b.value → Alike (.decimal a) (.decimal b)
  | ranges {a b : IntegerRange} : a.toList = b.toList → Alike (.range a) (.range b)

theorem beq_range_iff (a b : IntegerRange) : (a == b) = true ↔ a.toList = b.toList := by
  rw [IntegerRange.toList_eq_counted, IntegerRange.toList_eq_counted]
  exact IntegerRange.beq_iff_counted a.start a.stop b.start b.stop

theorem beq_iff_alike (v w : Value) : (v == w) = true ↔ Alike v w := by
  change equal v w = true ↔ _
  constructor
  · intro same
    unfold equal at same
    split at same
    case h_1 => exact .same _
    case h_4 a b => exact .decimals ((Decimal.beq_iff_value a b).mp same)
    case h_7 a b => exact .ranges ((beq_range_iff a b).mp same)
    case h_9 => cases same
    all_goals
      rw [eq_of_beq same]
      exact .same _
  · intro alike
    cases alike with
    | same =>
      cases v with
      | decimal d => exact (Decimal.beq_iff_value d d).mpr rfl
      | range r => exact (beq_range_iff r r).mpr rfl
      | _ => simp [equal]
    | @decimals a b same => exact (Decimal.beq_iff_value a b).mpr same
    | @ranges a b same => exact (beq_range_iff a b).mpr same

namespace Alike

variable {u v w : Value}

theorem symm (alike : Alike v w) : Alike w v := by
  cases alike with
  | same => exact .same v
  | decimals same => exact .decimals same.symm
  | ranges same => exact .ranges same.symm

theorem trans (first : Alike u v) (second : Alike v w) : Alike u w := by
  cases first with
  | same => exact second
  | decimals same =>
    cases second with
    | same => exact .decimals same
    | decimals same' => exact .decimals (same.trans same')
  | ranges same =>
    cases second with
    | same => exact .ranges same
    | ranges same' => exact .ranges (same.trans same')

theorem typeName_eq (alike : Alike v w) : v.typeName = w.typeName := by
  cases alike <;> rfl

end Alike

theorem equivalence_beq : Equivalence fun v w : Value => (v == w) = true where
  refl v := (beq_iff_alike v v).mpr (.same v)
  symm {v w} same := (beq_iff_alike w v).mpr ((beq_iff_alike v w).mp same).symm
  trans {u v w} first second :=
    (beq_iff_alike u w).mpr (((beq_iff_alike u v).mp first).trans ((beq_iff_alike v w).mp second))

/-! ## Operators do not tell equal values apart -/

/-- Both computations fail, with the same error, or both succeed, with equal values. -/
inductive SameOutcome : Except RunError Value → Except RunError Value → Prop
  | failed (error : RunError) : SameOutcome (.error error) (.error error)
  | values {v w : Value} : (v == w) = true → SameOutcome (.ok v) (.ok w)

theorem SameOutcome.refl : (outcome : Except RunError Value) → SameOutcome outcome outcome
  | .error error => .failed error
  | .ok value => .values (equivalence_beq.refl value)

theorem SameOutcome.decimals {a b : Decimal} (same : a.value = b.value) :
    SameOutcome (.ok (.decimal a)) (.ok (.decimal b)) :=
  .values ((beq_iff_alike _ _).mpr (.decimals same))

section

variable {l l' r r' : Value}

theorem beq_congr (left : Alike l l') (right : Alike r r') : (l == r) = (l' == r') := by
  rw [Bool.eq_iff_iff, beq_iff_alike, beq_iff_alike]
  constructor
  · intro same
    exact (left.symm.trans same).trans right
  · intro same
    exact (left.trans same).trans right.symm

theorem compare?_congr (left : Alike l l') (right : Alike r r') :
    l.compare? r = l'.compare? r' := by
  cases left with
  | same =>
    cases right with
    | same => rfl
    | decimals same =>
      cases l with
      | decimal => rw [compare?, compare?, Decimal.compare_eq_cmp, Decimal.compare_eq_cmp, same]
      | _ => rfl
    | ranges => cases l <;> rfl
  | decimals same =>
    cases right with
    | same =>
      cases r with
      | decimal => rw [compare?, compare?, Decimal.compare_eq_cmp, Decimal.compare_eq_cmp, same]
      | _ => rfl
    | decimals same' =>
      rw [compare?, compare?, Decimal.compare_eq_cmp, Decimal.compare_eq_cmp, same, same']
    | ranges => rfl
  | ranges => rfl

end

end Value

namespace Operator

open Value

variable {l l' r r' : Value}

theorem onDecimals?_congr (operator : Operator) {a a' b b' : Decimal} (same : a.value = a'.value)
    (same' : b.value = b'.value) :
    Option.Rel SameOutcome (operator.arithmetic? (.decimal a) (.decimal b))
      (operator.arithmetic? (.decimal a') (.decimal b')) := by
  cases operator with
  | add =>
    apply Option.Rel.some
    apply SameOutcome.decimals
    rw [Decimal.value_add, Decimal.value_add, same, same']
  | subtract =>
    apply Option.Rel.some
    apply SameOutcome.decimals
    rw [Decimal.value_sub, Decimal.value_sub, same, same']
  | multiply =>
    apply Option.Rel.some
    apply SameOutcome.decimals
    rw [Decimal.value_mul, Decimal.value_mul, same, same']
  | divide =>
    have zeros : b.isZero = b'.isZero := by
      rw [Bool.eq_iff_iff, Decimal.isZero_iff_value, Decimal.isZero_iff_value, same']
    apply Option.Rel.some
    rw [← zeros]
    cases zero : b.isZero with
    | true => exact .failed .divisionByZero
    | false =>
      apply SameOutcome.decimals
      rw [Decimal.div_eq_of_value same same' zero]
  | _ => exact .none

theorem arithmetic?_congr (operator : Operator) (left : Alike l l') (right : Alike r r') :
    Option.Rel SameOutcome (operator.arithmetic? l r) (operator.arithmetic? l' r') := by
  cases left with
  | same =>
    cases right with
    | same =>
      cases operator.arithmetic? l r with
      | none => exact .none
      | some outcome => exact .some (.refl outcome)
    | decimals same =>
      cases l with
      | decimal => exact operator.onDecimals?_congr rfl same
      | _ => exact .none
    | ranges => cases l <;> exact .none
  | decimals same =>
    cases right with
    | same =>
      cases r with
      | decimal => exact operator.onDecimals?_congr same rfl
      | _ => exact .none
    | decimals same' => exact operator.onDecimals?_congr same same'
    | ranges => exact .none
  | ranges => exact .none

theorem undefinedFor_congr (operator : Operator) (left : Alike l l') (right : Alike r r') :
    operator.undefinedFor l r = operator.undefinedFor l' r' := by
  rw [undefinedFor, undefinedFor, left.typeName_eq, right.typeName_eq]

theorem apply_congr (operator : Operator) (left : Alike l l') (right : Alike r r') :
    SameOutcome (operator.apply l r) (operator.apply l' r') := by
  unfold apply
  split
  · rw [beq_congr left right]
    exact .refl _
  · rw [bne, bne, beq_congr left right]
    exact .refl _
  iterate 4
    · rw [compare?_congr left right, undefinedFor_congr _ left right]
      exact .refl _
  · have related := arithmetic?_congr operator left right
    rw [undefinedFor_congr operator left right]
    generalize operator.arithmetic? l r = first at related
    generalize operator.arithmetic? l' r' = second at related
    cases related with
    | none => exact .refl _
    | some same => exact same

end Operator

namespace Value

/-! ## Order -/

/-- Both values are of one ordered kind. -/
inductive Comparable : Value → Value → Prop
  | integers (a b : Int) : Comparable (.integer a) (.integer b)
  | decimals (a b : Decimal) : Comparable (.decimal a) (.decimal b)
  | characters (a b : Char) : Comparable (.character a) (.character b)
  | strings (a b : String) : Comparable (.string a) (.string b)

/-- The numbers by which a value of an ordered kind is ordered. -/
def rank : Value → List ℚ
  | .integer value => [(value : ℚ)]
  | .decimal value => [value.value]
  | .character value => [(value.toNat : ℚ)]
  | .string value => value.toList.map fun c => (c.toNat : ℚ)
  | _ => []

theorem strictMono_singleton : StrictMono fun x : ℚ => [x] := by
  intro x y less
  exact List.cons_lt_cons_iff.mpr (.inl less)

theorem strictMono_scalar : StrictMono fun c : Char => (c.toNat : ℚ) := by
  intro c d less
  exact Nat.cast_lt.mpr less

theorem strictMono_map {α β : Type} [LinearOrder α] [LinearOrder β] {f : α → β}
    (strict : StrictMono f) : StrictMono (List.map f) := by
  intro xs ys less
  induction less with
  | nil => exact .nil
  | cons _ ih => exact .cons ih
  | rel less => exact .rel (strict less)

theorem strictMono_rank_integer : StrictMono fun n : ℤ => rank (.integer n) :=
  strictMono_singleton.comp Int.cast_strictMono

theorem strictMono_rank_character : StrictMono fun c : Char => rank (.character c) :=
  strictMono_singleton.comp strictMono_scalar

theorem strictMono_rank_string : StrictMono fun s : String => rank (.string s) := by
  intro s t less
  exact strictMono_map strictMono_scalar (String.lt_iff_toList_lt.mp less)

section

variable {l r u v w : Value}

theorem isSome_compare?_iff : (l.compare? r).isSome = true ↔ Comparable l r := by
  constructor
  · intro defined
    unfold compare? at defined
    split at defined
    · exact .integers _ _
    · exact .decimals _ _
    · exact .characters _ _
    · exact .strings _ _
    · cases defined
  · intro comparable
    cases comparable <;> rfl

namespace Comparable

theorem symm (comparable : Comparable l r) : Comparable r l := by
  cases comparable with
  | integers a b => exact .integers b a
  | decimals a b => exact .decimals b a
  | characters a b => exact .characters b a
  | strings a b => exact .strings b a

theorem trans (first : Comparable u v) (second : Comparable v w) : Comparable u w := by
  cases first with
  | integers a =>
    cases second with
    | integers _ c => exact .integers a c
  | decimals a =>
    cases second with
    | decimals _ c => exact .decimals a c
  | characters a =>
    cases second with
    | characters _ c => exact .characters a c
  | strings a =>
    cases second with
    | strings _ c => exact .strings a c

/-- Values are ordered as their ranks are. -/
theorem compares (comparable : Comparable l r) :
    ∃ ordering, l.compare? r = some ordering ∧ ordering.Compares l.rank r.rank := by
  cases comparable with
  | integers a b =>
    rw [compare?, ← cmp_eq_compare]
    exact ⟨_, rfl, strictMono_rank_integer.compares.mpr (cmp_compares a b)⟩
  | decimals a b =>
    rw [compare?, Decimal.compare_eq_cmp]
    exact ⟨_, rfl, strictMono_singleton.compares.mpr (cmp_compares a.value b.value)⟩
  | characters a b =>
    rw [compare?, ← cmp_eq_compare]
    exact ⟨_, rfl, strictMono_rank_character.compares.mpr (cmp_compares a b)⟩
  | strings a b =>
    rw [compare?, ← cmp_eq_compare]
    exact ⟨_, rfl, strictMono_rank_string.compares.mpr (cmp_compares a b)⟩

theorem beq_iff_rank (comparable : Comparable l r) : (l == r) = true ↔ l.rank = r.rank := by
  rw [beq_iff_alike]
  constructor
  · intro alike
    cases alike with
    | same => rfl
    | decimals same => rw [rank, rank, same]
    | ranges => cases comparable
  · intro same
    cases comparable with
    | integers a b =>
      rw [strictMono_rank_integer.injective same]
      exact .same _
    | decimals a b => exact .decimals (strictMono_singleton.injective same)
    | characters a b =>
      rw [strictMono_rank_character.injective same]
      exact .same _
    | strings a b =>
      rw [strictMono_rank_string.injective same]
      exact .same _

end Comparable

end

end Value

/-! ## The six comparisons -/

/-- The operator says that its operands compare so. -/
def Operator.Holds (operator : Operator) (left right : Value) : Prop :=
  operator.apply left right = .ok (.boolean true)

namespace Value

/-- The six comparisons of two values are all made, and are those of the numbers `x` and `y`. -/
structure ComparedAs (l r : Value) (x y : List ℚ) : Prop where
  made : ∀ operator ∈ [.less, .lessEqual, .greater, .greaterEqual, .equal, .notEqual],
    ∃ truth, Operator.apply operator l r = .ok (.boolean truth)
  less : Operator.less.Holds l r ↔ x < y
  lessEqual : Operator.lessEqual.Holds l r ↔ x ≤ y
  greater : Operator.greater.Holds l r ↔ y < x
  greaterEqual : Operator.greaterEqual.Holds l r ↔ y ≤ x
  equal : Operator.equal.Holds l r ↔ x = y
  notEqual : Operator.notEqual.Holds l r ↔ x ≠ y

variable {l r u v w : Value}

theorem holds_equal_iff : Operator.equal.Holds l r ↔ (l == r) = true := by
  rw [Operator.Holds, Operator.apply, Except.ok.injEq, boolean.injEq]

theorem holds_notEqual_iff : Operator.notEqual.Holds l r ↔ ¬ (l == r) = true := by
  rw [Operator.Holds, Operator.apply, Except.ok.injEq, boolean.injEq, bne, Bool.not_eq_true',
    Bool.not_eq_true]

/-- An ordering operator gives what its table says of the ordering. -/
theorem apply_of_compare? {operator : Operator} {ordering : Ordering} {truth : Bool}
    (found : l.compare? r = some ordering) (listed : operator.holds? ordering = some truth) :
    operator.apply l r = .ok (.boolean truth) := by
  cases operator with
  | less | lessEqual | greater | greaterEqual =>
    rw [Operator.apply, found, Option.bind_some, listed]
  | _ => cases listed

theorem holds_iff_of_compare? {operator : Operator} {ordering : Ordering} {truth : Bool}
    (found : l.compare? r = some ordering) (listed : operator.holds? ordering = some truth) :
    operator.Holds l r ↔ truth = true := by
  rw [Operator.Holds, apply_of_compare? found listed, Except.ok.injEq, boolean.injEq]

theorem Comparable.comparedAs (comparable : Comparable l r) : ComparedAs l r l.rank r.rank := by
  obtain ⟨ordering, found, compares⟩ := comparable.compares
  constructor
  case made =>
    intro operator listed
    simp only [List.mem_cons, List.not_mem_nil, or_false] at listed
    rcases listed with rfl | rfl | rfl | rfl | rfl | rfl
    iterate 4 exact ⟨_, apply_of_compare? found rfl⟩
    all_goals exact ⟨_, rfl⟩
  case equal => rw [holds_equal_iff, comparable.beq_iff_rank]
  case notEqual => rw [holds_notEqual_iff, comparable.beq_iff_rank]
  case less => rw [holds_iff_of_compare? found rfl, beq_iff_eq, compares.eq_lt]
  case lessEqual => rw [holds_iff_of_compare? found rfl, bne_iff_ne, compares.ne_gt]
  case greater => rw [holds_iff_of_compare? found rfl, beq_iff_eq, compares.eq_gt]
  case greaterEqual => rw [holds_iff_of_compare? found rfl, bne_iff_ne, compares.ne_lt]

/-- Exactly one of less, equal and greater holds, and the other comparisons are made up of them. -/
structure Trichotomy (l r : Value) : Prop where
  exactlyOne :
    (Operator.less.Holds l r ∧ ¬ Operator.equal.Holds l r ∧ ¬ Operator.greater.Holds l r) ∨
    (¬ Operator.less.Holds l r ∧ Operator.equal.Holds l r ∧ ¬ Operator.greater.Holds l r) ∨
    (¬ Operator.less.Holds l r ∧ ¬ Operator.equal.Holds l r ∧ Operator.greater.Holds l r)
  lessEqual :
    Operator.lessEqual.Holds l r ↔ Operator.less.Holds l r ∨ Operator.equal.Holds l r
  greaterEqual :
    Operator.greaterEqual.Holds l r ↔ Operator.greater.Holds l r ∨ Operator.equal.Holds l r
  notEqual : Operator.notEqual.Holds l r ↔ ¬ Operator.equal.Holds l r
  converse : Operator.greater.Holds l r ↔ Operator.less.Holds r l

/-- In a chain of values that do not descend, the last is not below the first; it is above the
first if there is an ascent on the way. -/
structure Transitivity (u v w : Value) : Prop where
  lessEqual : Operator.lessEqual.Holds u v → Operator.lessEqual.Holds v w →
    Operator.lessEqual.Holds u w
  less : Operator.lessEqual.Holds u v → Operator.lessEqual.Holds v w →
    (Operator.less.Holds u w ↔ Operator.less.Holds u v ∨ Operator.less.Holds v w)

theorem Comparable.trichotomy (comparable : Comparable l r) : Trichotomy l r := by
  have compared := comparable.comparedAs
  have reversed := comparable.symm.comparedAs
  constructor
  · rw [compared.less, compared.equal, compared.greater]
    rcases lt_trichotomy l.rank r.rank with less | equal | greater
    · exact .inl ⟨less, less.ne, less.asymm⟩
    · exact .inr (.inl ⟨equal.not_lt, equal, equal.not_gt⟩)
    · exact .inr (.inr ⟨greater.asymm, greater.ne', greater⟩)
  · rw [compared.lessEqual, compared.less, compared.equal, le_iff_lt_or_eq]
  · rw [compared.greaterEqual, compared.greater, compared.equal, le_iff_lt_or_eq, eq_comm]
  · rw [compared.notEqual, compared.equal]
  · rw [compared.greater, reversed.less]

theorem Comparable.transitivity (first : Comparable u v) (second : Comparable v w) :
    Transitivity u v w := by
  have whole := (first.trans second).comparedAs
  constructor
  · rw [first.comparedAs.lessEqual, second.comparedAs.lessEqual, whole.lessEqual]
    exact le_trans
  · rw [first.comparedAs.lessEqual, second.comparedAs.lessEqual, first.comparedAs.less,
      second.comparedAs.less, whole.less]
    intro le le'
    constructor
    · intro less
      by_contra flat
      rw [not_or, not_lt, not_lt] at flat
      exact less.not_ge (flat.2.trans flat.1)
    · intro ascent
      rcases ascent with less | less
      · exact less.trans_le le'
      · exact le.trans_lt less

/-- Equality is an equivalence, and an operator has the same outcome on equal operands.  The order
is defined on two values of one ordered kind, where it is the total order of their ranks and its
equal case is equality; so the six comparisons fit together. -/
theorem equality_respected_and_ordered :
    Equivalence (fun v w : Value => (v == w) = true) ∧
    (∀ (operator : Operator) (l l' r r' : Value), (l == l') = true → (r == r') = true →
      SameOutcome (operator.apply l r) (operator.apply l' r')) ∧
    (∀ l r : Value, (l.compare? r).isSome = true ↔ Comparable l r) ∧
    (∀ l r : Value, Comparable l r →
      (∃ ordering, l.compare? r = some ordering ∧ ordering.Compares l.rank r.rank ∧
        (ordering = .eq ↔ (l == r) = true)) ∧
      ComparedAs l r l.rank r.rank ∧ Trichotomy l r) ∧
    ∀ u v w : Value, Comparable u v → Comparable v w → Comparable u w ∧ Transitivity u v w := by
  refine ⟨equivalence_beq, ?_, ?_, ?_, ?_⟩
  · intro operator l l' r r' left right
    exact operator.apply_congr ((beq_iff_alike l l').mp left) ((beq_iff_alike r r').mp right)
  · intro l r
    exact isSome_compare?_iff
  · intro l r comparable
    obtain ⟨ordering, found, compares⟩ := comparable.compares
    have equal : ordering = .eq ↔ (l == r) = true := by
      rw [comparable.beq_iff_rank, compares.eq_eq]
    exact ⟨⟨ordering, found, compares, equal⟩, comparable.comparedAs, comparable.trichotomy⟩
  · intro u v w first second
    exact ⟨first.trans second, first.transitivity second⟩

/-- One, written with more digits than `Decimal.mul` looks at. -/
def longOne : Decimal :=
  ⟨10 ^ 39, 39⟩

/-- A product with one is the other factor, at its own scale, unless the one is too long. -/
theorem equality_respected_and_ordered_longOne :
    Operator.multiply.apply (.decimal ⟨1, 0⟩) (.decimal ⟨5, 1⟩) = .ok (.decimal ⟨5, 1⟩) ∧
    Operator.multiply.apply (.decimal longOne) (.decimal ⟨50, 2⟩) =
      .ok (.decimal ⟨50 * 10 ^ 39, 41⟩) ∧
    (Value.decimal ⟨5, 1⟩ == Value.decimal ⟨50 * 10 ^ 39, 41⟩) = true ∧
    Transitivity (.decimal ⟨5, 1⟩) (.decimal ⟨1, 0⟩) (.decimal longOne) := by
  have plain : Operator.multiply.apply (.decimal ⟨1, 0⟩) (.decimal ⟨5, 1⟩) =
      .ok (.decimal ⟨5, 1⟩) := by rfl
  have long : Operator.multiply.apply (.decimal longOne) (.decimal ⟨50, 2⟩) =
      .ok (.decimal ⟨50 * 10 ^ 39, 41⟩) := by rfl
  obtain ⟨-, respected, -, -, ordered⟩ := equality_respected_and_ordered
  have same := respected .multiply (.decimal ⟨1, 0⟩) (.decimal longOne) (.decimal ⟨5, 1⟩)
    (.decimal ⟨50, 2⟩) (by decide) (by decide)
  rw [plain, long] at same
  refine ⟨plain, long, ?_, (ordered _ _ _ (.decimals _ _) (.decimals _ _)).2⟩
  cases same with
  | values same => exact same

end Value

end Primer
