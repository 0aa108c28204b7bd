import Primer.Environment.Counter
import Primer.Evaluation.Expression
import Primer.Proofs.Evaluation.Objects
import Primer.Proofs.Typing.Inversion

/-!
# Values of a type

`Value.Inhabits` says which values belong to a type.  Nil belongs to its own type and to `Any` only,
yet it can turn up anywhere: a variable without an initial value holds it, and so does the result of
a method that ends without returning.  So what a type promises is `Value.Fits`: the value belongs to
the type or is nil.

Operators keep this promise.  Where they fail, nil is among the operands, or a divisor is zero, or
two values of different ordered kinds are compared behind the type `Comparable`.
-/

namespace Primer

/-! ## Types -/

namespace Ty

/-- The types of the language, and the one of counters. -/
def IsOffered : Ty → Prop
  | .nominal definition => definition = Counter.definition
  | _ => True

/-- Types accept each other by name, and a name means one type. -/
theorem eq_of_name_eq {s t : Ty} (offered : s.IsOffered) (offered' : t.IsOffered)
    (same : s.name = t.name) : s = t := by
  cases s <;> cases t <;> first
    | rfl
    | (simp only [IsOffered] at offered offered'
       subst_vars
       first | rfl | exact absurd same (by decide))

theorem ordered_cases {type : Ty} (ordered : type.isOrdered = true) :
    type = .comparable ∨ type = .integer ∨ type = .decimal ∨ type = .character ∨
      type = .string := by
  cases type <;> simp [isOrdered] at ordered ⊢

theorem accepts_of_mustAccept {target source : Ty} (accepted : target.mustAccept source = .ok ()) :
    target.accepts source = true := by
  unfold mustAccept at accepted
  split at accepted
  · assumption
  · cases accepted

/-- A type accepts itself; besides, `Any` accepts every type and `Comparable` the ordered ones. -/
theorem accepts_cases {target source : Ty} (offered : target.IsOffered)
    (offered' : source.IsOffered) (accepts : target.accepts source = true) :
    target = .any ∨ target = .comparable ∧ source.isOrdered = true ∨ target = source := by
  unfold Ty.accepts at accepts
  split at accepts
  · exact .inl rfl
  · exact .inr (.inl ⟨rfl, accepts⟩)
  · exact .inr (.inr (eq_of_name_eq offered offered' (beq_iff_eq.mp accepts)))

end Ty

/-! ## Values -/

namespace Value

/-- Whether values of this kind have an order. -/
def IsOrdered : Value → Prop
  | .integer _ | .decimal _ | .character _ | .string _ => True
  | _ => False

/-- The values of a type.  An object belongs to the type that it was made from. -/
def Inhabits (store : Store) : Ty → Value → Prop
  | .any, _ => True
  | .nil, .nil => True
  | .comparable, value => value.IsOrdered
  | .boolean, .boolean _ => True
  | .integer, .integer _ => True
  | .decimal, .decimal _ => True
  | .character, .character _ => True
  | .string, .string _ => True
  | .integerIterable, .range _ => True
  | .nominal definition, .object ref =>
    ∃ object, store.find? ref = some object ∧ object.type = .nominal definition
  | _, _ => False

/-- What may stand where a type is asked for. -/
def Fits (store : Store) (type : Ty) (value : Value) : Prop :=
  value = .nil ∨ value.Inhabits store type

variable {store : Store} {type : Ty} {value : Value}

theorem Inhabits.of_grows {after : Store} (grows : store.Grows after)
    (inhabits : value.Inhabits store type) : value.Inhabits after type := by
  cases type <;> cases value <;> first | exact inhabits | skip
  obtain ⟨object, found, made⟩ := inhabits
  obtain ⟨object', found', same⟩ := grows _ object found
  exact ⟨object', found', same.trans made⟩

theorem inhabits_boolean : value.Inhabits store .boolean ↔ ∃ b, value = .boolean b := by
  constructor
  · intro inhabits
    cases value <;> first | exact ⟨_, rfl⟩ | exact inhabits.elim
  · rintro ⟨_, rfl⟩
    exact trivial

theorem inhabits_integer : value.Inhabits store .integer ↔ ∃ i, value = .integer i := by
  constructor
  · intro inhabits
    cases value <;> first | exact ⟨_, rfl⟩ | exact inhabits.elim
  · rintro ⟨_, rfl⟩
    exact trivial

theorem inhabits_decimal : value.Inhabits store .decimal ↔ ∃ d, value = .decimal d := by
  constructor
  · intro inhabits
    cases value <;> first | exact ⟨_, rfl⟩ | exact inhabits.elim
  · rintro ⟨_, rfl⟩
    exact trivial

theorem inhabits_string : value.Inhabits store .string ↔ ∃ s, value = .string s := by
  constructor
  · intro inhabits
    cases value <;> first | exact ⟨_, rfl⟩ | exact inhabits.elim
  · rintro ⟨_, rfl⟩
    exact trivial

theorem inhabits_iterable : value.Inhabits store .integerIterable ↔ ∃ r, value = .range r := by
  constructor
  · intro inhabits
    cases value <;> first | exact ⟨_, rfl⟩ | exact inhabits.elim
  · rintro ⟨_, rfl⟩
    exact trivial

theorem inhabits_nominal {definition : TypeDefinition} :
    value.Inhabits store (.nominal definition) ↔ ∃ ref object, value = .object ref ∧
      store.find? ref = some object ∧ object.type = .nominal definition := by
  constructor
  · intro inhabits
    cases value with
    | object ref =>
      obtain ⟨object, found, made⟩ := inhabits
      exact ⟨ref, object, rfl, found, made⟩
    | _ => exact inhabits.elim
  · rintro ⟨ref, object, rfl, found, made⟩
    exact ⟨object, found, made⟩

theorem Inhabits.isOrdered (inhabits : value.Inhabits store type)
    (ordered : type.isOrdered = true) : value.IsOrdered := by
  rcases Ty.ordered_cases ordered with rfl | rfl | rfl | rfl | rfl <;> cases value <;>
    first | exact inhabits | trivial

/-- A value of an ordered type other than `Comparable` is of the kind that the type names. -/
theorem Inhabits.typeName_eq (inhabits : value.Inhabits store type)
    (ordered : type.isOrdered = true) (specific : type ≠ .comparable) :
    value.typeName = type.name := by
  rcases Ty.ordered_cases ordered with rfl | rfl | rfl | rfl | rfl
  · exact absurd rfl specific
  all_goals cases value <;> first | rfl | exact inhabits.elim

theorem Fits.of_accepts {target source : Ty} (accepts : target.accepts source = true)
    (offered : target.IsOffered) (offered' : source.IsOffered)
    (fits : Fits store source value) : Fits store target value := by
  obtain nil | inhabits := fits
  · exact .inl nil
  · refine .inr ?_
    obtain rfl | ⟨rfl, ordered⟩ | rfl := Ty.accepts_cases offered offered' accepts
    · exact trivial
    · exact inhabits.isOrdered ordered
    · exact inhabits

theorem Fits.literal {literal : Literal} (typed : literal.type = .ok type) :
    Fits store type literal.toValue := by
  cases literal <;> simp only [Literal.type] at typed <;> (try split at typed) <;> cases typed <;>
    exact .inr trivial

theorem compare?_eq_none {first second : Value} (ordered : first.IsOrdered)
    (ordered' : second.IsOrdered) (incomparable : first.compare? second = none) :
    first.typeName ≠ second.typeName := by
  cases first <;> cases second <;> simp_all [IsOrdered, compare?, typeName]

end Value

/-! ## Operators -/

/-- The errors that a run of a checked program cannot do without: nil where a value is needed, and a
divisor of zero. -/
def RunError.UpToNil : RunError → Prop
  | .divisionByZero => True
  | .unexpectedType _ got => got = "Nil"
  | .notIterable got => got = "Nil"
  | .mainNotInteger got => got = "Nil"
  | .invalidOperands _ left right => left = "Nil" ∨ right = "Nil"
  | _ => False

namespace Operator

variable {operator : Operator} {leftType rightType type : Ty} {store : Store}
  {first second : Value}

/-- Whether the operator compares by order. -/
def isOrdering : Operator → Bool
  | .less | .lessEqual | .greater | .greaterEqual => true
  | _ => false

/-- Two ordered values of different kinds, behind a left operand of type `Comparable`. -/
structure Mixes (operator : Operator) (leftType : Ty) (first second : Value) : Prop where
  ordering : operator.isOrdering = true
  comparable : leftType = .comparable
  first_ordered : first.IsOrdered
  second_ordered : second.IsOrdered
  different : first.typeName ≠ second.typeName

/-- An ordering operator gives a truth value, unless its operands cannot be compared. -/
theorem apply_ordering (ordering : operator.isOrdering = true) (first second : Value) :
    (∃ truth, operator.apply first second = .ok (.boolean truth)) ∨
      first.compare? second = none ∧
        operator.apply first second = .error (operator.undefinedFor first second) := by
  cases operator <;> simp only [isOrdering, Bool.false_eq_true] at ordering <;>
    cases found : first.compare? second <;> simp [apply, found, holds?]

theorem type_comparison (comparison : operator.precedence = .comparison)
    (typed : operator.type leftType rightType = .ok type) :
    leftType.isOrdered = true ∧ rightType.isOrdered = true ∧
      leftType.accepts rightType = true ∧ type = .boolean := by
  rw [Operator.type, comparison] at typed
  obtain ⟨⟨⟩, left, rest⟩ := exists_of_bind_eq_ok typed
  obtain ⟨⟨⟩, right, rest⟩ := exists_of_bind_eq_ok rest
  obtain ⟨⟨⟩, both, same⟩ := exists_of_bind_eq_ok rest
  exact ⟨Ty.accepts_of_mustAccept left, Ty.accepts_of_mustAccept right,
    Ty.accepts_of_mustAccept both, (Except.ok.inj same).symm⟩

/-- Ordered operands of different kinds can only come from behind `Comparable`. -/
theorem comparable_of_different (leftOffered : leftType.IsOffered)
    (rightOffered : rightType.IsOffered) (leftOrdered : leftType.isOrdered = true)
    (accepts : leftType.accepts rightType = true)
    (inhabits : first.Inhabits store leftType) (inhabits' : second.Inhabits store rightType)
    (different : first.typeName ≠ second.typeName) : leftType = .comparable := by
  by_contra specific
  obtain rfl | ⟨rfl, -⟩ | rfl := Ty.accepts_cases leftOffered rightOffered accepts
  · cases leftOrdered
  · exact specific rfl
  · exact different ((inhabits.typeName_eq leftOrdered specific).trans
      (inhabits'.typeName_eq leftOrdered specific).symm)

theorem ordering_fits (leftOffered : leftType.IsOffered) (rightOffered : rightType.IsOffered)
    (ordering : operator.isOrdering = true) (leftOrdered : leftType.isOrdered = true)
    (rightOrdered : rightType.isOrdered = true) (accepts : leftType.accepts rightType = true)
    (fits : first.Fits store leftType) (fits' : second.Fits store rightType) :
    (∃ truth, operator.apply first second = .ok (.boolean truth)) ∨
      ∃ error, operator.apply first second = .error error ∧
        (error.UpToNil ∨ operator.Mixes leftType first second) := by
  obtain holds | ⟨incomparable, failed⟩ := apply_ordering ordering first second
  · exact .inl holds
  · refine .inr ⟨_, failed, ?_⟩
    obtain rfl | inhabits := fits
    · exact .inl (.inl rfl)
    obtain rfl | inhabits' := fits'
    · exact .inl (.inr rfl)
    have ordered := inhabits.isOrdered leftOrdered
    have ordered' := inhabits'.isOrdered rightOrdered
    have different := Value.compare?_eq_none ordered ordered' incomparable
    exact .inr ⟨ordering, comparable_of_different leftOffered rightOffered leftOrdered accepts
      inhabits inhabits' different, ordered, ordered', different⟩

theorem arithmeticType?_cases (typed : operator.arithmeticType? leftType rightType = some type) :
    rightType = leftType ∧ type = leftType ∧
      (type = .integer ∨ type = .decimal ∨ type = .string ∧ operator = .add) := by
  unfold arithmeticType? at typed
  split at typed
  · cases typed
    exact ⟨rfl, rfl, .inl rfl⟩
  · cases typed
    exact ⟨rfl, rfl, .inr (.inl rfl)⟩
  · split at typed
    · cases typed
      exact ⟨rfl, rfl, .inr (.inr ⟨rfl, by assumption⟩)⟩
    · cases typed
  · cases typed

theorem type_arithmetic (strict : operator.precedence ≠ .logical)
    (arithmetic : operator.precedence ≠ .comparison)
    (typed : operator.type leftType rightType = .ok type) :
    operator.arithmeticType? leftType rightType = some type := by
  unfold Operator.type at typed
  split at typed
  · exact absurd (by assumption) strict
  · exact absurd (by assumption) arithmetic
  all_goals
    cases found : operator.arithmeticType? leftType rightType <;>
      rw [found] at typed <;> cases typed
    rfl

theorem isOffered_of_type (strict : operator.precedence ≠ .logical)
    (typed : operator.type leftType rightType = .ok type) : type.IsOffered := by
  by_cases comparison : operator.precedence = .comparison
  · obtain ⟨-, -, -, rfl⟩ := type_comparison comparison typed
    exact trivial
  · obtain ⟨-, -, rfl | rfl | ⟨rfl, -⟩⟩ :=
      arithmeticType?_cases (type_arithmetic strict comparison typed) <;> exact trivial

theorem apply_arithmetic (strict : operator.precedence ≠ .logical)
    (arithmetic : operator.precedence ≠ .comparison) (first second : Value) :
    operator.apply first second =
      (operator.arithmetic? first second).getD (.error (operator.undefinedFor first second)) := by
  cases operator <;> simp only [precedence, ne_eq, not_true_eq_false] at strict arithmetic <;>
    simp only [apply] <;> cases arithmetic? _ first second <;> rfl

theorem onIntegers_eq (strict : operator.precedence ≠ .logical)
    (arithmetic : operator.precedence ≠ .comparison) (a b : Int) :
    (∃ c, operator.onIntegers? a b = some (.ok c)) ∨
      operator.onIntegers? a b = some (.error .divisionByZero) := by
  cases operator <;> simp only [precedence, ne_eq, not_true_eq_false] at strict arithmetic
  case divide =>
    by_cases zero : b = 0
    · exact .inr (congrArg some (if_pos zero))
    · exact .inl ⟨_, congrArg some (if_neg zero)⟩
  all_goals exact .inl ⟨_, rfl⟩

theorem onDecimals_eq (strict : operator.precedence ≠ .logical)
    (arithmetic : operator.precedence ≠ .comparison) (a b : Decimal) :
    (∃ c, operator.onDecimals? a b = some (.ok c)) ∨
      operator.onDecimals? a b = some (.error .divisionByZero) := by
  cases operator <;> simp only [precedence, ne_eq, not_true_eq_false] at strict arithmetic
  case divide =>
    by_cases zero : b.isZero = true
    · exact .inr (congrArg some (if_pos zero))
    · exact .inl ⟨_, congrArg some (if_neg zero)⟩
  all_goals exact .inl ⟨_, rfl⟩

/-- Arithmetic on two values that are not nil. -/
theorem arithmetic?_inhabits (strict : operator.precedence ≠ .logical)
    (arithmetic : operator.precedence ≠ .comparison)
    (typed : operator.arithmeticType? leftType rightType = some type)
    (inhabits : first.Inhabits store leftType) (inhabits' : second.Inhabits store rightType) :
    (∃ value, operator.arithmetic? first second = some (.ok value) ∧ value.Inhabits store type) ∨
      operator.arithmetic? first second = some (.error .divisionByZero) := by
  obtain ⟨rfl, rfl, rfl | rfl | ⟨rfl, rfl⟩⟩ := arithmeticType?_cases typed
  · obtain ⟨a, rfl⟩ := Value.inhabits_integer.mp inhabits
    obtain ⟨b, rfl⟩ := Value.inhabits_integer.mp inhabits'
    obtain ⟨c, result⟩ | result := onIntegers_eq strict arithmetic a b
    · exact .inl ⟨.integer c, by rw [arithmetic?, result]; rfl, trivial⟩
    · exact .inr (by rw [arithmetic?, result]; rfl)
  · obtain ⟨a, rfl⟩ := Value.inhabits_decimal.mp inhabits
    obtain ⟨b, rfl⟩ := Value.inhabits_decimal.mp inhabits'
    obtain ⟨c, result⟩ | result := onDecimals_eq strict arithmetic a b
    · exact .inl ⟨.decimal c, by rw [arithmetic?, result]; rfl, trivial⟩
    · exact .inr (by rw [arithmetic?, result]; rfl)
  · obtain ⟨a, rfl⟩ := Value.inhabits_string.mp inhabits
    obtain ⟨b, rfl⟩ := Value.inhabits_string.mp inhabits'
    exact .inl ⟨_, rfl, trivial⟩

theorem arithmetic_fits (strict : operator.precedence ≠ .logical)
    (arithmetic : operator.precedence ≠ .comparison)
    (typed : operator.arithmeticType? leftType rightType = some type)
    (fits : first.Fits store leftType) (fits' : second.Fits store rightType) :
    (∃ value, operator.apply first second = .ok value ∧ value.Fits store type) ∨
      ∃ error, operator.apply first second = .error error ∧ error.UpToNil := by
  rw [apply_arithmetic strict arithmetic]
  obtain rfl | inhabits := fits
  · exact .inr ⟨_, rfl, .inl rfl⟩
  obtain rfl | inhabits' := fits'
  · exact .inr ⟨operator.undefinedFor first .nil, by cases first <;> rfl, .inr rfl⟩
  obtain ⟨value, result, inhabits''⟩ | result :=
    arithmetic?_inhabits strict arithmetic typed inhabits inhabits'
  · exact .inl ⟨value, by rw [result]; rfl, .inr inhabits''⟩
  · exact .inr ⟨.divisionByZero, by rw [result]; rfl, trivial⟩

/-- A strict operator on operands of the types that it was checked for. -/
theorem apply_fits (leftOffered : leftType.IsOffered) (rightOffered : rightType.IsOffered)
    (strict : operator.precedence ≠ .logical)
    (typed : operator.type leftType rightType = .ok type)
    (fits : first.Fits store leftType) (fits' : second.Fits store rightType) :
    (∃ value, operator.apply first second = .ok value ∧ value.Fits store type) ∨
      ∃ error, operator.apply first second = .error error ∧
        (error.UpToNil ∨ operator.Mixes leftType first second) := by
  by_cases comparison : operator.precedence = .comparison
  · obtain ⟨leftOrdered, rightOrdered, accepts, rfl⟩ := type_comparison comparison typed
    by_cases ordering : operator.isOrdering = true
    · obtain ⟨truth, holds⟩ | failed := ordering_fits leftOffered rightOffered ordering
        leftOrdered rightOrdered accepts fits fits'
      · exact .inl ⟨_, holds, .inr trivial⟩
      · exact .inr failed
    · cases operator <;> first | exact absurd rfl ordering | cases comparison
      all_goals exact .inl ⟨_, rfl, .inr trivial⟩
  · have arithmetic := type_arithmetic strict comparison typed
    obtain done | ⟨error, failed, harmless⟩ :=
      arithmetic_fits strict comparison arithmetic fits fits'
    · exact .inl done
    · exact .inr ⟨error, failed, .inl harmless⟩

end Operator

end Primer
