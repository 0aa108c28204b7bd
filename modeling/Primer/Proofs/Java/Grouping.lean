import Primer.Syntax.Operator

/-!
# How a reader groups operators

A reader meets operands and operators from left to right.  It knows how loosely each operator
binds: a new operator takes as its left operand as much of what stands before it as binds no looser
than itself, so operators of one level group to the left.

`Tree.regroup` is what a reader makes of the operands and operators of a tree.  It always gives a
tree in which every operator stands where a text can put it, and it gives back the tree itself
exactly if that was such a tree (`Tree.regroup_eq_self_iff`).  Nothing here depends on the table
that says how loosely the operators bind.
-/

namespace Primer.Java

/-- An expression up to the spelling of its operands. -/
inductive Tree where
  | leaf (text : String)
  | group (inner : Tree)
  | binary (operator : Operator) (left right : Tree)
  | call (name : String) (arguments : List Tree)

/-- Where the next operand goes: in front, or behind what was read so far and an operator. -/
inductive Place where
  | front
  | behind (before : Tree) (operator : Operator)

/-- The operator at the top. -/
def Tree.operator? : Tree → Option Operator
  | .binary operator _ _ => some operator
  | _ => none

section

variable (looseness : Operator → Nat)

/-- Reads on with an operator and an operand.  An operator that binds tighter than the one at the
top belongs to the right operand of that one. -/
def Tree.extend (before : Tree) (operator : Operator) (operand : Tree) : Tree :=
  match before with
  | .binary top left right =>
    if looseness operator < looseness top then
      .binary top left (right.extend operator operand)
    else
      .binary operator (.binary top left right) operand
  | before => .binary operator before operand

/-- Puts the next operand in its place. -/
def Place.fill : Place → Tree → Tree
  | .front, operand => operand
  | .behind before operator, operand => before.extend looseness operator operand

mutual

/-- What a reader has behind the text of a tree, if it reads on at `place`. -/
def Tree.readAt (place : Place) : Tree → Tree
  | .leaf text => place.fill looseness (.leaf text)
  | .group inner => place.fill looseness (.group (Tree.readAt .front inner))
  | .binary operator left right => Tree.readAt (.behind (Tree.readAt place left) operator) right
  | .call name arguments => place.fill looseness (.call name (Tree.regroupAll arguments))

/-- What a reader makes of each argument. -/
def Tree.regroupAll : List Tree → List Tree
  | [] => []
  | tree :: trees => Tree.readAt .front tree :: Tree.regroupAll trees

end

/-- What a reader makes of the text of a tree. -/
def Tree.regroup (tree : Tree) : Tree :=
  tree.readAt looseness .front

mutual

/-- Every operator stands between a left operand that binds no looser and a right operand that binds
tighter. -/
def Tree.Canonical : Tree → Prop
  | .leaf _ => True
  | .group inner => inner.Canonical
  | .binary operator left right =>
    (∀ other ∈ left.operator?, looseness other ≤ looseness operator) ∧
      (∀ other ∈ right.operator?, looseness other < looseness operator) ∧
      left.Canonical ∧ right.Canonical
  | .call _ arguments => Tree.CanonicalAll arguments

def Tree.CanonicalAll : List Tree → Prop
  | [] => True
  | tree :: trees => tree.Canonical ∧ Tree.CanonicalAll trees

end

end

namespace Tree

variable {looseness : Operator → Nat} {operator top : Operator}
  {tree before left right operand : Tree}

/-! ## Reading on -/

/-- An operator takes everything that binds no looser. -/
theorem extend_of_le (loose : ∀ other ∈ before.operator?, looseness other ≤ looseness operator) :
    before.extend looseness operator operand = .binary operator before operand := by
  cases before with
  | binary top left right =>
    have le := loose top rfl
    rw [extend, if_neg (by omega)]
  | _ => rfl

/-- An operand with operators of its own is read as one by an operator that is looser than those. -/
theorem extend_extend (tighter : looseness operator < looseness top)
    (loose : ∀ other ∈ left.operator?, looseness other ≤ looseness operator) :
    (before.extend looseness top left).extend looseness operator right =
      before.extend looseness top (.binary operator left right) := by
  -- where the outer operator is put, the inner one goes into its right operand
  have inside : ∀ before : Tree, (binary top before left).extend looseness operator right =
      .binary top before (.binary operator left right) := by
    intro before
    rw [extend, if_pos tighter, extend_of_le loose]
  fun_induction extend looseness before top left with
  | case1 outer first second looser ih =>
    have tightest : looseness operator < looseness outer := by omega
    rw [extend, if_pos tightest, ih, extend, if_pos looser]
  | case2 outer first second tight => rw [inside, extend, if_neg tight]
  | case3 before atom =>
    rw [inside, extend]
    exact atom

/-- The operator at the top afterwards is the one that was there or the new one. -/
theorem operator?_extend {other : Operator}
    (found : other ∈ (before.extend looseness operator operand).operator?) :
    other = operator ∨ other ∈ before.operator? := by
  unfold extend at found
  split at found
  · split at found
    · exact .inr found
    · exact .inl (Option.some.inj found).symm
  · exact .inl (Option.some.inj found).symm

theorem Canonical.extend (canonical : before.Canonical looseness)
    (isOperand : operand.operator? = none) (inside : operand.Canonical looseness) :
    (before.extend looseness operator operand).Canonical looseness := by
  have none : ∀ bound, ∀ other ∈ operand.operator?, looseness other < bound := by
    rw [isOperand]
    exact fun _ _ found => nomatch found
  fun_induction Tree.extend looseness before operator operand with
  | case1 top left right tighter ih =>
    obtain ⟨leftLoose, rightLoose, leftCanonical, rightCanonical⟩ := canonical
    refine ⟨leftLoose, ?_, leftCanonical, ih rightCanonical⟩
    intro other found
    obtain rfl | found := operator?_extend found
    · exact tighter
    · exact rightLoose other found
  | case2 top left right loose =>
    refine ⟨?_, none _, canonical, inside⟩
    rintro other ⟨⟩
    omega
  | case3 before atom =>
    refine ⟨?_, none _, canonical, inside⟩
    intro other found
    cases before with
    | binary top left right => exact absurd rfl (atom top left right)
    | _ => cases found

end Tree

/-! ## Reading is canonical -/

namespace Place

variable {looseness : Operator → Nat} {place : Place} {operand : Tree}

/-- What was read so far is canonical. -/
def Canonical (looseness : Operator → Nat) : Place → Prop
  | .front => True
  | .behind before _ => before.Canonical looseness

theorem Canonical.fill (canonical : place.Canonical looseness)
    (isOperand : operand.operator? = none) (inside : operand.Canonical looseness) :
    (place.fill looseness operand).Canonical looseness := by
  cases place with
  | front => exact inside
  | behind before operator => exact Tree.Canonical.extend canonical isOperand inside

end Place

mutual

theorem Tree.canonical_readAt (looseness : Operator → Nat) :
    (tree : Tree) → {place : Place} → place.Canonical looseness →
      (tree.readAt looseness place).Canonical looseness
  | .leaf _, _, canonical => canonical.fill rfl trivial
  | .group inner, _, canonical =>
    canonical.fill rfl (Tree.canonical_readAt looseness inner trivial)
  | .binary _ left right, _, canonical =>
    Tree.canonical_readAt looseness right (Tree.canonical_readAt looseness left canonical)
  | .call _ arguments, _, canonical =>
    canonical.fill rfl (Tree.canonicalAll_regroupAll looseness arguments)

theorem Tree.canonicalAll_regroupAll (looseness : Operator → Nat) :
    (trees : List Tree) → Tree.CanonicalAll looseness (Tree.regroupAll looseness trees)
  | [] => trivial
  | tree :: trees =>
    ⟨Tree.canonical_readAt looseness tree trivial, Tree.canonicalAll_regroupAll looseness trees⟩

end

/-! ## Canonical trees are read back -/

/-- An operand with operators of its own can go to a place as one. -/
def Place.Takes (looseness : Operator → Nat) (place : Place) (tree : Tree) : Prop :=
  match place with
  | .front => True
  | .behind _ operator => ∀ other ∈ tree.operator?, looseness other < looseness operator

theorem Place.fill_binary {looseness : Operator → Nat} {place : Place} {operator : Operator}
    {left right : Tree} (takes : place.Takes looseness (.binary operator left right))
    (loose : ∀ other ∈ left.operator?, looseness other ≤ looseness operator) :
    (place.fill looseness left).extend looseness operator right =
      place.fill looseness (.binary operator left right) := by
  cases place with
  | front => exact Tree.extend_of_le loose
  | behind before top => exact Tree.extend_extend (takes operator rfl) loose

mutual

theorem Tree.readAt_of_canonical (looseness : Operator → Nat) :
    (tree : Tree) → tree.Canonical looseness → (place : Place) → place.Takes looseness tree →
      tree.readAt looseness place = place.fill looseness tree
  | .leaf _, _, _, _ => rfl
  | .group inner, canonical, place, _ => by
    have back : inner.readAt looseness .front = inner :=
      Tree.readAt_of_canonical looseness inner canonical .front trivial
    rw [Tree.readAt, back]
  | .binary operator left right, canonical, place, takes => by
    obtain ⟨leftLoose, rightLoose, leftCanonical, rightCanonical⟩ := canonical
    have takesLeft : place.Takes looseness left := by
      cases place with
      | front => trivial
      | behind before top =>
        intro other found
        exact Nat.lt_of_le_of_lt (leftLoose other found) (takes operator rfl)
    rw [Tree.readAt, Tree.readAt_of_canonical looseness left leftCanonical place takesLeft,
      Tree.readAt_of_canonical looseness right rightCanonical (.behind _ operator) rightLoose,
      Place.fill,
      Place.fill_binary takes leftLoose]
  | .call _ arguments, canonical, place, _ => by
    rw [Tree.readAt, Tree.regroupAll_of_canonical looseness arguments canonical]

theorem Tree.regroupAll_of_canonical (looseness : Operator → Nat) :
    (trees : List Tree) → Tree.CanonicalAll looseness trees →
      Tree.regroupAll looseness trees = trees
  | [], _ => rfl
  | tree :: trees, ⟨first, others⟩ => by
    have back : tree.readAt looseness .front = tree :=
      Tree.readAt_of_canonical looseness tree first .front trivial
    rw [Tree.regroupAll, back, Tree.regroupAll_of_canonical looseness trees others]

end

/-- A reader gives back a tree exactly if every operator of it stands where a text can put it. -/
theorem Tree.regroup_eq_self_iff {looseness : Operator → Nat} {tree : Tree} :
    tree.regroup looseness = tree ↔ tree.Canonical looseness := by
  constructor
  · intro same
    rw [← same]
    exact Tree.canonical_readAt looseness tree trivial
  · intro canonical
    exact Tree.readAt_of_canonical looseness tree canonical .front trivial

end Primer.Java
