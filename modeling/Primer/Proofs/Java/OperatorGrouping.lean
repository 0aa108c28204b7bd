import Primer.Proofs.Java.Emission
import Primer.Proofs.Pipeline.Computation

/-!
# Operators in Java

An expression is written without parentheses other than its own, so Java groups its operators by its
own levels.  The two tables differ in two ways: Java puts the six comparisons on two levels, and it
puts `&&` above `||`, which are one level here.  Types rule out that the first matters.  The second
does: a disjunction that is the left operand of a conjunction is read as something else.

The other thing that Java reads differently is a hyphen in a name, which it takes for a minus sign.

`Environment.java_reads_tree_iff` says that there is no third.
-/

namespace Primer

open Java

namespace Expression

/-! ## Conditions on a node -/

/-- Not a conjunction of a bare disjunction with something. -/
def Unmixed : Expression → Prop
  | .binary _ operator left _ => operator = .and → left.tree.operator? ≠ some .or
  | _ => True

instance : DecidablePred Unmixed
  | .binary _ operator left _ =>
    inferInstanceAs (Decidable (operator = .and → left.tree.operator? ≠ some .or))
  | .literal .. | .group .. | .access .. | .memberAccess .. | .call .. | .memberCall .. =>
    .isTrue trivial

/-- Not a name with a hyphen. -/
def Unhyphened : Expression → Prop
  | .access _ name _ | .call _ name _ _ => '-' ∉ name.toList
  | _ => True

instance : DecidablePred Unhyphened
  | .access _ name _ | .call _ name _ _ => inferInstanceAs (Decidable ('-' ∉ name.toList))
  | .literal .. | .group .. | .binary .. | .memberAccess .. | .memberCall .. => .isTrue trivial

/-! ## Operators -/

theorem looseness_of_mem_operator? {e : Expression} {operator : Operator}
    (found : operator ∈ e.tree.operator?) : e.looseness = operator.looseness := by
  cases e with
  | binary note top left right =>
    cases found
    rfl
  | _ => cases found

mutual

/-- Every operator stands where the language itself puts it. -/
theorem canonical_tree : (e : Expression) → e.Everywhere Rules.settled.expression →
    e.tree.Canonical Dialect.primer.looseness
  | .literal .., _ | .access .., _ => trivial
  | .group _ inner, settled => canonical_tree inner settled.2
  | .binary _ operator left right, ⟨⟨leftLoose, rightLoose, _⟩, onLeft, onRight⟩ => by
    refine ⟨?_, ?_, canonical_tree left onLeft, canonical_tree right onRight⟩
    · intro other found
      rw [looseness_of_mem_operator? found] at leftLoose
      exact leftLoose
    · intro other found
      rw [looseness_of_mem_operator? found] at rightLoose
      exact rightLoose
  | .call _ _ args _, settled => canonical_trees args settled.2
  | .memberAccess .., settled => absurd settled.1 id
  | .memberCall .., settled => absurd settled.1 id

theorem canonical_trees : (es : List Expression) → EverywhereAll Rules.settled.expression es →
    Tree.CanonicalAll Dialect.primer.looseness (trees es)
  | [], _ => trivial
  | e :: es, settled => ⟨canonical_tree e settled.1, canonical_trees es settled.2⟩

end

/-- Of two operators that stand in the order of the language, Java has the right one tighter as
well. -/
theorem java_looseness_lt {inner outer : Operator} (tighter : inner.looseness < outer.looseness) :
    Dialect.java.looseness inner < Dialect.java.looseness outer := by
  revert tighter
  cases inner <;> cases outer <;> decide

/-- Of two operators that stand in the order of the language and are not both comparisons, Java has
the left one no looser, unless it is a disjunction in a conjunction. -/
theorem java_looseness_le_iff {inner outer : Operator} (loose : inner.looseness ≤ outer.looseness)
    (masked : outer.precedence = .comparison → inner.looseness ≠ outer.looseness) :
    Dialect.java.looseness inner ≤ Dialect.java.looseness outer ↔
      ¬ (inner = .or ∧ outer = .and) := by
  revert loose masked
  cases inner <;> cases outer <;> decide

theorem unmixed_binary_iff {note : Note} {operator : Operator} {left right : Expression} :
    (binary note operator left right).Unmixed ↔
      ∀ inner ∈ left.tree.operator?, ¬ (inner = .or ∧ operator = .and) := by
  show (operator = .and → left.tree.operator? ≠ some .or) ↔ _
  constructor
  · rintro unmixed inner found ⟨rfl, rfl⟩
    exact unmixed rfl found
  · rintro unmixed rfl found
    exact unmixed .or found ⟨rfl, rfl⟩

mutual

/-- Java puts every operator where it stands exactly if no bare disjunction is the left operand of a
conjunction. -/
theorem canonical_java_iff : (e : Expression) → e.Everywhere Rules.settled.expression →
    (e.tree.Canonical Dialect.java.looseness ↔ e.Everywhere Unmixed)
  | .literal .., _ | .access .., _ => Iff.rfl
  | .group _ inner, settled => by
    have inside := canonical_java_iff inner settled.2
    exact ⟨fun canonical => ⟨trivial, inside.mp canonical⟩, fun unmixed => inside.mpr unmixed.2⟩
  | .binary note operator left right, ⟨⟨leftLoose, rightLoose, masked⟩, onLeft, onRight⟩ => by
    have insideLeft := canonical_java_iff left onLeft
    have insideRight := canonical_java_iff right onRight
    have tighter : ∀ other ∈ right.tree.operator?,
        Dialect.java.looseness other < Dialect.java.looseness operator := by
      intro other found
      rw [looseness_of_mem_operator? found] at rightLoose
      exact java_looseness_lt rightLoose
    have here : (∀ other ∈ left.tree.operator?,
        Dialect.java.looseness other ≤ Dialect.java.looseness operator) ↔
        (binary note operator left right).Unmixed := by
      rw [unmixed_binary_iff]
      refine forall₂_congr fun other found => ?_
      have same := looseness_of_mem_operator? found
      rw [same] at leftLoose masked
      exact java_looseness_le_iff leftLoose masked
    exact ⟨fun ⟨loose, _, canonicalLeft, canonicalRight⟩ =>
        ⟨here.mp loose, insideLeft.mp canonicalLeft, insideRight.mp canonicalRight⟩,
      fun ⟨unmixed, unmixedLeft, unmixedRight⟩ =>
        ⟨here.mpr unmixed, tighter, insideLeft.mpr unmixedLeft, insideRight.mpr unmixedRight⟩⟩
  | .call _ _ args _, settled => by
    have inside := canonicalAll_java_iff args settled.2
    exact ⟨fun canonical => ⟨trivial, inside.mp canonical⟩, fun unmixed => inside.mpr unmixed.2⟩
  | .memberAccess .., settled => absurd settled.1 id
  | .memberCall .., settled => absurd settled.1 id

theorem canonicalAll_java_iff : (es : List Expression) →
    EverywhereAll Rules.settled.expression es →
    (Tree.CanonicalAll Dialect.java.looseness (trees es) ↔ EverywhereAll Unmixed es)
  | [], _ => Iff.rfl
  | e :: es, settled =>
    and_congr (canonical_java_iff e settled.1) (canonicalAll_java_iff es settled.2)

end

end Expression

/-! ## Names -/

/-- A number does not start like a name. -/
theorem Java.IsSigned.fitsName {namePart : Char → Bool} {text : String}
    (isSigned : IsSigned text.toList) : FitsName namePart text := by
  intro c cs spelled first
  rcases isSigned.exists_cons with ⟨c', cs', same, digit | rfl⟩
  · obtain ⟨rfl, -⟩ := List.cons.inj (spelled.symm.trans same)
    rw [Lexeme.isIdentifierStart_of_isDigit digit] at first
    cases first
  · obtain ⟨rfl, -⟩ := List.cons.inj (spelled.symm.trans same)
    exact absurd first (by decide)

theorem Java.fitsName_of_all {namePart : Char → Bool} {text : String}
    (parts : text.toList.tail.all namePart = true) : FitsName namePart text := by
  intro c cs spelled _
  rw [spelled] at parts
  exact List.all_eq_true.mp parts

theorem Literal.fitsName_toJava (value : Literal) :
    FitsName Dialect.java.namePart value.toJava := by
  cases value with
  | nil => exact fitsName_of_all (by decide)
  | boolean value => cases value <;> exact fitsName_of_all (by decide)
  | integer value => exact (Numeral.isSigned_render value).fitsName
  | decimal value => exact value.isSigned_render.fitsName
  | character value => exact fitsName_of_head rfl
  | string value => exact fitsName_of_head rfl

/-- An identifier is a name in Java exactly if it has no hyphen. -/
theorem IsIdentifier.fitsName_iff {name : String} (isIdentifier : IsIdentifier name) :
    FitsName Dialect.java.namePart name ↔ '-' ∉ name.toList := by
  obtain ⟨c, cs, spelled, first, parts⟩ := isIdentifier.exists_cons
  rw [spelled]
  constructor
  · intro fits hyphen
    rcases List.mem_cons.mp hyphen with rfl | hyphen
    · exact absurd first (by decide)
    · exact absurd (fits c cs spelled first '-' hyphen) (by decide)
  · intro noHyphen c' cs' spelled' _ d member
    obtain ⟨rfl, rfl⟩ := List.cons.inj (spelled.symm.trans spelled')
    have other : d ≠ '-' := by
      rintro rfl
      exact noHyphen (.tail _ member)
    have part := parts d member
    simp only [Lexeme.isIdentifierPart, Bool.or_eq_true, beq_iff_eq, other, or_false] at part
    simp only [Dialect.java, Bool.or_eq_true, beq_iff_eq, part, true_or]

theorem FunctionKey.fitsName_iff {key : FunctionKey} (isIdentifier : IsIdentifier key.name) :
    FitsName Dialect.java.namePart key.javaName ↔ '-' ∉ key.name.toList := by
  unfold FunctionKey.javaName
  split
  · rename_i print
    rw [print]
    exact ⟨fun _ => by decide, fun _ => fitsName_of_all (by decide)⟩
  · exact isIdentifier.fitsName_iff

namespace Expression

mutual

theorem namesFit_java_iff : (e : Expression) → e.Everywhere Rules.settled.expression →
    (e.tree.NamesFit Dialect.java.namePart ↔ e.Everywhere Unhyphened)
  | .literal _ value, _ => ⟨fun _ => trivial, fun _ => value.fitsName_toJava⟩
  | .group _ inner, settled => by
    have inside := namesFit_java_iff inner settled.2
    exact ⟨fun fit => ⟨trivial, inside.mp fit⟩, fun plain => inside.mpr plain.2⟩
  | .binary _ operator left right, ⟨_, onLeft, onRight⟩ => by
    have insideLeft := namesFit_java_iff left onLeft
    have insideRight := namesFit_java_iff right onRight
    exact ⟨fun fit => ⟨trivial, insideLeft.mp fit.1, insideRight.mp fit.2⟩,
      fun plain => ⟨insideLeft.mpr plain.2.1, insideRight.mpr plain.2.2⟩⟩
  | .access _ name _, ⟨isIdentifier, found, bound, sameName⟩ => by
    subst bound
    show FitsName _ found.javaName ↔ _
    rw [sameName]
    exact isIdentifier.fitsName_iff
  | .call _ name args _, ⟨⟨isIdentifier, found, bound, sameName⟩, settled⟩ => by
    subst bound
    have inside := namesFitAll_java_iff args settled
    have here : FitsName Dialect.java.namePart found.javaName ↔ '-' ∉ name.toList := by
      rw [sameName]
      exact FunctionKey.fitsName_iff isIdentifier
    exact and_congr here inside
  | .memberAccess .., settled => absurd settled.1 id
  | .memberCall .., settled => absurd settled.1 id

theorem namesFitAll_java_iff : (es : List Expression) → EverywhereAll Rules.settled.expression es →
    (Tree.EachAll (FitsName Dialect.java.namePart) (FitsName Dialect.java.namePart) (trees es) ↔
      EverywhereAll Unhyphened es)
  | [], _ => Iff.rfl
  | e :: es, settled =>
    and_congr (namesFit_java_iff e settled.1) (namesFitAll_java_iff es settled.2)

end

/-- Who reads the text as the language does gets the tree. -/
theorem read_primer {e : Expression} (settled : e.Everywhere Rules.settled.expression) :
    Java.read .primer e.tree.text = some e.tree := by
  rw [Tree.read_text (e.lexical_tree settled),
    Tree.regroup_eq_self_iff.mpr (e.canonical_tree settled)]

end Expression

/-- Every expression of a program is written in Java, and its text keeps its operators and operands
for who reads it as the language does.  Java reads the same tree if and only if no bare disjunction
is the left operand of a conjunction and no name has a hyphen. -/
theorem Environment.java_reads_tree_iff {source : String} {program : Program}
    (loaded : Environment.standard.load source = .ok program) :
    ∀ e ∈ program.expressions, ∃ text, e.toJava = .ok text ∧
      Java.read .primer text = some e.tree ∧
      (Java.read .java text = some e.tree ↔
        e.Everywhere Expression.Unmixed ∧ e.Everywhere Expression.Unhyphened) := by
  intro e member
  have settled := Program.everywhere_of_mem_expressions (settled_of_load loaded) e member
  refine ⟨e.tree.text, e.toJava_eq_text settled, Expression.read_primer settled, ?_⟩
  rw [Tree.read_text_eq_self_iff (e.lexical_tree settled), e.canonical_java_iff settled,
    e.namesFit_java_iff settled]

/-- A program whose condition Java groups as it stands. -/
def looseDisjunction : String :=
  "DEF main(): Integer DO
     LET a = TRUE; WHILE a AND 1 + 2 * 3 < 4 OR (a OR a) DO a = FALSE; END RETURN 0;
   END"

theorem Environment.java_reads_tree_iff_looseDisjunction :
    ∃ program, Environment.standard.load looseDisjunction = .ok program ∧
      ∃ e ∈ program.expressions, e.toJava = .ok "a && 1 + 2 * 3 < 4 || (a || a)" ∧
        Java.read .java "a && 1 + 2 * 3 < 4 || (a || a)" = some e.tree := by
  have computed : ∃ program, Environment.standard.load looseDisjunction = .ok program ∧
      ∃ e ∈ program.expressions, e.toJava = .ok "a && 1 + 2 * 3 < 4 || (a || a)" ∧
        e.Everywhere Expression.Unmixed ∧ e.Everywhere Expression.Unhyphened := by
    rw [looseDisjunction, Environment.load_ofList]
    decide +kernel
  obtain ⟨program, loaded, e, member, written, unmixed, unhyphened⟩ := computed
  obtain ⟨text, emitted, -, reads⟩ := Environment.java_reads_tree_iff loaded e member
  obtain rfl := Except.ok.inj (emitted.symm.trans written)
  exact ⟨program, loaded, e, member, emitted, reads.mpr ⟨unmixed, unhyphened⟩⟩

/-- A program whose condition is a conjunction of a bare disjunction with something. -/
def bareDisjunction : String :=
  "DEF main(): Integer DO IF TRUE OR TRUE AND FALSE DO RETURN 1; END RETURN 0; END"

/-- Java reads the condition as a disjunction, which is true.  It is a conjunction, and false. -/
theorem Environment.java_misreads_bareDisjunction :
    ∃ program, Environment.standard.load bareDisjunction = .ok program ∧
      program.run .standard 9 = .value ⟨0, []⟩ ∧
      ∃ e ∈ program.expressions, e.toJava = .ok "true || true && false" ∧
        e.tree = .binary .and (.binary .or (.leaf "true") (.leaf "true")) (.leaf "false") ∧
        Java.read .java "true || true && false" =
          some (.binary .or (.leaf "true") (.binary .and (.leaf "true") (.leaf "false"))) := by
  have computed : ∃ program, Environment.standard.load bareDisjunction = .ok program ∧
      program.run .standard 9 = .value ⟨0, []⟩ ∧
      ∃ e ∈ program.expressions, e.toJava = .ok "true || true && false" := by
    rw [bareDisjunction, Environment.load_ofList]
    decide +kernel
  obtain ⟨program, loaded, ran, e, member, written⟩ := computed
  have settled := Program.everywhere_of_mem_expressions (settled_of_load loaded) e member
  have reads := Expression.read_primer settled
  rw [Except.ok.inj ((e.toJava_eq_text settled).symm.trans written)] at reads
  exact ⟨program, loaded, ran, e, member, written, Option.some.inj (reads.symm.trans rfl), rfl⟩

end Primer
