import Primer.Proofs.Evaluation.Bare
import Primer.Proofs.Java.Sentences

/-!
# What Java text determines

The Java text of a program determines the bare program, and with it all runs, as long as no part of
it is ambiguous (`Environment.run_eq_of_compile_eq`).  The lines of the program are read back one by
one, and from what they say the blocks are put together again.
-/

namespace Primer

open Java

/-! ## Expressions on a line -/

namespace Java

/-- A text on one line that does not begin with an equals sign. -/
def IsPiece (text : List Char) : Prop :=
  (∃ c cs, text = c :: cs ∧ c ≠ '=') ∧ '\n' ∉ text

theorem IsSolid.isPiece {text : List Char} (isSolid : IsSolid text) : IsPiece text := by
  rcases List.exists_cons_of_ne_nil isSolid.1 with ⟨c, cs, rfl⟩
  refine ⟨⟨c, cs, rfl, ?_⟩, isSolid.not_mem (by decide)⟩
  rintro rfl
  exact isSolid.not_mem (by decide) List.mem_cons_self

theorem IsNumber.characters {text : List Char} (isNumber : IsNumber text) :
    ∀ c ∈ text, c.isDigit = true ∨ c ∈ ['.', 'E', '-'] := by
  rcases isNumber with ⟨whole, fraction, exponent, rfl, isDigits, isFraction, isExponent⟩
  intro c member
  rcases List.mem_append.mp member with member | member
  · exact .inl (isDigits.isDigit c member)
  rcases List.mem_append.mp member with member | member
  · rcases isFraction.characters c member with digit | rfl
    · exact .inl digit
    · exact .inr (by decide)
  rcases isExponent with rfl | ⟨digits, isDigits, rfl⟩
  · exact absurd member List.not_mem_nil
  simp only [List.mem_cons] at member
  rcases member with rfl | rfl | member
  · exact .inr (by decide)
  · exact .inr (by decide)
  · exact .inl (isDigits.isDigit c member)

theorem IsNumber.isPiece {text : List Char} (isNumber : IsNumber text) : IsPiece text := by
  have characters := isNumber.characters
  rcases (show IsSigned text from .inl isNumber).exists_cons with ⟨c, cs, rfl, -⟩
  refine ⟨⟨c, cs, rfl, ?_⟩, fun member => absurd (characters '\n' member) (by decide)⟩
  rintro rfl
  exact absurd (characters '=' List.mem_cons_self) (by decide)

theorem newline_not_mem_encode (quote : Char) (body : List Char) :
    '\n' ∉ Escape.encode quote body := by
  intro member
  rcases List.mem_flatMap.mp member with ⟨c, -, member⟩
  unfold Escape.spelling at member
  split at member
  case h_6 notBackspace notNewline notReturn notTab notBackslash =>
    split at member
    · rcases List.mem_pair.mp member with slash | same
      · exact absurd slash (by decide)
      · exact notNewline same.symm
    · exact notNewline (List.mem_singleton.mp member).symm
  all_goals exact absurd member (by decide)

theorem IsOperand.isPiece {text : List Char} (isOperand : IsOperand Dialect.primer.namePart text) :
    IsPiece text := by
  cases isOperand with
  | name isName => exact isName.isSolid.isPiece
  | number isNumber => exact isNumber.isPiece
  | negative isNumber =>
    refine ⟨⟨'-', _, rfl, by decide⟩, ?_⟩
    simpa using isNumber.isPiece.2
  | quoted isQuoted =>
    rcases isQuoted with ⟨quote, body, isQuote, rfl⟩
    have notBreak : quote ≠ '\n' ∧ quote ≠ '=' := by
      rcases isQuote with rfl | rfl <;> decide
    refine ⟨⟨quote, _, rfl, notBreak.2⟩, ?_⟩
    simp [notBreak.1.symm, newline_not_mem_encode]

theorem newline_not_mem_operator (operator : Operator) : '\n' ∉ operator.toJava.toList := by
  cases operator <;> decide

mutual

theorem Tree.isPiece_text : (tree : Tree) → tree.Lexical Dialect.primer.namePart →
    IsPiece tree.text.toList
  | .leaf text, lexical => IsOperand.isPiece lexical
  | .group inner, lexical => by
    have inside := (Tree.isPiece_text inner lexical).2
    refine ⟨⟨'(', inner.text.toList ++ [')'], by simp [Tree.text], by decide⟩, ?_⟩
    simp [Tree.text, inside]
  | .binary operator left right, lexical => by
    rcases Tree.isPiece_text left lexical.1 with ⟨⟨c, cs, spelled, notEquals⟩, onLeft⟩
    have onRight := (Tree.isPiece_text right lexical.2).2
    refine ⟨⟨c, _, by simp only [Tree.text, String.toList_append, spelled]; rfl, notEquals⟩, ?_⟩
    simp [Tree.text, onLeft, onRight, newline_not_mem_operator]
  | .call name arguments, ⟨isName, lexical⟩ => by
    rcases (IsJavaName.isSolid isName).isPiece with ⟨⟨c, cs, spelled, notEquals⟩, named⟩
    have inside := Tree.newline_not_mem_listText arguments lexical
    refine ⟨⟨c, _, by simp only [Tree.text, String.toList_append, spelled]; rfl, notEquals⟩, ?_⟩
    simp [Tree.text, named, inside]

theorem Tree.newline_not_mem_listText : (trees : List Tree) →
    Tree.EachAll (IsOperand Dialect.primer.namePart ·.toList)
      (IsJavaName Dialect.primer.namePart ·.toList) trees → '\n' ∉ (Tree.listText trees).toList
  | [], _ => by simp [Tree.listText]
  | tree :: trees, lexical => by
    have first := (Tree.isPiece_text tree lexical.1).2
    have others := Tree.newline_not_mem_moreText trees lexical.2
    simp [Tree.listText, first, others]

theorem Tree.newline_not_mem_moreText : (trees : List Tree) →
    Tree.EachAll (IsOperand Dialect.primer.namePart ·.toList)
      (IsJavaName Dialect.primer.namePart ·.toList) trees → '\n' ∉ (Tree.moreText trees).toList
  | [], _ => by simp [Tree.moreText]
  | tree :: trees, lexical => by
    have first := (Tree.isPiece_text tree lexical.1).2
    have others := Tree.newline_not_mem_moreText trees lexical.2
    simp [Tree.moreText, first, others]

end

end Java

theorem Expression.denotes_text {e : Expression} (settled : e.Everywhere Rules.settled.expression)
    (unambiguous : e.Everywhere Expression.Unambiguous) : Denotes e.tree.text e.bare := by
  rcases Tree.isPiece_text e.tree (e.lexical_tree settled) with
    ⟨⟨c, cs, spelled, notEquals⟩, oneLine⟩
  refine ⟨Expression.expression?_text settled unambiguous, oneLine, ?_⟩
  rw [spelled]
  rintro ⟨⟩
  exact notEquals rfl

/-! ## Statements -/

theorem Declaration.says_toJava (depth : Nat) {decl : Declaration}
    (settled : decl.Everywhere .settled)
    (unambiguous : decl.Everywhere (.ofExpressions Expression.Unambiguous)) :
    ∃ line, decl.toJava depth = .ok line ∧ line.Says (.declare decl.bare) := by
  obtain ⟨⟨isIdentifier, type, primitive, bound⟩, valueSettled⟩ := settled
  obtain ⟨-, valueUnambiguous⟩ := unambiguous
  have isSolid := isIdentifier.isName.isSolid
  obtain ⟨isType, notKeyword⟩ := primitive.isSolid
  have notReturn : type.javaName.toList ≠ "return".toList := by
    intro same
    rw [same] at notKeyword
    exact notKeyword (by decide)
  obtain ⟨name, typeName, value, span, binding⟩ := decl
  obtain rfl : binding = some ⟨name, name, type⟩ := bound
  cases value with
  | none => exact ⟨_, rfl, Line.says_declare depth isType notReturn isSolid⟩
  | some value =>
    have settled := valueSettled value rfl
    have denotes := Expression.denotes_text settled (valueUnambiguous value rfl)
    refine ⟨_, ?_, Line.says_declare_value depth isType notReturn isSolid denotes⟩
    simp only [Declaration.toJava, value.toJava_eq_text settled]
    rfl

/-- A call begins with the name of what is called. -/
theorem Expression.text_of_isCall {e : Expression} (settled : e.Everywhere Rules.settled.expression)
    (isCall : e.isCall = true) :
    ∃ name tail : String, IsSolid name.toList ∧ e.tree.text = name ++ "(" ++ tail := by
  cases e
  case call note name args binding =>
    obtain ⟨⟨isIdentifier, found, rfl, sameName⟩, -⟩ := settled
    refine ⟨found.javaName, Tree.listText (Expression.trees args) ++ ")", ?_, ?_⟩
    · rw [sameName]
      exact (FunctionKey.isName_javaName isIdentifier).isSolid
    · rw [← String.append_assoc]
      rfl
  case memberCall => exact absurd settled.1 id
  all_goals cases isCall

theorem Expression.text_of_isAccess {e : Expression}
    (settled : e.Everywhere Rules.settled.expression) (isAccess : e.isAccess = true) :
    ∃ name : String, IsSolid name.toList ∧ e.tree.text = name ∧
      e.bare = .access .bare name none := by
  cases e
  case access note name binding =>
    obtain ⟨isIdentifier, found, rfl, sameName⟩ := settled
    exact ⟨name, isIdentifier.isName.isSolid, sameName, rfl⟩
  case memberAccess => exact absurd settled.1 id
  all_goals cases isAccess

mutual

theorem Statement.says_toJava (depth : Nat) : (s : Statement) → s.Everywhere .settled →
    s.Everywhere (.ofExpressions Expression.Unambiguous) →
    ∃ lines, s.toJava depth = .ok lines ∧ List.Forall₂ Line.Says lines s.bare.sentences
  | .expression value, ⟨isCall, settled⟩, ⟨_, unambiguous⟩ => by
    have denotes := Expression.denotes_text settled unambiguous
    obtain ⟨name, tail, isSolid, spelled⟩ := Expression.text_of_isCall settled isCall
    refine ⟨_, ?_, .cons (Line.says_perform depth isSolid spelled denotes) .nil⟩
    rw [Statement.toJava, value.toJava_eq_text settled]
    rfl
  | .declaration decl, ⟨_, settled⟩, ⟨_, unambiguous⟩ => by
    obtain ⟨line, written, said⟩ := Declaration.says_toJava depth settled unambiguous
    refine ⟨[line], ?_, .cons said .nil⟩
    rw [Statement.toJava, written]
    rfl
  | .assignment target value, ⟨isAccess, targetSettled, settled⟩, ⟨_, _, unambiguous⟩ => by
    have denotes := Expression.denotes_text settled unambiguous
    obtain ⟨name, isSolid, spelled, bare⟩ := Expression.text_of_isAccess targetSettled isAccess
    refine ⟨[⟨depth, name ++ " = " ++ value.tree.text ++ ";"⟩], ?_, ?_⟩
    · rw [Statement.toJava, target.toJava_eq_text targetSettled, value.toJava_eq_text settled,
        spelled]
      rfl
    · rw [Statement.bare, Statement.sentences, bare]
      exact .cons (Line.says_assign depth isSolid denotes) .nil
  | .conditional condition thenBody elseBody, ⟨_, settled, thenSettled, elseSettled⟩,
      ⟨_, unambiguous, thenUnambiguous, elseUnambiguous⟩ => by
    have denotes := Expression.denotes_text settled unambiguous
    obtain ⟨thenLines, thenWritten, thenSaid⟩ :=
      Statement.says_allToJava (depth + 1) thenBody thenSettled thenUnambiguous
    obtain ⟨elseLines, elseWritten, elseSaid⟩ :=
      Statement.says_allToJava (depth + 1) elseBody elseSettled elseUnambiguous
    have written : (Statement.conditional condition thenBody elseBody).toJava depth =
        .ok (⟨depth, "if (" ++ condition.tree.text ++ ")" ++ opening⟩ :: thenLines ++
          (if elseBody.isEmpty then [] else ⟨depth, closing ++ " else" ++ opening⟩ :: elseLines) ++
          [⟨depth, closing⟩]) := by
      rw [Statement.toJava, condition.toJava_eq_text settled, thenWritten, elseWritten]
      rfl
    refine ⟨_, written, ?_⟩
    rw [List.cons_append, List.cons_append, List.append_assoc]
    refine .cons (Line.says_test depth denotes) (List.rel_append thenSaid (List.rel_append ?_
      (.cons (Line.says_close depth) .nil)))
    cases elseBody with
    | nil => exact .nil
    | cons => exact .cons (Line.says_otherwise depth) elseSaid
  | .forEach name range body, ⟨isIdentifier, settled, bodySettled⟩,
      ⟨_, unambiguous, bodyUnambiguous⟩ => by
    have denotes := Expression.denotes_text settled unambiguous
    obtain ⟨lines, written, said⟩ :=
      Statement.says_allToJava (depth + 1) body bodySettled bodyUnambiguous
    refine ⟨_, ?_, .cons (Line.says_each depth isIdentifier.isName.isSolid denotes)
      (List.rel_append said (.cons (Line.says_close depth) .nil))⟩
    rw [Statement.toJava, range.toJava_eq_text settled, written]
    rfl
  | .loop condition body, ⟨_, settled, bodySettled⟩, ⟨_, unambiguous, bodyUnambiguous⟩ => by
    have denotes := Expression.denotes_text settled unambiguous
    obtain ⟨lines, written, said⟩ :=
      Statement.says_allToJava (depth + 1) body bodySettled bodyUnambiguous
    refine ⟨_, ?_, .cons (Line.says_repeated depth denotes)
      (List.rel_append said (.cons (Line.says_close depth) .nil))⟩
    rw [Statement.toJava, condition.toJava_eq_text settled, written]
    rfl
  | .result value, ⟨_, settled⟩, ⟨_, unambiguous⟩ => by
    have denotes := Expression.denotes_text settled unambiguous
    refine ⟨_, ?_, .cons (Line.says_result depth denotes) .nil⟩
    rw [Statement.toJava, value.toJava_eq_text settled]
    rfl

theorem Statement.says_allToJava (depth : Nat) : (ss : List Statement) →
    Statement.EverywhereAll .settled ss →
    Statement.EverywhereAll (.ofExpressions Expression.Unambiguous) ss →
    ∃ lines, Statement.allToJava depth ss = .ok lines ∧
      List.Forall₂ Line.Says lines (Statement.allSentences (Statement.bareAll ss))
  | [], _, _ => ⟨[], rfl, .nil⟩
  | s :: ss, ⟨settled, othersSettled⟩, ⟨unambiguous, othersUnambiguous⟩ => by
    obtain ⟨first, written, said⟩ := Statement.says_toJava depth s settled unambiguous
    obtain ⟨others, othersWritten, othersSaid⟩ :=
      Statement.says_allToJava depth ss othersSettled othersUnambiguous
    refine ⟨first ++ others, ?_, List.rel_append said othersSaid⟩
    rw [Statement.allToJava, written, othersWritten]
    rfl

end

/-! ## Methods -/

/-- What the lines of a method say. -/
def Method.sentences (method : Method) : List Sentence :=
  .head method.name (method.parameters.map Parameter.name) ::
    (Statement.allSentences method.body ++ [Sentence.close])

/-- What stands between the parentheses of a head: the parameters with the types they were given. -/
theorem Method.isSolid_parameters {method : Method} {types : List Ty}
    (parametersNamed : ∀ parameter ∈ method.parameters, IsIdentifier parameter.name)
    (primitives : ∀ type ∈ types, type.IsPrimitive) :
    ∀ pair ∈ (method.parameters.zip types).map
      (fun (parameter, type) => (type.javaName, parameter.name)),
      IsSolid pair.1.toList ∧ IsSolid pair.2.toList := by
  intro pair listed
  rcases List.mem_map.mp listed with ⟨⟨parameter, type⟩, member, rfl⟩
  rcases List.of_mem_zip member with ⟨inParameters, inTypes⟩
  have named := parametersNamed parameter inParameters
  exact ⟨(primitives type inTypes).isSolid.1, named.isName.isSolid⟩

theorem Method.snd_parameters {method : Method} {types : List Ty}
    (length : method.parameters.length = types.length) :
    ((method.parameters.zip types).map
      fun (parameter, type) => (type.javaName, parameter.name)).map Prod.snd =
      method.bare.parameters.map Parameter.name := by
  have firsts := List.map_fst_zip (Nat.le_of_eq length)
  calc _ = ((method.parameters.zip types).map Prod.fst).map Parameter.name := by
        rw [List.map_map, List.map_map]
        rfl
    _ = method.bare.parameters.map Parameter.name := by
        rw [firsts, Method.bare, List.map_map]
        rfl

theorem Method.says_toJava {method : Method} (settled : method.Everywhere .settled)
    (unambiguous : method.Everywhere (.ofExpressions Expression.Unambiguous)) :
    ∃ lines, method.toJava = .ok lines ∧ List.Forall₂ Line.Says lines method.bare.sentences := by
  obtain ⟨⟨isIdentifier, parametersNamed, signature, bound, sameName, length, primitives, returns⟩,
    bodySettled⟩ := settled
  obtain ⟨lines, written, said⟩ := Statement.says_allToJava 2 method.body bodySettled unambiguous.2
  have pairs := Method.isSolid_parameters parametersNamed primitives
  obtain ⟨isType, notKeyword⟩ := returns.isSolid
  have head := Line.says_head 1 isType notKeyword isIdentifier.isName.isSolid pairs
  rw [Method.snd_parameters length.symm] at head
  refine ⟨_, ?_, .cons head (List.rel_append said (.cons (Line.says_close 1) .nil))⟩
  rw [Method.toJava, bound, written, List.map_map, ← sameName]
  rfl

/-! ## Programs -/

/-- What a line says. -/
def Java.Line.sentence (line : Line) : Sentence :=
  Sentence.read line.text.toList

/-- What the lines of a program say. -/
def Program.sentences (program : Program) : List Sentence :=
  ([⟨0, "public class Main" ++ opening⟩, blank] : List Line).map Line.sentence ++
    program.fields.map Sentence.declare ++
    (if program.fields.isEmpty then [] else [Sentence.other]) ++
    Java.entry.map Line.sentence ++ [Sentence.other] ++
    program.methods.flatMap (fun method => method.sentences ++ [Sentence.other]) ++ [Sentence.close]

theorem exists_mapM {α β γ ε : Type} {f : α → Except ε β} {g : α → γ} {R : β → γ → Prop}
    {xs : List α} (each : ∀ x ∈ xs, ∃ y, f x = .ok y ∧ R y (g x)) :
    ∃ ys, xs.mapM f = .ok ys ∧ List.Forall₂ R ys (xs.map g) := by
  induction xs with
  | nil => exact ⟨[], rfl, .nil⟩
  | cons x xs ih =>
    rcases each x List.mem_cons_self with ⟨y, done, related⟩
    rcases ih fun x member => each x (.tail _ member) with ⟨ys, allDone, allRelated⟩
    refine ⟨y :: ys, ?_, .cons related allRelated⟩
    rw [List.mapM_cons, done, allDone]
    rfl

theorem Java.Line.says_blank : blank.Says .other :=
  ⟨by decide, by decide, rfl⟩

theorem forall₂_blanks {lines : List (List Line)} {sentences : List (List Sentence)}
    (said : List.Forall₂ (List.Forall₂ Line.Says) lines sentences) :
    List.Forall₂ Line.Says (lines.flatMap (· ++ [blank]))
      (sentences.flatMap (· ++ [Sentence.other])) := by
  induction said with
  | nil => exact .nil
  | cons first _ ih =>
    rw [List.flatMap_cons, List.flatMap_cons]
    exact List.rel_append (List.rel_append first (.cons Line.says_blank .nil)) ih

theorem forall₂_fixed {lines : List Line}
    (fixed : ∀ line ∈ lines, '\n' ∉ line.text.toList ∧ line.text.toList.head? ≠ some ' ') :
    List.Forall₂ Line.Says lines (lines.map Line.sentence) := by
  rw [List.forall₂_map_right_iff, List.forall₂_same]
  intro line member
  exact ⟨(fixed line member).1, (fixed line member).2, rfl⟩

theorem Program.says_javaLines {program : Program} (settled : program.Everywhere .settled)
    (unambiguous : program.Everywhere (.ofExpressions Expression.Unambiguous)) :
    ∃ lines, program.javaLines = .ok lines ∧
      List.Forall₂ Line.Says lines program.bare.sentences := by
  obtain ⟨fields, fieldsWritten, fieldsSaid⟩ := exists_mapM fun field member =>
    Declaration.says_toJava 1 (settled.1 field member) (unambiguous.1 field member)
  obtain ⟨methods, methodsWritten, methodsSaid⟩ := exists_mapM fun method member =>
    Method.says_toJava (settled.2 method member) (unambiguous.2 method member)
  have fieldsBare : program.bare.fields.map Sentence.declare =
      program.fields.map fun field => .declare field.bare := List.map_map
  have methodsBare :
      program.bare.methods.flatMap (fun method => method.sentences ++ [Sentence.other]) =
        (program.methods.map fun method => method.bare.sentences).flatMap
          (· ++ [Sentence.other]) := by
    rw [Program.bare, List.flatMap_map, List.flatMap_map]
  have emptyBare : program.bare.fields.isEmpty = program.fields.isEmpty := List.isEmpty_map
  have written : program.javaLines = .ok ([⟨0, "public class Main" ++ opening⟩, blank] ++ fields ++
      (if program.fields.isEmpty then [] else [blank]) ++ Java.entry ++ [blank] ++
      methods.flatMap (· ++ [blank]) ++ [⟨0, closing⟩]) := by
    rw [Program.javaLines, fieldsWritten, methodsWritten]
    rfl
  refine ⟨_, written, ?_⟩
  rw [Program.sentences, fieldsBare, methodsBare, emptyBare]
  refine List.rel_append (List.rel_append (List.rel_append (List.rel_append (List.rel_append
    (List.rel_append (forall₂_fixed ?_) fieldsSaid) ?_) (forall₂_fixed ?_))
    (.cons Line.says_blank .nil)) (forall₂_blanks methodsSaid)) (.cons (Line.says_close 0) .nil)
  · decide
  · split
    · exact .nil
    · exact .cons Line.says_blank .nil
  · decide

/-! ## Programs from their sentences -/

/-- Fields are followed by something else than a declaration. -/
theorem Program.eq_of_declarations {fields fields' : List Declaration} {rest rest' : List Sentence}
    (stops : ∀ decl, rest.head? ≠ some (.declare decl))
    (stops' : ∀ decl, rest'.head? ≠ some (.declare decl))
    (same : fields.map Sentence.declare ++ rest = fields'.map .declare ++ rest') :
    fields = fields' ∧ rest = rest' := by
  induction fields generalizing fields' with
  | nil =>
    cases fields' with
    | nil => exact ⟨rfl, same⟩
    | cons field' fields' => exact absurd (congrArg List.head? same) (stops field')
  | cons field fields ih =>
    cases fields' with
    | nil => exact absurd (congrArg List.head? same).symm (stops' field)
    | cons field' fields' =>
      rcases List.cons.inj same with ⟨first, others⟩
      rcases ih others with ⟨rfl, sameRest⟩
      obtain rfl := Sentence.declare.inj first
      exact ⟨rfl, sameRest⟩

/-- A bare method is its name, the names of its parameters and its body. -/
theorem Method.bare_eq {method method' : Method} (name : method.name = method'.name)
    (parameters : method.bare.parameters.map Parameter.name =
      method'.bare.parameters.map Parameter.name)
    (body : method.bare.body = method'.bare.body) : method.bare = method'.bare := by
  have named : ∀ method : Method, method.bare.parameters =
      (method.bare.parameters.map Parameter.name).map fun name => ⟨name, ""⟩ := by
    intro method
    rw [Method.bare, List.map_map, List.map_map]
    rfl
  have sameParameters : method.bare.parameters = method'.bare.parameters := by
    rw [named method, parameters, ← named method']
  show Method.mk method.name method.bare.parameters none method.bare.body ⟨0, 0⟩ none =
    Method.mk method'.name method'.bare.parameters none method'.bare.body ⟨0, 0⟩ none
  rw [name, sameParameters, body]

theorem Method.sentences_append (method : Method) (rest : List Sentence) :
    method.sentences ++ [Sentence.other] ++ rest =
      .head method.name (method.parameters.map Parameter.name) ::
        (Statement.allSentences method.body ++ .close :: .other :: rest) := by
  simp [Method.sentences]

/-- Methods are told from the end of the class, and each from the next. -/
theorem Program.eq_of_methods {methods methods' : List Method}
    (same :
      (methods.map Method.bare).flatMap (fun method => method.sentences ++ [Sentence.other]) ++
          [Sentence.close] =
        (methods'.map Method.bare).flatMap (fun method => method.sentences ++ [Sentence.other]) ++
          [Sentence.close]) :
    methods.map Method.bare = methods'.map Method.bare := by
  induction methods generalizing methods' with
  | nil =>
    cases methods' with
    | nil => rfl
    | cons => cases (List.cons.inj same).1
  | cons method methods ih =>
    cases methods' with
    | nil => cases (List.cons.inj same).1
    | cons method' methods' =>
      rw [List.map_cons, List.map_cons, List.flatMap_cons, List.flatMap_cons,
        List.append_assoc _ _ [Sentence.close], List.append_assoc _ _ [Sentence.close],
        Method.sentences_append, Method.sentences_append] at same
      rcases List.cons.inj same with ⟨head, tail⟩
      have name : method.name = method'.name := (Sentence.head.inj head).1
      have parameters := (Sentence.head.inj head).2
      rcases Statement.eq_of_allSentences _ _ (ended_close _) (ended_close _) tail with ⟨body, rest⟩
      have others := (List.cons.inj (List.cons.inj rest).2).2
      rw [List.map_cons, List.map_cons, Method.bare_eq name parameters body, ih others]

/-- A bare program is determined by what its lines say. -/
theorem Program.bare_eq_of_sentences {program program' : Program}
    (same : program.bare.sentences = program'.bare.sentences) : program.bare = program'.bare := by
  have stops : ∀ (program : Program) (tail : List Sentence) (decl : Declaration),
      ((if program.fields.isEmpty then [] else [Sentence.other]) ++
        (Java.entry.map Line.sentence ++ tail)).head? ≠ some (.declare decl) := by
    intro program tail decl
    split
    · have entry : (Java.entry.map Line.sentence).head? =
          some (.head "static void main" ["args"]) := rfl
      rw [List.nil_append, List.head?_append, entry]
      simp
    · simp
  simp only [Program.sentences, List.append_assoc] at same
  rcases Program.eq_of_declarations (stops _ _) (stops _ _) (List.append_cancel_left same) with
    ⟨fields, rest⟩
  rw [fields] at rest
  have methods := Program.eq_of_methods
    (List.append_cancel_left (List.append_cancel_left (List.append_cancel_left rest)))
  show Program.mk program.bare.fields program.bare.methods = Program.mk _ _
  rw [fields]
  exact congrArg _ methods

/-- The Java text of a program in which nothing is ambiguous determines the bare program. -/
theorem Program.bare_eq_of_toJava {program program' : Program} {text : String}
    (settled : program.Everywhere .settled) (settled' : program'.Everywhere .settled)
    (unambiguous : ∀ e ∈ program.expressions, e.Unambiguous)
    (unambiguous' : ∀ e ∈ program'.expressions, e.Unambiguous)
    (written : program.toJava = .ok text) (written' : program'.toJava = .ok text) :
    program.bare = program'.bare := by
  rcases Program.says_javaLines settled (Program.everywhere_of_expressions unambiguous) with
    ⟨lines, lined, said⟩
  rcases Program.says_javaLines settled' (Program.everywhere_of_expressions unambiguous') with
    ⟨lines', lined', said'⟩
  rw [Program.toJava, lined] at written
  rw [Program.toJava, lined'] at written'
  refine Program.bare_eq_of_sentences (eq_of_join_render said said' ?_)
  exact (Except.ok.inj written).trans (Except.ok.inj written').symm

theorem Environment.compile_eq_ok_iff {environment : Environment} {source text : String}
    {program : Program} (loaded : environment.load source = .ok program) :
    environment.compile source = .ok text ↔ program.toJava = .ok text := by
  rw [Environment.compile_eq_ok, loaded]
  simp

/-- Two sources with the same Java text run alike, however they end, unless a variable that is used
is called `null`, `true` or `false` or a decimal constant is zero. -/
theorem Environment.run_eq_of_compile_eq {source source' text : String} {program program' : Program}
    (loaded : Environment.standard.load source = .ok program)
    (loaded' : Environment.standard.load source' = .ok program')
    (unambiguous : ∀ e ∈ program.expressions, e.Unambiguous)
    (unambiguous' : ∀ e ∈ program'.expressions, e.Unambiguous)
    (written : Environment.standard.compile source = .ok text)
    (written' : Environment.standard.compile source' = .ok text) (bound : Nat) :
    Environment.standard.run bound source = Environment.standard.run bound source' := by
  have same := Program.bare_eq_of_toJava (settled_of_load loaded) (settled_of_load loaded')
    unambiguous unambiguous' ((Environment.compile_eq_ok_iff loaded).mp written)
    ((Environment.compile_eq_ok_iff loaded').mp written')
  have runs : program.run .standard bound = program'.run .standard bound := by
    rw [← Program.run_bare, same, Program.run_bare]
  rw [Environment.run, Environment.run, loaded, loaded']
  dsimp only
  rw [runs]

/-- A program that leaves a type to be inferred. -/
def inferredType : String :=
  "DEF main(): Integer DO LET n = 7; RETURN n / 2; END"

/-- The same program with the type, and with its numbers spelled in another way. -/
def declaredType : String :=
  "DEF main(): Integer DO LET n: Integer = +7; RETURN n / 02; END"

/-- Both programs in Java. -/
def inferredTypeJava : String :=
  "public class Main \x7b

    public static void main(String[] args) \x7b
        System.exit(new Main().main());
    \x7d

    int main() \x7b
        int n = 7;
        return n / 2;
    \x7d

\x7d
"

set_option maxRecDepth 10000 in
theorem Environment.run_eq_of_compile_eq_declaredType : ∃ program program',
    Environment.standard.load inferredType = .ok program ∧
      Environment.standard.load declaredType = .ok program' ∧
      (∀ e ∈ program.expressions, e.Unambiguous) ∧ (∀ e ∈ program'.expressions, e.Unambiguous) ∧
      Environment.standard.compile inferredType = .ok inferredTypeJava ∧
      Environment.standard.compile declaredType = .ok inferredTypeJava ∧
      ∀ bound, Environment.standard.run bound inferredType =
        Environment.standard.run bound declaredType := by
  have encoded : Java.bytes inferredTypeJava = _ := Java.bytes_ofList _
  have inferred : ∃ program, Environment.standard.load inferredType = .ok program ∧
      (∀ e ∈ program.expressions, e.Unambiguous) ∧ program.toJava = .ok inferredTypeJava := by
    rw [inferredType, Environment.load_ofList]
    simp only [Program.toJava_eq_ok_iff, encoded]
    decide +kernel
  have declared : ∃ program, Environment.standard.load declaredType = .ok program ∧
      (∀ e ∈ program.expressions, e.Unambiguous) ∧ program.toJava = .ok inferredTypeJava := by
    rw [declaredType, Environment.load_ofList]
    simp only [Program.toJava_eq_ok_iff, encoded]
    decide +kernel
  obtain ⟨program, loaded, unambiguous, toJava⟩ := inferred
  obtain ⟨program', loaded', unambiguous', toJava'⟩ := declared
  have written := (Environment.compile_eq_ok_iff loaded).mpr toJava
  have written' := (Environment.compile_eq_ok_iff loaded').mpr toJava'
  exact ⟨program, program', loaded, loaded', unambiguous, unambiguous', written, written',
    Environment.run_eq_of_compile_eq loaded loaded' unambiguous unambiguous' written written'⟩

/-- A program that reads a variable called `true`. -/
def variableTrue : String :=
  "DEF main(): Integer DO LET true = FALSE; print(true); RETURN 0; END"

/-- A program that has such a variable and reads the constant. -/
def constantTrue : String :=
  "DEF main(): Integer DO LET true = FALSE; print(TRUE); RETURN 0; END"

/-- Both programs in Java. -/
def variableTrueJava : String :=
  "public class Main \x7b

    public static void main(String[] args) \x7b
        System.exit(new Main().main());
    \x7d

    int main() \x7b
        boolean true = false;
        System.out.println(true);
        return 0;
    \x7d

\x7d
"

set_option maxRecDepth 10000 in
/-- A variable called `true` is written like the constant, but it need not be true. -/
theorem Environment.run_ne_of_variableTrue :
    Environment.standard.compile variableTrue = .ok variableTrueJava ∧
      Environment.standard.compile constantTrue = .ok variableTrueJava ∧
      Environment.standard.run 9 variableTrue = .value ⟨0, ["false"]⟩ ∧
      Environment.standard.run 9 constantTrue = .value ⟨0, ["true"]⟩ := by
  have encoded : Java.bytes variableTrueJava = _ := Java.bytes_ofList _
  have ofVariable : ∃ program, Environment.standard.load variableTrue = .ok program ∧
      program.toJava = .ok variableTrueJava ∧
      program.run .standard 9 = .value ⟨0, ["false"]⟩ := by
    rw [variableTrue, Environment.load_ofList]
    simp only [Program.toJava_eq_ok_iff, encoded]
    decide +kernel
  have ofConstant : ∃ program, Environment.standard.load constantTrue = .ok program ∧
      program.toJava = .ok variableTrueJava ∧
      program.run .standard 9 = .value ⟨0, ["true"]⟩ := by
    rw [constantTrue, Environment.load_ofList]
    simp only [Program.toJava_eq_ok_iff, encoded]
    decide +kernel
  obtain ⟨program, loaded, written, ran⟩ := ofVariable
  obtain ⟨program', loaded', written', ran'⟩ := ofConstant
  exact ⟨Environment.compile_eq_ok.mpr ⟨program, loaded, written⟩,
    Environment.compile_eq_ok.mpr ⟨program', loaded', written'⟩,
    Environment.run_eq_value.mpr ⟨program, loaded, ran⟩,
    Environment.run_eq_value.mpr ⟨program', loaded', ran'⟩⟩

end Primer
