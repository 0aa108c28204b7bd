import Primer.Pipeline
import Primer.Proofs.Grammar.Soundness
import Primer.Proofs.Grammar.Reading
import Primer.Proofs.Syntax.Everywhere
import Primer.Proofs.Token.Denotation
import Primer.Proofs.Token.Segmentation

/-!
# What a source can put into a tree

A program that is read from a text is not any tree: its names are identifiers, its decimals have a
digit behind the point, and its operators stand where the grammar puts them.
-/

namespace Primer

/-- A decimal has at least one digit behind the point. -/
def Literal.IsWritten : Literal → Prop
  | .decimal value => 0 < value.scale
  | _ => True

def IsIdentifier (name : String) : Prop :=
  Lexeme.isIdentifier name.toList = true

/-- What each node of a program that was read from a text is like. -/
def Rules.parsed : Rules where
  expression
    | .literal _ value => value.IsWritten
    | .binary _ operator left right =>
      left.looseness ≤ operator.looseness ∧ right.looseness < operator.looseness
    | .access _ name _ | .call _ name _ _ => IsIdentifier name
    | _ => True
  declaration decl := IsIdentifier decl.name
  statement
    | .forEach name _ _ => IsIdentifier name
    | _ => True
  method method :=
    IsIdentifier method.name ∧ ∀ parameter ∈ method.parameters, IsIdentifier parameter.name

/-! ## Tokens of a text -/

open Lexeme

theorem IsIdentifier.of_isLexeme {text : String} (isLexeme : IsLexeme .identifier text.toList) :
    IsIdentifier text := by
  unfold IsIdentifier
  generalize text.toList = cs at isLexeme
  cases isLexeme with
  | identifier first parts =>
    rw [isIdentifier, Bool.and_eq_true, List.all_eq_true]
    exact ⟨isIdentifierStart_iff.mpr first,
      fun d member => isIdentifierPart_iff.mpr (parts d member)⟩

theorem IsIdentifier.isLexeme {text : String} (isIdentifier : IsIdentifier text) :
    IsLexeme .identifier text.toList := by
  unfold IsIdentifier at isIdentifier
  generalize text.toList = cs at isIdentifier
  cases cs with
  | nil => cases isIdentifier
  | cons c cs =>
    rw [Lexeme.isIdentifier, Bool.and_eq_true, List.all_eq_true] at isIdentifier
    exact .identifier (isIdentifierStart_iff.mp isIdentifier.1)
      fun d member => isIdentifierPart_iff.mp (isIdentifier.2 d member)

theorem Token.Denotes.isWritten {token : Token} {value : Literal} (denotes : token.Denotes value)
    (isLexeme : IsLexeme token.kind token.text.toList) : value.IsWritten := by
  cases denotes with
  | nil | true | false => trivial
  | @decoded kind _ literal decoded =>
    cases kind with
    | integer =>
      obtain ⟨_, _, rfl⟩ := Option.map_eq_some_iff.mp decoded
      trivial
    | decimal =>
      obtain ⟨number, found, rfl⟩ := Option.map_eq_some_iff.mp decoded
      have kind : token.kind = .decimal := by
        cases kind : token.kind <;> simp [kind, Token.Kind.literal?] at literal
        rfl
      obtain ⟨value, same, positive⟩ := Decimal.ofText?_of_isLexeme (kind ▸ isLexeme)
      rw [same] at found
      cases found
      exact positive
    | character =>
      simp only [LiteralKind.decode?] at decoded
      split at decoded <;> cases decoded
      trivial
    | string =>
      obtain ⟨_, _, rfl⟩ := Option.map_eq_some_iff.mp decoded
      trivial

/-! ## Trees of a text -/

/-- The trees of a category that can be read from a text are among these. -/
def Category.Parsed : (category : Category) → category.Tree → Prop
  | .name, (x : String) => IsIdentifier x
  | .expression _, (e : Expression) => e.Everywhere Rules.parsed.expression
  | .declaration, (decl : Declaration) => decl.Everywhere .parsed
  | .statement, (s : Statement) => s.Everywhere .parsed
  | .parameter, (p : Parameter) => IsIdentifier p.name
  | .method, (m : Method) => m.Everywhere .parsed
  | .program, (p : Program) => p.Everywhere .parsed
  | .behind _ item, tree => item.Parsed tree
  | .optional item, (tree : Option item.Tree) => ∀ t ∈ tree, item.Parsed t
  | .many item, (trees : List item.Tree) | .listed item, (trees : List item.Tree) =>
    ∀ t ∈ trees, item.Parsed t

/-- The tokens are lexemes of their kinds, as those of a text are. -/
def Genuine (ts : List Token) : Prop :=
  ∀ token ∈ ts, IsLexeme token.kind token.text.toList

theorem genuine_cons {token : Token} {ts : List Token} :
    Genuine (token :: ts) ↔ IsLexeme token.kind token.text.toList ∧ Genuine ts :=
  List.forall_mem_cons

theorem genuine_append {ts us : List Token} : Genuine (ts ++ us) ↔ Genuine ts ∧ Genuine us :=
  List.forall_mem_append

theorem Derives.parsed {category : Category} {ts : List Token} {tree : category.Tree}
    (derives : Derives category ts tree) (genuine : Genuine ts) : category.Parsed tree := by
  induction derives with (try simp only [genuine_append, genuine_cons] at genuine)
  | @name token kind =>
    rw [kind] at genuine
    exact IsIdentifier.of_isLexeme genuine.1
  | behind _ _ ih => exact ih genuine.2
  | absent => exact fun _ found => nomatch found
  | present _ ih =>
    rintro _ ⟨⟩
    exact ih genuine
  | noMore => exact fun _ member => absurd member List.not_mem_nil
  | more _ _ first others =>
    exact List.forall_mem_cons.mpr ⟨first genuine.1, others genuine.2⟩
  | unlisted => exact fun _ member => absurd member List.not_mem_nil
  | listed _ _ first others =>
    exact List.forall_mem_cons.mpr ⟨first genuine.1, others genuine.2⟩
  | literal denotes => exact denotes.isWritten genuine.1
  | group _ _ _ ih => exact ⟨trivial, ih genuine.1.2⟩
  | access _ ih => exact ih genuine
  | call _ _ _ _ name args =>
    exact ⟨name genuine.1.1, Expression.everywhereAll_iff.mpr (args genuine.1.2.2)⟩
  | memberAccess _ _ _ receiver => exact ⟨trivial, receiver genuine.1⟩
  | memberCall _ _ _ _ _ _ receiver _ args =>
    obtain ⟨⟨⟨inReceiver, -⟩, -, inArguments⟩, -⟩ := genuine
    exact ⟨trivial, receiver inReceiver, Expression.everywhereAll_iff.mpr (args inArguments)⟩
  | @binary _ _ _ _ operator _ _ leftDerives _ rightDerives left right =>
    have positive := operator.looseness_pos
    have tighter := rightDerives.canonical.2
    exact ⟨⟨leftDerives.canonical.2, by omega⟩, left genuine.1, right genuine.2.2⟩
  | tighter _ ih => exact ih genuine
  | declaration _ _ _ _ _ name _ value =>
    obtain ⟨⟨⟨⟨-, inName⟩, -⟩, inValue⟩, -⟩ := genuine
    exact ⟨name inName, value inValue⟩
  | localDeclaration _ ih => exact ⟨trivial, ih genuine⟩
  | @conditional _ _ _ _ _ _ _ _ elseBody _ _ _ _ _ _ condition thenBody other =>
    obtain ⟨⟨⟨⟨-, inCondition⟩, -, inThen⟩, inElse⟩, -⟩ := genuine
    refine ⟨trivial, condition inCondition, Statement.everywhereAll_iff.mpr (thenBody inThen),
      Statement.everywhereAll_iff.mpr ?_⟩
    cases elseBody with
    | none => exact fun _ member => absurd member List.not_mem_nil
    | some statements => exact other inElse statements rfl
  | forEach _ _ _ _ _ _ _ name range body =>
    obtain ⟨⟨⟨⟨-, inName⟩, -, inRange⟩, -, inBody⟩, -⟩ := genuine
    exact ⟨name inName, range inRange, Statement.everywhereAll_iff.mpr (body inBody)⟩
  | loop _ _ _ _ _ condition body =>
    obtain ⟨⟨⟨-, inCondition⟩, -, inBody⟩, -⟩ := genuine
    exact ⟨trivial, condition inCondition, Statement.everywhereAll_iff.mpr (body inBody)⟩
  | result _ _ _ value => exact ⟨trivial, value genuine.1.2⟩
  | assignment _ _ _ _ target value =>
    exact ⟨trivial, target genuine.1.1, value genuine.1.2.2⟩
  | expression _ _ value => exact ⟨trivial, value genuine.1⟩
  | parameter _ _ _ name => exact name genuine.1
  | method _ _ _ _ _ _ _ _ _ name parameters _ body =>
    obtain ⟨⟨⟨⟨⟨-, inName⟩, -, inParameters⟩, -⟩, -, inBody⟩, -⟩ := genuine
    exact ⟨⟨name inName, parameters inParameters⟩,
      Statement.everywhereAll_iff.mpr (body inBody)⟩
  | program _ _ fields methods => exact ⟨fields genuine.1, methods genuine.2⟩

/-- What a source is read as is a tree that a source can put there. -/
theorem Program.parsed_of_parse {source : String} {program : Program}
    (parsed : Program.parse source = .ok program) : program.Everywhere .parsed := by
  rcases Program.parse_eq_ok.mp parsed with ⟨tokens, scanned, read⟩
  rcases Program.ofTokens_eq_ok.mp read with ⟨after, found⟩
  exact (Reader.program_sound found).parsed (Token.isLexeme_of_scan scanned)

end Primer
