import Primer.Grammar.Literal
import Primer.Proofs.Syntax.Canonical

/-!
# The grammar

The grammar of programs as a relation between tokens and trees.  A category is what a piece of the
tokens is read as; each rule of `Derives` is an alternative of the grammar.  Words and operators are
recognised by the text of their token, names and decoded literals by its kind.

Places and slots are no matter of grammar: a rule leaves them open.

The levels of operators are one category with the looseness of the level as its index.  That
operators of one level group to the left is in the rule for them: the left operand is of the same
level, the right one of the next.
-/

namespace Primer

/-- What a piece of the tokens can be read as. -/
inductive Category where
  | name
  | expression (looseness : Nat)
  | declaration
  | statement
  | parameter
  | method
  | program
  /-- An item behind a word. -/
  | behind (word : String) (item : Category)
  | optional (item : Category)
  | many (item : Category)
  /-- Any number of items with commas between them. -/
  | listed (item : Category)

/-- What reading a category gives. -/
@[reducible]
def Category.Tree : Category → Type
  | .name => String
  | .expression _ => Expression
  | .declaration => Declaration
  | .statement => Statement
  | .parameter => Parameter
  | .method => Method
  | .program => Program
  | .behind _ item => item.Tree
  | .optional item => Option item.Tree
  | .many item | .listed item => List item.Tree

/-- The constants that a token stands for. -/
inductive Token.Denotes (token : Token) : Literal → Prop
  | nil : token.text = "NIL" → Denotes token .nil
  | true : token.text = "TRUE" → Denotes token (.boolean true)
  | false : token.text = "FALSE" → Denotes token (.boolean false)
  | decoded {kind : LiteralKind} {value : Literal} :
    token.kind.literal? = some kind → kind.decode? token = some value → Denotes token value

/-- The tokens, all of them and in this order, are a derivation of the tree. -/
inductive Derives : (category : Category) → List Token → category.Tree → Prop
  -- combinations
  | name {token : Token} : token.kind = .identifier → Derives .name [token] token.text
  | behind {word : String} {item : Category} {token : Token} {ts : List Token} {tree : item.Tree} :
    token.text = word → Derives item ts tree → Derives (.behind word item) (token :: ts) tree
  | absent {item : Category} : Derives (.optional item) [] none
  | present {item : Category} {ts : List Token} {tree : item.Tree} :
    Derives item ts tree → Derives (.optional item) ts (some tree)
  | noMore {item : Category} : Derives (.many item) [] []
  | more {item : Category} {ts us : List Token} {tree : item.Tree} {trees : List item.Tree} :
    Derives item ts tree → Derives (.many item) us trees →
    Derives (.many item) (ts ++ us) (tree :: trees)
  | unlisted {item : Category} : Derives (.listed item) [] []
  | listed {item : Category} {ts us : List Token} {tree : item.Tree} {trees : List item.Tree} :
    Derives item ts tree → Derives (.many (.behind "," item)) us trees →
    Derives (.listed item) (ts ++ us) (tree :: trees)
  -- operands
  | literal {token : Token} {note : Note} {value : Literal} :
    token.Denotes value → Derives (.expression 0) [token] (.literal note value)
  | group {opening closing : Token} {ts : List Token} {note : Note} {inner : Expression} :
    opening.text = "(" → Derives (.expression 5) ts inner → closing.text = ")" →
    Derives (.expression 0) (opening :: ts ++ [closing]) (.group note inner)
  | access {ts : List Token} {note : Note} {name : String} {binding : Option Variable} :
    Derives .name ts name → Derives (.expression 0) ts (.access note name binding)
  | call {opening closing : Token} {ts us : List Token} {note : Note} {name : String}
      {args : List Expression} {binding : Option Signature} :
    Derives .name ts name → opening.text = "(" → Derives (.listed (.expression 5)) us args →
    closing.text = ")" →
    Derives (.expression 0) (ts ++ opening :: us ++ [closing]) (.call note name args binding)
  -- selections
  | memberAccess {point : Token} {ts us : List Token} {note : Note} {receiver : Expression}
      {name : String} {binding : Option Variable} :
    Derives (.expression 1) ts receiver → point.text = "." → Derives .name us name →
    Derives (.expression 1) (ts ++ point :: us) (.memberAccess note receiver name binding)
  | memberCall {point opening closing : Token} {ts us vs : List Token} {note : Note}
      {receiver : Expression} {name : String} {args : List Expression}
      {binding : Option Signature} :
    Derives (.expression 1) ts receiver → point.text = "." → Derives .name us name →
    opening.text = "(" → Derives (.listed (.expression 5)) vs args → closing.text = ")" →
    Derives (.expression 1) (ts ++ point :: us ++ opening :: vs ++ [closing])
      (.memberCall note receiver name args binding)
  -- operators
  | binary {token : Token} {ts us : List Token} {note : Note} {operator : Operator}
      {left right : Expression} :
    Derives (.expression operator.looseness) ts left → token.text = operator.symbol →
    Derives (.expression (operator.looseness - 1)) us right →
    Derives (.expression operator.looseness) (ts ++ token :: us) (.binary note operator left right)
  | tighter {looseness : Nat} {ts : List Token} {e : Expression} :
    Derives (.expression looseness) ts e → Derives (.expression (looseness + 1)) ts e
  -- statements
  | declaration {opening closing : Token} {ts us vs : List Token} {name : String}
      {typeName : Option String} {value : Option Expression} {span : Span}
      {binding : Option Variable} :
    opening.text = "LET" → Derives .name ts name →
    Derives (.optional (.behind ":" .name)) us typeName →
    Derives (.optional (.behind "=" (.expression 5))) vs value → closing.text = ";" →
    Derives .declaration (opening :: ts ++ us ++ vs ++ [closing])
      ⟨name, typeName, value, span, binding⟩
  | localDeclaration {ts : List Token} {decl : Declaration} :
    Derives .declaration ts decl → Derives .statement ts (.declaration decl)
  | conditional {opening start closing : Token} {ts us vs : List Token} {condition : Expression}
      {thenBody : List Statement} {elseBody : Option (List Statement)} :
    opening.text = "IF" → Derives (.expression 5) ts condition → start.text = "DO" →
    Derives (.many .statement) us thenBody →
    Derives (.optional (.behind "ELSE" (.many .statement))) vs elseBody → closing.text = "END" →
    Derives .statement (opening :: ts ++ start :: us ++ vs ++ [closing])
      (.conditional condition thenBody (elseBody.getD []))
  | forEach {opening word start closing : Token} {ts us vs : List Token} {name : String}
      {range : Expression} {body : List Statement} :
    opening.text = "FOR" → Derives .name ts name → word.text = "IN" →
    Derives (.expression 5) us range → start.text = "DO" → Derives (.many .statement) vs body →
    closing.text = "END" →
    Derives .statement (opening :: ts ++ word :: us ++ start :: vs ++ [closing])
      (.forEach name range body)
  | loop {opening start closing : Token} {ts us : List Token} {condition : Expression}
      {body : List Statement} :
    opening.text = "WHILE" → Derives (.expression 5) ts condition → start.text = "DO" →
    Derives (.many .statement) us body → closing.text = "END" →
    Derives .statement (opening :: ts ++ start :: us ++ [closing]) (.loop condition body)
  | result {opening closing : Token} {ts : List Token} {value : Expression} :
    opening.text = "RETURN" → Derives (.expression 5) ts value → closing.text = ";" →
    Derives .statement (opening :: ts ++ [closing]) (.result value)
  | assignment {word closing : Token} {ts us : List Token} {target value : Expression} :
    Derives (.expression 5) ts target → word.text = "=" → Derives (.expression 5) us value →
    closing.text = ";" →
    Derives .statement (ts ++ word :: us ++ [closing]) (.assignment target value)
  | expression {closing : Token} {ts : List Token} {value : Expression} :
    Derives (.expression 5) ts value → closing.text = ";" →
    Derives .statement (ts ++ [closing]) (.expression value)
  -- programs
  | parameter {colon : Token} {ts us : List Token} {name typeName : String} :
    Derives .name ts name → colon.text = ":" → Derives .name us typeName →
    Derives .parameter (ts ++ colon :: us) ⟨name, typeName⟩
  | method {opening left right start closing : Token} {ts us vs ws : List Token} {name : String}
      {parameters : List Parameter} {returnTypeName : Option String} {body : List Statement}
      {span : Span} {binding : Option Signature} :
    opening.text = "DEF" → Derives .name ts name → left.text = "(" →
    Derives (.listed .parameter) us parameters → right.text = ")" →
    Derives (.optional (.behind ":" .name)) vs returnTypeName → start.text = "DO" →
    Derives (.many .statement) ws body → closing.text = "END" →
    Derives .method
      (opening :: ts ++ left :: us ++ right :: vs ++ start :: ws ++ [closing])
      ⟨name, parameters, returnTypeName, body, span, binding⟩
  | program {ts us : List Token} {fields : List Declaration} {methods : List Method} :
    Derives (.many .declaration) ts fields → Derives (.many .method) us methods →
    Derives .program (ts ++ us) ⟨fields, methods⟩

/-- The same tokens, put together in another way. -/
theorem Derives.regroup {category : Category} {ts us : List Token} {tree : category.Tree}
    (derives : Derives category ts tree) (same : us = ts) : Derives category us tree :=
  same ▸ derives

/-! ## Only canonical trees are derived -/

/-- The trees of a category that can be derived are among these. -/
def Category.Canonical : (category : Category) → category.Tree → Prop
  | .name, _ => True
  | .expression looseness, (e : Expression) =>
    e.Canonical (fun _ => True) ∧ e.looseness ≤ looseness
  | .declaration, (decl : Declaration) => decl.Canonical fun _ => True
  | .statement, (s : Statement) => s.Canonical fun _ => True
  | .parameter, _ => True
  | .method, (m : Method) => m.Canonical fun _ => True
  | .program, (p : Program) => p.Canonical fun _ => True
  | .behind _ item, tree => item.Canonical tree
  | .optional item, (tree : Option item.Tree) => ∀ t ∈ tree, item.Canonical t
  | .many item, (trees : List item.Tree) | .listed item, (trees : List item.Tree) =>
    ∀ t ∈ trees, item.Canonical t

theorem Operator.looseness_pos (operator : Operator) : 0 < operator.looseness := by
  cases operator <;> decide

theorem Derives.canonical {category : Category} {ts : List Token} {tree : category.Tree}
    (derives : Derives category ts tree) : category.Canonical tree := by
  induction derives with
  | name => trivial
  | behind _ _ ih => exact ih
  | absent => exact nofun
  | present _ ih => simpa [Category.Canonical] using ih
  | noMore => exact nofun
  | more _ _ first others => exact List.forall_mem_cons.mpr ⟨first, others⟩
  | unlisted => exact nofun
  | listed _ _ first others => exact List.forall_mem_cons.mpr ⟨first, others⟩
  | literal => exact ⟨trivial, Nat.le_refl 0⟩
  | group _ _ _ inner => exact ⟨inner.1, Nat.le_refl 0⟩
  | access => exact ⟨trivial, Nat.le_refl 0⟩
  | call _ _ _ _ _ args =>
    exact ⟨⟨trivial, Expression.canonicalAll_iff.mpr fun e member => (args e member).1⟩,
      Nat.le_refl 0⟩
  | memberAccess _ _ _ receiver =>
    exact ⟨⟨receiver.2, receiver.1, trivial⟩, Nat.le_refl 1⟩
  | memberCall _ _ _ _ _ _ receiver _ args =>
    exact ⟨⟨receiver.2, receiver.1, trivial,
      Expression.canonicalAll_iff.mpr fun e member => (args e member).1⟩, Nat.le_refl 1⟩
  | @binary _ _ _ _ operator _ _ _ _ _ left right =>
    have positive := operator.looseness_pos
    have tighter := right.2
    exact ⟨⟨left.2, by omega, left.1, right.1⟩, Nat.le_refl _⟩
  | tighter _ ih => exact ⟨ih.1, Nat.le_succ_of_le ih.2⟩
  | declaration _ _ _ _ _ _ _ value =>
    exact ⟨trivial, fun _ _ => trivial, fun e member => (value e member).1⟩
  | localDeclaration _ ih => exact ih
  | @conditional _ _ _ _ _ _ _ _ elseBody _ _ _ _ _ _ condition thenBody other =>
    refine ⟨condition.1, Statement.canonicalAll_iff.mpr thenBody,
      Statement.canonicalAll_iff.mpr ?_⟩
    cases elseBody with
    | none => exact nofun
    | some statements => exact other statements rfl
  | forEach _ _ _ _ _ _ _ _ range body =>
    exact ⟨trivial, range.1, Statement.canonicalAll_iff.mpr body⟩
  | loop _ _ _ _ _ condition body => exact ⟨condition.1, Statement.canonicalAll_iff.mpr body⟩
  | result _ _ _ value => exact value.1
  | assignment _ _ _ _ target value => exact ⟨target.1, value.1⟩
  | expression _ _ value => exact value.1
  | parameter => trivial
  | method _ _ _ _ _ _ _ _ _ _ _ _ body =>
    exact ⟨trivial, fun _ _ => ⟨trivial, trivial⟩, fun _ _ => trivial,
      Statement.canonicalAll_iff.mpr body⟩
  | program _ _ fields methods => exact ⟨fields, methods⟩

end Primer
