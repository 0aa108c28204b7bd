import Mathlib.Data.List.Forall2
import Primer.Syntax.Basic

/-!
# Writing programs

A tree is written as a list of pieces in the order of the grammar.  A piece is a word, or a constant
whose spelling is left open: one constant may be written in many ways.

A text says nothing about places and slots, and a constant may be written as one that counts as
alike, such as `1.50` for `1.5`.  `Program.ReadAs` is what is left: how far a program and the one
that is read from its text agree.
-/

namespace Primer

/-- A word or a constant. -/
inductive Piece where
  | word (text : String)
  | constant (value : Literal)

/-! ## Pieces -/

/-- Items with commas between them. -/
def commaPieces {α : Type} (pieces : α → List Piece) : List α → List Piece
  | [] => []
  | x :: xs => pieces x ++ xs.flatMap fun x => .word "," :: pieces x

namespace Expression

mutual

/-- An expression in writing. -/
def pieces : Expression → List Piece
  | .literal _ value => [.constant value]
  | .group _ inner => .word "(" :: (inner.pieces ++ [.word ")"])
  | .binary _ operator left right => left.pieces ++ .word operator.symbol :: right.pieces
  | .access _ name _ => [.word name]
  | .memberAccess _ receiver name _ => receiver.pieces ++ [.word ".", .word name]
  | .call _ name args _ => .word name :: .word "(" :: (listPieces args ++ [.word ")"])
  | .memberCall _ receiver name args _ =>
    receiver.pieces ++ .word "." :: .word name :: .word "(" :: (listPieces args ++ [.word ")"])

/-- Expressions with commas between them. -/
def listPieces : List Expression → List Piece
  | [] => []
  | e :: es => e.pieces ++ morePieces es

/-- Expressions with a comma before each. -/
def morePieces : List Expression → List Piece
  | [] => []
  | e :: es => .word "," :: (e.pieces ++ morePieces es)

end

theorem morePieces_eq (es : List Expression) :
    morePieces es = es.flatMap fun e => .word "," :: e.pieces := by
  induction es with
  | nil => rfl
  | cons e es ih => simp [morePieces, ih]

theorem listPieces_eq (es : List Expression) : listPieces es = commaPieces pieces es := by
  cases es with
  | nil => rfl
  | cons e es => rw [listPieces, commaPieces, morePieces_eq]

end Expression

/-- A type behind its colon, if there is one. -/
def annotationPieces : Option String → List Piece
  | none => []
  | some typeName => [.word ":", .word typeName]

/-- A value behind its equals sign, if there is one. -/
def valuePieces : Option Expression → List Piece
  | none => []
  | some value => .word "=" :: value.pieces

def Declaration.pieces (decl : Declaration) : List Piece :=
  .word "LET" :: .word decl.name ::
    (annotationPieces decl.typeName ++ (valuePieces decl.value ++ [.word ";"]))

namespace Statement

mutual

/-- A statement in writing.  Without statements there is no `ELSE`. -/
def pieces : Statement → List Piece
  | .expression value => value.pieces ++ [.word ";"]
  | .declaration decl => decl.pieces
  | .assignment target value => target.pieces ++ .word "=" :: (value.pieces ++ [.word ";"])
  | .conditional condition thenBody elseBody =>
    .word "IF" :: (condition.pieces ++ .word "DO" :: (blockPieces thenBody ++
      ((if elseBody.isEmpty then [] else .word "ELSE" :: blockPieces elseBody) ++ [.word "END"])))
  | .forEach name range body =>
    .word "FOR" :: .word name :: .word "IN" :: (range.pieces ++ .word "DO" ::
      (blockPieces body ++ [.word "END"]))
  | .loop condition body =>
    .word "WHILE" :: (condition.pieces ++ .word "DO" :: (blockPieces body ++ [.word "END"]))
  | .result value => .word "RETURN" :: (value.pieces ++ [.word ";"])

def blockPieces : List Statement → List Piece
  | [] => []
  | s :: ss => s.pieces ++ blockPieces ss

end

theorem blockPieces_eq (ss : List Statement) : blockPieces ss = ss.flatMap pieces := by
  induction ss with
  | nil => rfl
  | cons s ss ih => simp [blockPieces, ih]

end Statement

def Parameter.pieces (parameter : Parameter) : List Piece :=
  [.word parameter.name, .word ":", .word parameter.typeName]

def Method.pieces (method : Method) : List Piece :=
  .word "DEF" :: .word method.name :: .word "(" ::
    (commaPieces Parameter.pieces method.parameters ++ .word ")" ::
      (annotationPieces method.returnTypeName ++ .word "DO" ::
        (Statement.blockPieces method.body ++ [.word "END"])))

/-- A program in writing. -/
def Program.pieces (program : Program) : List Piece :=
  program.fields.flatMap Declaration.pieces ++ program.methods.flatMap Method.pieces

/-! ## The same tree, read from a text -/

section ReadAs

variable (alike : Literal → Literal → Prop)

/-- The second expression is the first one with other places, empty slots and constants alike. -/
inductive Expression.ReadAs : Expression → Expression → Prop
  | literal {note : Note} {span : Span} {value read : Literal} : alike value read →
    ReadAs (.literal note value) (.literal { span } read)
  | group {note : Note} {span : Span} {inner read : Expression} : ReadAs inner read →
    ReadAs (.group note inner) (.group { span } read)
  | binary {note : Note} {span : Span} {operator : Operator}
      {left left' right right' : Expression} : ReadAs left left' → ReadAs right right' →
    ReadAs (.binary note operator left right) (.binary { span } operator left' right')
  | access {note : Note} {span : Span} {name : String} {binding : Option Variable} :
    ReadAs (.access note name binding) (.access { span } name none)
  | memberAccess {note : Note} {span : Span} {receiver read : Expression} {name : String}
      {binding : Option Variable} : ReadAs receiver read →
    ReadAs (.memberAccess note receiver name binding) (.memberAccess { span } read name none)
  | call {note : Note} {span : Span} {name : String} {args args' : List Expression}
      {binding : Option Signature} : List.Forall₂ ReadAs args args' →
    ReadAs (.call note name args binding) (.call { span } name args' none)
  | memberCall {note : Note} {span : Span} {receiver read : Expression} {name : String}
      {args args' : List Expression} {binding : Option Signature} :
    ReadAs receiver read → List.Forall₂ ReadAs args args' →
    ReadAs (.memberCall note receiver name args binding) (.memberCall { span } read name args' none)

inductive Declaration.ReadAs : Declaration → Declaration → Prop
  | mk {name : String} {typeName : Option String} {value read : Option Expression}
      {span span' : Span} {binding : Option Variable} :
    Option.Rel (Expression.ReadAs alike) value read →
    ReadAs ⟨name, typeName, value, span, binding⟩ ⟨name, typeName, read, span', none⟩

inductive Statement.ReadAs : Statement → Statement → Prop
  | expression {value read : Expression} : value.ReadAs alike read →
    ReadAs (.expression value) (.expression read)
  | declaration {decl read : Declaration} : decl.ReadAs alike read →
    ReadAs (.declaration decl) (.declaration read)
  | assignment {target target' value value' : Expression} :
    target.ReadAs alike target' → value.ReadAs alike value' →
    ReadAs (.assignment target value) (.assignment target' value')
  | conditional {condition read : Expression}
      {thenBody thenBody' elseBody elseBody' : List Statement} : condition.ReadAs alike read →
    List.Forall₂ ReadAs thenBody thenBody' → List.Forall₂ ReadAs elseBody elseBody' →
    ReadAs (.conditional condition thenBody elseBody) (.conditional read thenBody' elseBody')
  | forEach {name : String} {range read : Expression} {body body' : List Statement} :
    range.ReadAs alike read → List.Forall₂ ReadAs body body' →
    ReadAs (.forEach name range body) (.forEach name read body')
  | loop {condition read : Expression} {body body' : List Statement} :
    condition.ReadAs alike read → List.Forall₂ ReadAs body body' →
    ReadAs (.loop condition body) (.loop read body')
  | result {value read : Expression} : value.ReadAs alike read →
    ReadAs (.result value) (.result read)

inductive Method.ReadAs : Method → Method → Prop
  | mk {name : String} {parameters : List Parameter} {returnTypeName : Option String}
      {body read : List Statement} {span span' : Span} {binding : Option Signature} :
    List.Forall₂ (Statement.ReadAs alike) body read →
    ReadAs ⟨name, parameters, returnTypeName, body, span, binding⟩
      ⟨name, parameters, returnTypeName, read, span', none⟩

/-- The second program is the first one with other places, empty slots and constants alike. -/
structure Program.ReadAs (program read : Program) : Prop where
  fields : List.Forall₂ (Declaration.ReadAs alike) program.fields read.fields
  methods : List.Forall₂ (Method.ReadAs alike) program.methods read.methods

end ReadAs

end Primer
