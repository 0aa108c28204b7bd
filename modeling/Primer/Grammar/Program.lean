import Primer.Grammar.Expression

/-!
# Reading programs

`Program.ofTokens` reads a whole list of tokens as a program: fields, then methods, and nothing
behind them.  As with expressions, statements nest at most as deep as there are tokens.
-/

namespace Primer.Reader

/-- What follows `LET`: a name, an optional type, an optional value. -/
def declarationAfter (opening : Token) : Reader Declaration := do
  let name ← identifier
  let typeName ← after ":" identifier
  let value ← after "=" expression
  let _ ← word ";"
  return { name, typeName, value, span := ← spanFrom opening.span.start }

/-! ## Statements -/

/-- The words that begin a statement of their own kind. -/
inductive StatementWord where
  | declaration
  | conditional
  | forEach
  | loop
  | result

def StatementWord.ofText? : String → Option StatementWord
  | "LET" => some .declaration
  | "IF" => some .conditional
  | "FOR" => some .forEach
  | "WHILE" => some .loop
  | "RETURN" => some .result
  | _ => none

/-- A token that begins a statement of its own kind. -/
def statementWord? (token : Token) : Option (StatementWord × Token) :=
  (StatementWord.ofText? token.text).map (·, token)

/-- Stops a block at one of `terminators` and at the end of the tokens. -/
def blockContinues (terminators : List String) (cursor : Cursor) : Option (Unit × Cursor) :=
  match cursor.rest with
  | [] => none
  | token :: _ => if terminators.contains token.text then none else some ((), cursor)

/-- Statements up to one of `terminators`. -/
def block (terminators : List String) (statement : Reader Statement) : Reader (List Statement) :=
  many (blockContinues terminators) fun _ => statement

/-- A block between `DO` and `END`. -/
def body (statement : Reader Statement) : Reader (List Statement) := do
  let _ ← word "DO"
  let statements ← block ["END"] statement
  let _ ← word "END"
  return statements

/-- One statement, given how to read those inside it. -/
def statementUsing (statement : Reader Statement) : Reader Statement := do
  match ← optional statementWord? with
  | some (.declaration, opening) => return .declaration (← declarationAfter opening)
  | some (.conditional, _) =>
    let condition ← expression
    let _ ← word "DO"
    let thenBody ← block ["ELSE", "END"] statement
    let elseBody ← after "ELSE" (block ["END"] statement)
    let _ ← word "END"
    return .conditional condition thenBody (elseBody.getD [])
  | some (.forEach, _) =>
    let name ← identifier
    let _ ← word "IN"
    let range ← expression
    return .forEach name range (← body statement)
  | some (.loop, _) =>
    let condition ← expression
    return .loop condition (← body statement)
  | some (.result, _) =>
    let value ← expression
    let _ ← word ";"
    return .result value
  | none =>
    let target ← expression
    let value ← after "=" expression
    let _ ← word ";"
    match value with
    | some value => return .assignment target value
    | none => return .expression target

/-- A statement in which statements nest less than `bound` deep. -/
def statementWithin : Nat → Reader Statement
  | 0 => fail .expression
  | bound + 1 => statementUsing (statementWithin bound)

/-- A statement. -/
def statement : Reader Statement :=
  fun cursor => statementWithin cursor.rest.length cursor

/-! ## Methods and programs -/

/-- A parameter with its type. -/
def parameter : Reader Parameter := do
  let name ← identifier
  let _ ← word ":"
  return ⟨name, ← identifier⟩

/-- What follows `DEF`: a name, parameters, an optional return type, a body. -/
def methodAfter (opening : Token) : Reader Method := do
  let name ← identifier
  let _ ← word "("
  let parameters ← commaSeparated parameter
  let returnTypeName ← after ":" identifier
  let statements ← body statement
  return {
    name, parameters, returnTypeName, body := statements
    span := ← spanFrom opening.span.start }

/-- Succeeds where no token is left. -/
def atEnd : Reader Unit :=
  fun cursor =>
    match cursor.rest with
    | [] => .ok ((), cursor)
    | _ :: _ => .error (cursor.complaint .methodOrEnd)

/-- A whole program. -/
def program : Reader Program := do
  let fields ← many (Cursor.take? (hasText "LET")) declarationAfter
  let methods ← many (Cursor.take? (hasText "DEF")) methodAfter
  atEnd
  return ⟨fields, methods⟩

end Reader

/-- Reads all of `tokens` as a program. -/
def Program.ofTokens (tokens : List Token) : Except SyntaxError Program :=
  (Reader.program.run { rest := tokens }).map (·.1)

theorem Program.ofTokens_eq_ok {tokens : List Token} {program : Program} :
    ofTokens tokens = .ok program ↔
      ∃ d, Reader.program ⟨tokens, 0⟩ = .ok (program, d) := by
  unfold ofTokens
  change (Reader.program ⟨tokens, 0⟩).map _ = _ ↔ _
  cases Reader.program ⟨tokens, 0⟩ with
  | error error => simp [Except.map]
  | ok result => simp [Except.map, Prod.ext_iff]

theorem Program.ofTokens_eq_error {tokens : List Token} {error : SyntaxError} :
    ofTokens tokens = .error error ↔ Reader.program ⟨tokens, 0⟩ = .error error := by
  unfold ofTokens
  change (Reader.program ⟨tokens, 0⟩).map _ = _ ↔ _
  cases Reader.program ⟨tokens, 0⟩ <;> simp [Except.map]

/-- Reads an expression at the front of `tokens`; what follows it is left alone. -/
def Expression.ofTokens (tokens : List Token) : Except SyntaxError Expression :=
  (Reader.expression.run { rest := tokens }).map (·.1)

end Primer
