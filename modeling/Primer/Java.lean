import Primer.Syntax.Basic
import Primer.Text.Escape

/-!
# Java text

A checked program is written as one Java class: the fields, a Java `main` that calls the
program's own, and the methods.  All names and types come from the slots of the tree, so a tree
with an empty slot cannot be written.

The text is made of lines, each with the number of blocks it stands in.
-/

namespace Primer

/-- The name whose slot is empty. -/
structure EmptySlot where
  name : String
deriving DecidableEq, Repr

def EmptySlot.message (error : EmptySlot) : String :=
  s!"'{error.name}' has not been analyzed"

namespace Java

/-- A line of text inside `depth` blocks. -/
structure Line where
  depth : Nat
  text : String
deriving DecidableEq, Repr

/-- Four spaces for every block, the text, and a line end. -/
def Line.render (line : Line) : String :=
  String.ofList (List.replicate (4 * line.depth) ' ') ++ line.text ++ "\n"

def blank : Line := ⟨0, ""⟩

/-- The brace that opens a block, at the end of a line. -/
def opening : String := " \x7b"

/-- The brace that closes a block. -/
def closing : String := "\x7d"

/-- What a slot holds. -/
def resolved {α : Type} (slot : Option α) (name : String) : Except EmptySlot α :=
  match slot with
  | some content => .ok content
  | none => .error ⟨name⟩

/-- Text between two quotes, escaped as needed. -/
def quoted (quote : Char) (text : List Char) : String :=
  String.ofList (quote :: Escape.encode quote text ++ [quote])

end Java

open Java

/-! ## Expressions -/

def Literal.toJava : Literal → String
  | .nil => "null"
  | .boolean true => "true"
  | .boolean false => "false"
  | .integer value => Numeral.render value
  | .decimal value => value.render
  | .character value => quoted '\'' [value]
  | .string value => quoted '"' value.toList

def Operator.toJava : Operator → String
  | .and => "&&"
  | .or => "||"
  | operator => operator.symbol

mutual

/-- An expression in Java.  Of several empty slots the one of the node itself is named first, then
those of the arguments, then those of the receiver. -/
def Expression.toJava : Expression → Except EmptySlot String
  | .literal _ value => .ok value.toJava
  | .group _ inner => do
    return "(" ++ (← inner.toJava) ++ ")"
  | .binary _ operator left right => do
    let left ← left.toJava
    let right ← right.toJava
    return left ++ " " ++ operator.toJava ++ " " ++ right
  | .access _ name binding => do
    return (← resolved binding name).javaName
  | .memberAccess _ receiver name binding => do
    let binding ← resolved binding name
    return (← receiver.toJava) ++ "." ++ binding.javaName
  | .call _ name arguments binding => do
    let binding ← resolved binding name
    let arguments ← Expression.allToJava arguments
    return binding.javaName ++ "(" ++ ", ".intercalate arguments ++ ")"
  | .memberCall _ receiver name arguments binding => do
    let binding ← resolved binding name
    let arguments ← Expression.allToJava arguments
    return (← receiver.toJava) ++ "." ++ binding.javaName ++ "(" ++
      ", ".intercalate arguments ++ ")"

def Expression.allToJava : List Expression → Except EmptySlot (List String)
  | [] => .ok []
  | expression :: expressions => do
    let first ← expression.toJava
    let others ← Expression.allToJava expressions
    return first :: others

end

/-! ## Statements -/

/-- A declaration on one line. -/
def Declaration.toJava (depth : Nat) (declaration : Declaration) : Except EmptySlot Line := do
  let binding ← resolved declaration.binding declaration.name
  let value ← match declaration.value with
    | some value => do pure (" = " ++ (← value.toJava))
    | none => pure ""
  return ⟨depth, binding.type.javaName ++ " " ++ binding.javaName ++ value ++ ";"⟩

mutual

/-- The lines of a statement inside `depth` blocks. -/
def Statement.toJava (depth : Nat) : Statement → Except EmptySlot (List Line)
  | .expression value => do
    return [⟨depth, (← value.toJava) ++ ";"⟩]
  | .declaration decl => do
    return [← decl.toJava depth]
  | .assignment target value => do
    let target ← target.toJava
    let value ← value.toJava
    return [⟨depth, target ++ " = " ++ value ++ ";"⟩]
  | .conditional condition thenBody elseBody => do
    let condition ← condition.toJava
    let thenLines ← Statement.allToJava (depth + 1) thenBody
    let elseLines ← Statement.allToJava (depth + 1) elseBody
    let otherwise :=
      if elseBody.isEmpty then [] else ⟨depth, closing ++ " else" ++ opening⟩ :: elseLines
    return ⟨depth, "if (" ++ condition ++ ")" ++ opening⟩ :: thenLines ++ otherwise ++
      [⟨depth, closing⟩]
  | .forEach name range body => do
    let range ← range.toJava
    let lines ← Statement.allToJava (depth + 1) body
    return ⟨depth, "for (int " ++ name ++ " : " ++ range ++ ")" ++ opening⟩ :: lines ++
      [⟨depth, closing⟩]
  | .loop condition body => do
    let condition ← condition.toJava
    let lines ← Statement.allToJava (depth + 1) body
    return ⟨depth, "while (" ++ condition ++ ")" ++ opening⟩ :: lines ++ [⟨depth, closing⟩]
  | .result value => do
    return [⟨depth, "return " ++ (← value.toJava) ++ ";"⟩]

def Statement.allToJava (depth : Nat) : List Statement → Except EmptySlot (List Line)
  | [] => .ok []
  | statement :: statements => do
    let first ← statement.toJava depth
    let others ← Statement.allToJava depth statements
    return first ++ others

end

/-! ## Programs -/

/-- The lines of a method. -/
def Method.toJava (method : Method) : Except EmptySlot (List Line) := do
  let binding ← resolved method.binding method.name
  let parameters := (method.parameters.zip binding.parameters).map fun (parameter, type) =>
    type.javaName ++ " " ++ parameter.name
  let lines ← Statement.allToJava 2 method.body
  let head := binding.returns.javaName ++ " " ++ binding.javaName ++ "(" ++
    ", ".intercalate parameters ++ ")" ++ opening
  return ⟨1, head⟩ :: lines ++ [⟨1, closing⟩]

/-- The Java `main`, which runs the program's own and leaves with its value. -/
def Java.entry : List Line :=
  [⟨1, "public static void main(String[] args)" ++ opening⟩,
    ⟨2, "System.exit(new Main().main());"⟩, ⟨1, closing⟩]

/-- The lines of a program. -/
def Program.javaLines (program : Program) : Except EmptySlot (List Line) := do
  let fields ← program.fields.mapM (Declaration.toJava 1)
  let methods ← program.methods.mapM Method.toJava
  let afterFields := if program.fields.isEmpty then [] else [blank]
  return [⟨0, "public class Main" ++ opening⟩, blank] ++ fields ++ afterFields ++ Java.entry ++
    [blank] ++ methods.flatMap (· ++ [blank]) ++ [⟨0, closing⟩]

/-- A program as Java text. -/
def Program.toJava (program : Program) : Except EmptySlot String := do
  return String.join ((← program.javaLines).map Line.render)

end Primer
