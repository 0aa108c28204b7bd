/-!
# Binary operators
-/

namespace Primer

/-- An operator between two expressions. -/
inductive Operator where
  | and
  | or
  | less
  | lessEqual
  | greater
  | greaterEqual
  | equal
  | notEqual
  | add
  | subtract
  | multiply
  | divide
deriving DecidableEq, Repr

/-- How tightly an operator binds, from the loosest to the tightest.  Operators of one level
group to the left. -/
inductive Precedence where
  | logical
  | comparison
  | additive
  | multiplicative
deriving DecidableEq, Repr

namespace Operator

/-- The operator as written in a program. -/
def symbol : Operator → String
  | .and => "AND"
  | .or => "OR"
  | .less => "<"
  | .lessEqual => "<="
  | .greater => ">"
  | .greaterEqual => ">="
  | .equal => "=="
  | .notEqual => "!="
  | .add => "+"
  | .subtract => "-"
  | .multiply => "*"
  | .divide => "/"

/-- The operator with a given symbol. -/
def ofSymbol? : String → Option Operator
  | "AND" => some .and
  | "OR" => some .or
  | "<" => some .less
  | "<=" => some .lessEqual
  | ">" => some .greater
  | ">=" => some .greaterEqual
  | "==" => some .equal
  | "!=" => some .notEqual
  | "+" => some .add
  | "-" => some .subtract
  | "*" => some .multiply
  | "/" => some .divide
  | _ => none

def precedence : Operator → Precedence
  | .and | .or => .logical
  | .less | .lessEqual | .greater | .greaterEqual | .equal | .notEqual => .comparison
  | .add | .subtract => .additive
  | .multiply | .divide => .multiplicative

end Operator

end Primer
