import Primer.Scope
import Primer.Syntax.Basic

/-!
# Places in a program

A place names a node of a program by the turns that lead to it.  Two walks over one program visit
the same node exactly when they are at the same place, whatever they know about it.

A spot is a place together with the places that bound the names in scope there: a chain of frames
like any other scope, in which a name stands for the declaration, the parameter or the loop header
that made its binding.
-/

namespace Primer

/-- A turn from a node of a program to one of its parts. -/
inductive Turn where
  | field (name : String)
  | method (key : FunctionKey)
  | parameter (name : String)
  | value
  | target
  | condition
  | range
  | thenBody
  | elseBody
  | body
  | first
  | others
  | inner
  | left
  | right
  | receiver
  | arguments
deriving DecidableEq, Repr

/-- The turns that lead to a node, the last one first. -/
abbrev Place := List Turn

/-- Which place bound a name. -/
abbrev Binders := Scope Place Unit

/-- Records that the node at `place` binds `name` in the innermost frame.  A frame binds a name
once. -/
def Binders.declare (binders : Binders) (name : String) (place : Place) : Binders :=
  match binders.addVariable name place with
  | .ok extended => extended
  | .error _ => binders

/-- A place and the binders of the names in scope there. -/
structure Spot where
  place : Place
  binders : Binders

namespace Spot

/-- A part of the node that sees the names that the node sees. -/
def down (spot : Spot) (turn : Turn) : Spot :=
  { spot with place := turn :: spot.place }

/-- A part of the node with a frame of its own. -/
def into (spot : Spot) (turn : Turn) : Spot :=
  ⟨turn :: spot.place, spot.binders.push⟩

/-- The body of a `FOR` loop, whose header binds the loop variable. -/
def intoRound (spot : Spot) (name : String) : Spot :=
  ⟨.body :: spot.place, Binders.declare spot.binders.push name spot.place⟩

/-- The binders behind the statement at the spot. -/
def behind (spot : Spot) : Statement → Binders
  | .declaration decl => Binders.declare spot.binders decl.name spot.place
  | _ => spot.binders

/-- The rest of a block behind its first statement. -/
def past (spot : Spot) (first : Statement) : Spot :=
  ⟨.others :: spot.place, (spot.down .first).behind first⟩

end Spot

/-- Where a field of the program stands. -/
def Declaration.fieldPlace (declaration : Declaration) : Place :=
  [.field declaration.name]

/-- The fields as binders, on top of those already there. -/
def Binders.ofFields (binders : Binders) (fields : List Declaration) : Binders :=
  fields.foldl (fun binders field => binders.declare field.name field.fieldPlace) binders

/-- The body of a method, whose parameters are bound on top of the root frame. -/
def Method.bodySpot (method : Method) (binders : Binders) : Spot :=
  ⟨[.method method.key],
    method.parameters.foldl
      (fun binders parameter =>
        binders.declare parameter.name [.parameter parameter.name, .method method.key])
      binders.rootOnly.push⟩

end Primer
