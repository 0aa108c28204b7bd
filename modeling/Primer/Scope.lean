import Primer.Bindings
import Primer.Name

/-!
# Nested scopes

A scope is a root frame and the frames opened inside it.  Every frame binds variables by name and
functions by key; an inner binding hides an outer one.  The root frame cannot be closed.

`rootOnly` sets the inner frames aside, so that a function body sees the root frame only, and
`withInner` puts them back.
-/

namespace Primer

/-- The bindings of one block. -/
structure Frame (ν φ : Type) where
  variableBindings : List (String × ν) := []
  functionBindings : List (FunctionKey × φ) := []

/-- The frames that are open, the innermost first; the root frame is apart, so it is always
there. -/
structure Scope (ν φ : Type) where
  root : Frame ν φ := {}
  inner : List (Frame ν φ) := []

namespace Frame

variable {ν φ : Type}

def findVariable? (frame : Frame ν φ) (name : String) : Option ν :=
  frame.variableBindings.lookup name

def findFunction? (frame : Frame ν φ) (key : FunctionKey) : Option φ :=
  frame.functionBindings.lookup key

/-- Binds a new variable. -/
def addVariable (frame : Frame ν φ) (name : String) (value : ν) :
    Except NamingError (Frame ν φ) :=
  match frame.findVariable? name with
  | some _ => .error (.alreadyDefined name)
  | none => .ok { frame with variableBindings := (name, value) :: frame.variableBindings }

/-- Binds a new function. -/
def addFunction (frame : Frame ν φ) (key : FunctionKey) (function : φ) :
    Except NamingError (Frame ν φ) :=
  match frame.findFunction? key with
  | some _ => .error (.alreadyDefined key.name)
  | none => .ok { frame with functionBindings := (key, function) :: frame.functionBindings }

/-- Gives a bound variable a new value. -/
def assign? (frame : Frame ν φ) (name : String) (value : ν) : Option (Frame ν φ) :=
  (frame.findVariable? name).map fun _ =>
    { frame with variableBindings := Bindings.replace name value frame.variableBindings }

end Frame

namespace Scope

variable {ν φ : Type}

/-- The open frames, the innermost first and the root last. -/
def frames (scope : Scope ν φ) : List (Frame ν φ) :=
  scope.inner ++ [scope.root]

def depth (scope : Scope ν φ) : Nat :=
  scope.inner.length + 1

/-! ## Opening and closing frames -/

def push (scope : Scope ν φ) : Scope ν φ :=
  { scope with inner := {} :: scope.inner }

/-- Closes the innermost frame.  The root stays open. -/
def pop (scope : Scope ν φ) : Scope ν φ :=
  { scope with inner := scope.inner.tail }

/-- The root frame alone. -/
def rootOnly (scope : Scope ν φ) : Scope ν φ :=
  { scope with inner := [] }

/-- The root frame with `frames` open inside it. -/
def withInner (scope : Scope ν φ) (frames : List (Frame ν φ)) : Scope ν φ :=
  { scope with inner := frames }

/-! ## Bindings -/

/-- Changes the innermost frame. -/
def updateCurrent (scope : Scope ν φ)
    (update : Frame ν φ → Except NamingError (Frame ν φ)) : Except NamingError (Scope ν φ) :=
  match scope.inner with
  | [] => do
    let root ← update scope.root
    return { scope with root }
  | frame :: rest => do
    let frame ← update frame
    return { scope with inner := frame :: rest }

/-- Binds a new variable in the innermost frame. -/
def addVariable (scope : Scope ν φ) (name : String) (value : ν) :
    Except NamingError (Scope ν φ) :=
  scope.updateCurrent (·.addVariable name value)

/-- Binds a new function in the innermost frame. -/
def addFunction (scope : Scope ν φ) (key : FunctionKey) (function : φ) :
    Except NamingError (Scope ν φ) :=
  scope.updateCurrent (·.addFunction key function)

/-- The innermost binding of a variable. -/
def getVariable (scope : Scope ν φ) (name : String) : Except NamingError ν :=
  match scope.frames.findSome? (·.findVariable? name) with
  | some value => .ok value
  | none => .error (.undefinedVariable name)

/-- The innermost binding of a function. -/
def getFunction (scope : Scope ν φ) (key : FunctionKey) : Except NamingError φ :=
  match scope.frames.findSome? (·.findFunction? key) with
  | some function => .ok function
  | none => .error (.undefinedFunction key)

/-- Assigns in the first frame of the list that binds `name`. -/
def assignFirst? (name : String) (value : ν) : List (Frame ν φ) → Option (List (Frame ν φ))
  | [] => none
  | frame :: rest =>
    match frame.assign? name value with
    | some changed => some (changed :: rest)
    | none => (assignFirst? name value rest).map (frame :: ·)

/-- Gives the innermost binding of a variable a new value. -/
def assign (scope : Scope ν φ) (name : String) (value : ν) : Except NamingError (Scope ν φ) :=
  match assignFirst? name value scope.inner with
  | some inner => .ok { scope with inner }
  | none =>
    match scope.root.assign? name value with
    | some root => .ok { scope with root }
    | none => .error (.undefinedVariable name)

end Scope

end Primer
