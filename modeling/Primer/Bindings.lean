/-!
# Lists of bindings

Frames and objects keep what they bind as a list of pairs, of which the first with a given key
counts. `List.lookup` reads such a list; `Bindings.replace` changes what a key is bound to and
keeps the keys.
-/

namespace Primer.Bindings

variable {κ α : Type} [DecidableEq κ]

/-- Replaces the value of `key` where it is bound first. -/
def replace (key : κ) (value : α) : List (κ × α) → List (κ × α)
  | [] => []
  | (bound, old) :: rest =>
    if bound = key then (bound, value) :: rest else (bound, old) :: replace key value rest

end Primer.Bindings
