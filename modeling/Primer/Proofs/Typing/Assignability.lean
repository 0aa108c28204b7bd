import Primer.Proofs.Environment.Requests

/-!
# The order of assignability

A type may accept another by what it is, as `Any` and `Comparable` do, or by the name of the other.
The two ways fit together only where a name means one type.  For types that come from one registry
it does, whatever was added to it in the meantime (`Registry.GivesOut`), and there assignability is
a partial order: `Any` is on top, the ordered types lie below `Comparable`, and no other type
accepts any but itself (`Registry.assignability_partialOrder`).
-/

namespace Primer

namespace Registry

/-! ## What a registry gives out -/

/-- The registry behind a request to add a type.  If it is refused, nothing changes. -/
def after (registry : Registry) (definition : TypeDefinition) : Registry :=
  match registry.add definition with
  | .ok extended => extended
  | .error _ => registry

/-- The registry behind any number of requests, the primitive types being there from the start. -/
def afterAll (requests : List TypeDefinition) : Registry :=
  requests.foldl after {}

/-- While the requests come in, the registry gives out a type: it is looked up between two of them,
or it is what a request has just added. -/
inductive GivesOut : (requests : List TypeDefinition) → Ty → Prop
  | lookedUp {earlier later : List TypeDefinition} {name : String} {type : Ty} :
    (afterAll earlier).get name = .ok type → GivesOut (earlier ++ later) type
  | added {earlier later : List TypeDefinition} {definition : TypeDefinition}
      {extended : Registry} :
    (afterAll earlier).add definition = .ok extended →
    GivesOut (earlier ++ definition :: later) (.nominal definition)

theorem find?_after {registry : Registry} {name : String} {type : Ty}
    (found : registry.find? name = some type) (definition : TypeDefinition) :
    (registry.after definition).find? name = some type := by
  unfold after
  split
  · rename_i added
    exact find?_of_add added found
  · exact found

theorem find?_foldl_after {registry : Registry} {name : String} {type : Ty}
    (found : registry.find? name = some type) (requests : List TypeDefinition) :
    (requests.foldl after registry).find? name = some type := by
  induction requests generalizing registry with
  | nil => exact found
  | cons definition requests ih => exact ih (find?_after found definition)

/-- What was given out at some time is what its name means in the end. -/
theorem GivesOut.find? {requests : List TypeDefinition} {type : Ty}
    (given : GivesOut requests type) : (afterAll requests).find? type.name = some type := by
  cases given with
  | @lookedUp earlier later name _ found =>
    have found := Registry.get_eq_ok.mp found
    rw [afterAll, List.foldl_append, name_of_find? found]
    exact find?_foldl_after found later
  | @added earlier later definition extended granted =>
    have atOnce : (afterAll earlier).after definition = extended := by rw [after, granted]
    rw [afterAll, List.foldl_append, List.foldl_cons]
    refine find?_foldl_after ?_ later
    rw [← afterAll, atOnce]
    exact find?_added granted

theorem GivesOut.primitive (requests : List TypeDefinition) {type : Ty}
    (member : type ∈ Ty.primitives) : GivesOut requests type :=
  @GivesOut.lookedUp [] requests type.name type (Registry.get_eq_ok.mpr (find?_primitive member))

/-! ## The order -/

section

variable {requests : List TypeDefinition} {target middle source : Ty}

/-- Types that a registry gives out are told apart by their names. -/
theorem GivesOut.eq_of_name (given : GivesOut requests target) (given' : GivesOut requests source)
    (same : target.name = source.name) : target = source := by
  have found := given.find?
  rw [same, given'.find?] at found
  exact (Option.some.inj found).symm

theorem GivesOut.mustAccept_eq_ok (given : GivesOut requests target)
    (given' : GivesOut requests source) :
    target.mustAccept source = .ok () ↔
      target = .any ∨ target = .comparable ∧ source.isOrdered = true ∨ target = source := by
  rw [Ty.mustAccept_eq_ok]
  constructor
  · intro assignable
    cases assignable with
    | any => exact .inl rfl
    | ordered member => exact .inr (.inl ⟨rfl, Ty.isOrdered_iff.mpr member⟩)
    | same _ name_eq => exact .inr (.inr (given.eq_of_name given' name_eq))
  · rintro (rfl | ⟨rfl, ordered⟩ | rfl)
    · exact .any source
    · exact .ordered (Ty.isOrdered_iff.mp ordered)
    · by_cases comparable : target = .comparable
      · subst comparable
        exact .ordered (.head _)
      · exact .same comparable rfl

theorem GivesOut.mustAccept_trans (given : GivesOut requests target)
    (given' : GivesOut requests middle) (given'' : GivesOut requests source)
    (first : target.mustAccept middle = .ok ()) (second : middle.mustAccept source = .ok ()) :
    target.mustAccept source = .ok () := by
  rw [given.mustAccept_eq_ok given'] at first
  obtain rfl | ⟨rfl, ordered⟩ | rfl := first
  · exact (given.mustAccept_eq_ok given'').mpr (.inl rfl)
  · rw [given'.mustAccept_eq_ok given''] at second
    refine (given.mustAccept_eq_ok given'').mpr (.inr (.inl ⟨rfl, ?_⟩))
    -- `Any` is not ordered, so it is not what lies between.
    obtain rfl | ⟨-, ordered'⟩ | rfl := second
    · cases ordered
    · exact ordered'
    · exact ordered
  · exact second

theorem GivesOut.mustAccept_antisymm (given : GivesOut requests target)
    (given' : GivesOut requests source) (accepted : target.mustAccept source = .ok ())
    (back : source.mustAccept target = .ok ()) : target = source := by
  rw [given.mustAccept_eq_ok given'] at accepted
  rw [given'.mustAccept_eq_ok given] at back
  obtain rfl | ⟨rfl, ordered⟩ | same := accepted
  · obtain rfl | ⟨-, ordered⟩ | same := back
    · rfl
    · cases ordered
    · exact same.symm
  · obtain rfl | ⟨rfl, -⟩ | same := back
    · cases ordered
    · rfl
    · exact same.symm
  · exact same

theorem GivesOut.accepts_another_iff (given : GivesOut requests target) :
    (∃ source, GivesOut requests source ∧ source ≠ target ∧ target.mustAccept source = .ok ()) ↔
      target = .comparable ∨ target = .any := by
  constructor
  · rintro ⟨source, given', other, accepted⟩
    obtain rfl | ⟨rfl, -⟩ | rfl := (given.mustAccept_eq_ok given').mp accepted
    · exact .inr rfl
    · exact .inl rfl
    · exact absurd rfl other
  · have integer : GivesOut requests .integer := .primitive requests (by simp [Ty.primitives])
    rintro (rfl | rfl)
    all_goals exact ⟨.integer, integer, by rintro ⟨⟩, rfl⟩

end

/-- Whatever is asked of a registry, between the types that it gives out assignability is a partial
order.  `Any` accepts all of them and is accepted by itself alone; only `Comparable` and `Any`
accept another type. -/
theorem assignability_partialOrder (requests : List TypeDefinition) :
    (∀ type, GivesOut requests type → type.mustAccept type = .ok ()) ∧
    (∀ a b c, GivesOut requests a → GivesOut requests b → GivesOut requests c →
      a.mustAccept b = .ok () → b.mustAccept c = .ok () → a.mustAccept c = .ok ()) ∧
    (∀ a b, GivesOut requests a → GivesOut requests b →
      a.mustAccept b = .ok () → b.mustAccept a = .ok () → a = b) ∧
    (∀ type, GivesOut requests type →
      Ty.any.mustAccept type = .ok () ∧ (type.mustAccept .any = .ok () ↔ type = .any)) ∧
    (∀ type, GivesOut requests type →
      ((∃ other, GivesOut requests other ∧ other ≠ type ∧ type.mustAccept other = .ok ()) ↔
        type = .comparable ∨ type = .any)) := by
  have any : GivesOut requests .any := .primitive requests (.head _)
  refine ⟨?_, ?_, ?_, ?_, ?_⟩
  · intro type given
    exact (given.mustAccept_eq_ok given).mpr (.inr (.inr rfl))
  · intro a b c given given' given''
    exact given.mustAccept_trans given' given''
  · intro a b given given'
    exact given.mustAccept_antisymm given'
  · intro type given
    have onTop : Ty.any.mustAccept type = .ok () := rfl
    refine ⟨onTop, fun accepted => given.mustAccept_antisymm any accepted onTop, ?_⟩
    rintro rfl
    rfl
  · intro type given
    exact given.accepts_another_iff

/-- Two definitions of one name, of which the second is refused, and one with the name of a primitive
type. -/
def rivalRequests : List TypeDefinition :=
  [Counter.definition, { name := "Counter", javaName := "Tally" },
    { name := "Comparable", javaName := "Sortable" }]

theorem assignability_partialOrder_rivalRequests :
    afterAll rivalRequests = ⟨[Counter.definition]⟩ ∧
      GivesOut rivalRequests (.nominal Counter.definition) ∧
      Ty.any.mustAccept .comparable = .ok () ∧ Ty.comparable.mustAccept .string = .ok () ∧
      Ty.any.mustAccept .string = .ok () ∧
      (Ty.nominal Counter.definition).mustAccept .any ≠ .ok () ∧
      ¬∃ other, GivesOut rivalRequests other ∧ other ≠ .nominal Counter.definition ∧
        (Ty.nominal Counter.definition).mustAccept other = .ok () := by
  have granted : (afterAll []).add Counter.definition = .ok ⟨[Counter.definition]⟩ := rfl
  have counter : GivesOut rivalRequests (.nominal Counter.definition) :=
    @GivesOut.added [] _ _ _ granted
  have given : ∀ type ∈ Ty.primitives, GivesOut rivalRequests type :=
    fun _ => .primitive rivalRequests
  obtain ⟨-, transitive, -, top, others⟩ := assignability_partialOrder rivalRequests
  have any : GivesOut rivalRequests .any := given _ (by simp [Ty.primitives])
  have comparable : GivesOut rivalRequests .comparable := given _ (by simp [Ty.primitives])
  have string : GivesOut rivalRequests .string := given _ (by simp [Ty.primitives])
  refine ⟨rfl, counter, rfl, rfl, transitive _ _ _ any comparable string rfl rfl, ?_, ?_⟩
  · rw [Ne, (top _ counter).2]
    rintro ⟨⟩
  · rw [others _ counter]
    rintro (⟨⟨⟩⟩ | ⟨⟨⟩⟩)

/-- Types that come from nowhere have no such order: one with the name of a primitive type accepts
it, and not what it accepts. -/
example :
    let sortable : Ty := .nominal { name := "Comparable", javaName := "Sortable" }
    sortable.mustAccept .comparable = .ok () ∧ Ty.comparable.mustAccept .integer = .ok () ∧
      sortable.mustAccept .integer ≠ .ok () :=
  ⟨rfl, rfl, by decide⟩

end Registry

end Primer
