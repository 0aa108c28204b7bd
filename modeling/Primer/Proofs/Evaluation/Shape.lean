import Mathlib.Data.Set.Defs
import Primer.Environment.Counter
import Primer.Proofs.Evaluation.Points
import Primer.Proofs.Scope.Agreement

/-!
# Objects keep their shape

The shape of an object is its type and the set of its field names.  No event changes the shape of
an object that is there (`Store.HasShape.next`), so an object has the shape that it was created
with at every point of a run.  `Event.Lawful` says what an event does to the fields: a read changes
nothing, a write changes one field of one object or fails and changes nothing, and creation touches
no object that was there before.

The accesses and assignments of a run are reads and writes among its events (`Access.ReadsAt`,
`Access.WritesAt`), so what is known of events holds for them (`Program.objects_keep_shape`).

Handles with the same index are handles on the same object.  All statements are about runs of any
program in any environment; whether the program was checked plays no part.
-/

namespace Primer

namespace Store

/-- The object behind the handle is of the type and has exactly the named fields. -/
def HasShape (store : Store) (ref : Ref) (type : Ty) (names : Set String) : Prop :=
  ∃ object, store.find? ref = some object ∧ object.type = type ∧
    ∀ name, (object.fields.lookup name).isSome ↔ name ∈ names

variable {store : Store} {ref handle : Ref} {type : Ty} {names : Set String} {field : String}

theorem find?_congr (store : Store) (same : handle.index = ref.index) :
    store.find? handle = store.find? ref := by
  rw [find?, find?, same]

theorem read?_congr (store : Store) (same : handle.index = ref.index) (name : String) :
    store.read? handle name = store.read? ref name := by
  rw [read?, read?, store.find?_congr same]

theorem HasShape.read?_isSome (shape : store.HasShape ref type names) (name : String) :
    (store.read? ref name).isSome ↔ name ∈ names := by
  obtain ⟨object, found, -, fields⟩ := shape
  rw [← fields name, read?, found]
  rfl

theorem HasShape.of_index (shape : store.HasShape ref type names)
    (same : handle.index = ref.index) : store.HasShape handle type names := by
  rwa [HasShape, store.find?_congr same]

/-- Whatever can be read stands behind a handle on an object of some shape. -/
theorem exists_hasShape_of_read? {value : Value} (there : store.read? ref field = some value) :
    ∃ type names, store.HasShape ref type names ∧ field ∈ names := by
  obtain ⟨object, found, bound⟩ := Option.bind_eq_some_iff.mp there
  refine ⟨object.type, { name | (object.fields.lookup name).isSome },
    ⟨object, found, rfl, fun _ => Iff.rfl⟩, ?_⟩
  change (object.fields.lookup field).isSome
  rw [bound]
  rfl

/-! ## Writing -/

theorem write_of_absent (absent : store.read? ref field = none) (value : Value) :
    store.write ref field value = (.error (.unknownField field ref.typeName), store) := by
  rw [write, absent]

/-- A write changes what is read under one name behind the handles on one object. -/
theorem read?_write (there : (store.read? ref field).isSome) (value : Value) (handle : Ref)
    (name : String) :
    (store.write ref field value).2.read? handle name =
      if handle.index = ref.index ∧ name = field then some value else store.read? handle name := by
  by_cases same : handle.index = ref.index
  · rw [read?_congr _ same, read?_congr store same, read?, find?_write, if_pos ⟨rfl, there⟩]
    obtain ⟨old, there⟩ := Option.isSome_iff_exists.mp there
    obtain ⟨object, found, bound⟩ := Option.bind_eq_some_iff.mp there
    rw [read?, found]
    simp only [Option.map_some, Option.bind_eq_bind, Option.bind_some,
      Bindings.lookup_replace_eq, bound, same, true_and]
  · rw [if_neg fun both => same both.1, read?, find?_write,
      if_neg fun both => same both.1.symm, read?]

/-! ## The shape of an object lasts -/

theorem HasShape.create (shape : store.HasShape ref type names) (other : Ty)
    (fields : List (String × Value)) : (store.create other fields).2.HasShape ref type names := by
  obtain ⟨object, found, rest⟩ := shape
  have old : ref.index < store.objects.size := (Array.getElem?_eq_some_iff.mp found).1
  refine ⟨object, ?_, rest⟩
  rw [find?_create, if_neg (by omega), found]

theorem HasShape.write (shape : store.HasShape ref type names) (target : Ref) (field : String)
    (value : Value) : (store.write target field value).2.HasShape ref type names := by
  obtain ⟨object, found, typed, named⟩ := shape
  rw [HasShape, find?_write, found]
  split
  · refine ⟨_, rfl, typed, fun name => ?_⟩
    rw [← named name, Bindings.lookup_replace_eq]
    split
    · rename_i same
      rw [same, Option.isSome_map]
    · rfl
  · exact ⟨object, rfl, typed, named⟩

/-- No event changes the shape of an object. -/
theorem HasShape.next (shape : store.HasShape ref type names) (event : Event) :
    (event.next store).HasShape ref type names := by
  cases event with
  | create _ other fields => exact shape.create other fields
  | read => exact shape
  | write target field value _ => exact shape.write target field value

theorem HasShape.replay (shape : store.HasShape ref type names) (events : List Event) :
    (store.replay events).HasShape ref type names := by
  induction events generalizing store with
  | nil => exact shape
  | cons event events ih => exact ih (shape.next event)

/-- What can be read once can be read for ever. -/
theorem read?_isSome_replay {value : Value} (there : store.read? ref field = some value)
    (same : handle.index = ref.index) (events : List Event) :
    ((store.replay events).read? handle field).isSome := by
  obtain ⟨type, names, shape, member⟩ := exists_hasShape_of_read? there
  exact (((shape.replay events).of_index same).read?_isSome field).mpr member

/-! ## Where objects come from -/

/-- The names of the fields that an object is created with. -/
def fieldNames (fields : List (String × Value)) : Set String :=
  { name | ∃ value, (name, value) ∈ fields }

theorem find?_create_self (store : Store) (type : Ty) (fields : List (String × Value)) :
    (store.create type fields).2.find? (store.create type fields).1 =
      some ⟨type, fields.reverse⟩ :=
  (store.find?_create type fields _).trans (if_pos rfl)

theorem hasShape_create (store : Store) (type : Ty) (fields : List (String × Value)) :
    (store.create type fields).2.HasShape (store.create type fields).1 type
      (fieldNames fields) := by
  refine ⟨⟨type, fields.reverse⟩, store.find?_create_self type fields, rfl, fun name => ?_⟩
  rw [List.lookup_isSome_iff]
  constructor
  · rintro ⟨⟨bound, value⟩, member, same⟩
    cases eq_of_beq same
    exact ⟨value, List.mem_reverse.mp member⟩
  · rintro ⟨value, member⟩
    exact ⟨(name, value), List.mem_reverse.mpr member, beq_self_eq_true name⟩

/-- An object that is there after an event was there before, or the event created it. -/
theorem exists_of_find?_next {event : Event} {object : Object} (fits : event.Fits store)
    (found : (event.next store).find? handle = some object) :
    (∃ old, store.find? handle = some old) ∨
      ∃ creation type fields, event = .create creation type fields ∧
        creation.index = handle.index := by
  cases event with
  | create creation type fields =>
    by_cases fresh : handle.index = store.objects.size
    · refine .inr ⟨creation, type, fields, rfl, ?_⟩
      rw [fits, fresh]
      rfl
    · rw [Event.next, find?_create, if_neg fresh] at found
      exact .inl ⟨object, found⟩
  | read => exact .inl ⟨object, found⟩
  | write target field value answer =>
    rw [Event.next, find?_write] at found
    split at found
    · obtain ⟨old, there, -⟩ := Option.map_eq_some_iff.mp found
      exact .inl ⟨old, there⟩
    · exact .inl ⟨object, found⟩

theorem exists_of_find?_replay {events : List Event} {object : Object}
    (admits : store.Admits events) (found : (store.replay events).find? handle = some object) :
    (∃ old, store.find? handle = some old) ∨
      ∃ creation type fields, .create creation type fields ∈ events ∧
        creation.index = handle.index := by
  induction events generalizing store with
  | nil => exact .inl ⟨object, found⟩
  | cons event events ih =>
    obtain ⟨between, there⟩ | ⟨creation, type, fields, member, same⟩ := ih admits.2 found
    · obtain before | ⟨creation, type, fields, rfl, same⟩ := exists_of_find?_next admits.1 there
      · exact .inl before
      · exact .inr ⟨creation, type, fields, List.mem_cons_self, same⟩
    · exact .inr ⟨creation, type, fields, List.mem_cons_of_mem _ member, same⟩

theorem hasShape_of_create_mem {events : List Event} {creation : Ref}
    {fields : List (String × Value)} (admits : store.Admits events)
    (member : .create creation type fields ∈ events) :
    (store.replay events).HasShape creation type (fieldNames fields) := by
  obtain ⟨past, rest, rfl⟩ := List.append_of_mem member
  obtain ⟨-, fits, -⟩ := (store.admits_append past _).mp admits
  rw [replay_append]
  have made := (store.replay past).hasShape_create type fields
  rw [← fits] at made
  exact made.replay rest

end Store

/-! ## What an event does -/

/-- What an event may do to the store, and the answer that it then records. -/
def Event.Lawful (before after : Store) : Event → Prop
  | .create ref type fields =>
    before.find? ref = none ∧
    after.HasShape ref type (Store.fieldNames fields) ∧
    (∀ name, after.read? ref name = fields.reverse.lookup name) ∧
    ∀ other, other.index ≠ ref.index → after.find? other = before.find? other
  | .read ref field answer =>
    answer = before.read? ref field ∧ after = before
  | .write ref field value answer =>
    ((before.read? ref field).isSome → answer = .ok () ∧
      ∀ handle name, after.read? handle name =
        if handle.index = ref.index ∧ name = field then some value
        else before.read? handle name) ∧
    (before.read? ref field = none →
      answer = .error (.unknownField field ref.typeName) ∧ after = before)

namespace Event

theorem lawful_create (store : Store) (type : Ty) (fields : List (String × Value)) :
    (Event.create (store.create type fields).1 type fields).Lawful store
      (store.create type fields).2 := by
  refine ⟨Array.getElem?_size, store.hasShape_create type fields, fun name => ?_, ?_⟩
  · rw [Store.read?, store.find?_create_self type fields]
    rfl
  · intro other different
    exact (store.find?_create type fields other).trans (if_neg different)

theorem lawful_write (store : Store) (ref : Ref) (field : String) (value : Value) :
    (Event.write ref field value (store.write ref field value).1).Lawful store
      (store.write ref field value).2 := by
  constructor
  · intro there
    refine ⟨?_, store.read?_write there value⟩
    obtain ⟨old, there⟩ := Option.isSome_iff_exists.mp there
    rw [Store.write, there]
  · intro absent
    rw [Store.write_of_absent absent]
    exact ⟨rfl, rfl⟩

theorem Fits.lawful {store : Store} {event : Event} (fits : event.Fits store) :
    event.Lawful store (event.next store) := by
  cases event with
  | create ref type fields =>
    cases fits
    exact lawful_create store type fields
  | read ref field answer => exact ⟨fits, rfl⟩
  | write ref field value answer =>
    cases fits
    exact lawful_write store ref field value

end Event

/-! ## Accesses and assignments -/

/-- An access to a field, with the machine that it begins with. -/
structure Access where
  spot : Spot
  note : Note
  receiver : Expression
  field : String
  slot : Option Variable
  limit : Nat
  machine : Machine

namespace Access

def expression (access : Access) : Expression :=
  .memberAccess access.note access.receiver access.field access.slot

def activity (access : Access) : Activity :=
  ⟨.expression access.spot access.expression, access.limit, access.machine⟩

/-- The assignment of a value to the field. -/
def assignment (access : Access) (value : Expression) : Activity :=
  ⟨.assignment access.spot access.expression value, access.limit, access.machine⟩

/-- How the receiver is evaluated. -/
def owner (access : Access) : Outcome RunError Value × Machine :=
  access.receiver.evaluate (Method.call access.limit) access.machine

/-- How the access ends. -/
def outcome (access : Access) : Outcome RunError Value × Machine :=
  access.expression.evaluate (Method.call access.limit) access.machine

/-- The access is the read of the field of the object behind `ref` right after `past`, and it ends
as the answer says. -/
def ReadsAt (access : Access) (events past : List Event) (ref : Ref) : Prop :=
  ∃ (between : Machine) (answer : Option Value), past ++ [.read ref access.field answer] <+: events ∧
    between.effects.store = Store.after past ∧
    access.owner = (.value (.object ref), between) ∧
    access.outcome = (match answer with
      | some value => .value value
      | none => .error (.unknownField access.field ref.typeName), between)

/-- The assignment is the write of `assigned` to the field of the object behind `ref` right after
`past`, and it ends as the answer says. -/
def WritesAt (access : Access) (value : Expression) (events past : List Event) (ref : Ref)
    (assigned : Value) : Prop :=
  ∃ (later : Machine) (answer : Except RunError Unit), past ++ [.write ref access.field assigned answer] <+: events ∧
    later.effects.store = Store.after past ∧
    access.expression.assign (Method.call access.limit) value access.machine =
      Eval.ofExcept answer { later with effects := { later.effects with
        store := Store.after (past ++ [.write ref access.field assigned answer]) } }

variable {access : Access} {value : Expression} {between later : Machine} {ref : Ref}
  {assigned : Value}

/-- An access comes down to one read of the field. -/
theorem outcome_eq (owned : access.owner = (.value (.object ref), between)) :
    access.outcome = (match between.effects.store.read? ref access.field with
      | some value => .value value
      | none => .error (.unknownField access.field ref.typeName), between) := by
  rw [outcome, expression, Expression.evaluate, Eval.bind_of_value owned]
  exact Eval.readField_eq between ref access.field

theorem events_activity (owned : access.owner = (.value (.object ref), between)) :
    access.activity.events =
      (access.receiver.journal (Method.journal access.limit)).events access.machine ++
        [.read ref access.field (between.effects.store.read? ref access.field)] := by
  refine (Journal.events_bind_of_value owned).trans ?_
  exact congrArg _ (Journal.events_readField access.field ref between)

/-- An assignment comes down to one write of the field. -/
theorem assign_eq (owned : access.owner = (.value (.object ref), between))
    (valued : value.evaluate (Method.call access.limit) between = (.value assigned, later)) :
    access.expression.assign (Method.call access.limit) value access.machine =
      Eval.ofExcept (later.effects.store.write ref access.field assigned).1 { later with effects :=
        { later.effects with
          store := (later.effects.store.write ref access.field assigned).2 } } := by
  rw [expression, Expression.assign, Eval.bind_of_value owned, Eval.bind_of_value valued,
    Eval.writeField, Eval.ofNative_eq, Native.run_writeField]

theorem events_assignment (owned : access.owner = (.value (.object ref), between))
    (valued : value.evaluate (Method.call access.limit) between = (.value assigned, later)) :
    (access.assignment value).events =
      (access.receiver.journal (Method.journal access.limit)).events access.machine ++
        (value.journal (Method.journal access.limit)).events between ++
        [.write ref access.field assigned
          (later.effects.store.write ref access.field assigned).1] := by
  refine (Journal.events_bind_of_value owned).trans ?_
  rw [List.append_assoc]
  refine congrArg _ ((Journal.events_bind_of_value valued).trans ?_)
  exact congrArg _ (Journal.events_writeField access.field assigned ref later)

/-- The store after the receiver, if the access begins after `before`. -/
theorem store_owner {before : List Event} (begun : access.machine.effects.store = .after before)
    (owned : access.owner = (.value (.object ref), between)) :
    between.effects.store = .after (before ++
      (access.receiver.journal (Method.journal access.limit)).events access.machine) := by
  have store := (access.receiver.journal (Method.journal access.limit)).store_eq access.machine
  rw [show access.receiver.evaluate _ _ = _ from owned, begun, ← Store.after_append] at store
  exact store

end Access

section Points

variable {program : Program} {environment : Environment} {bound : Nat} {access : Access}
  {value : Expression} {between later : Machine} {ref : Ref} {assigned : Value}

theorem Program.exists_readsAt (performs : program.Performs environment bound access.activity)
    (owned : access.owner = (.value (.object ref), between)) :
    ∃ past, access.ReadsAt (program.history environment bound) past ref := by
  obtain ⟨before, rest, whole, begun⟩ := Program.exists_point performs
  refine ⟨_, between, between.effects.store.read? ref access.field, ?_,
    Access.store_owner begun owned, owned, Access.outcome_eq owned⟩
  rw [whole, Access.events_activity owned]
  exact ⟨rest, by simp only [List.append_assoc]⟩

theorem Program.exists_writesAt
    (performs : program.Performs environment bound (access.assignment value))
    (owned : access.owner = (.value (.object ref), between))
    (valued : value.evaluate (Method.call access.limit) between = (.value assigned, later)) :
    ∃ past, access.WritesAt value (program.history environment bound) past ref assigned := by
  obtain ⟨before, rest, whole, begun⟩ := Program.exists_point performs
  have store := (value.journal (Method.journal access.limit)).store_eq between
  rw [valued, Access.store_owner begun owned, ← Store.after_append] at store
  refine ⟨_, later, (later.effects.store.write ref access.field assigned).1, ?_, store, ?_⟩
  · rw [whole, Access.events_assignment owned valued]
    exact ⟨rest, by simp only [List.append_assoc]⟩
  · rw [Store.after_append, ← show later.effects.store = Store.after _ from store]
    exact Access.assign_eq owned valued

end Points

/-! ## Runs -/

section Runs

variable {program : Program} {environment : Environment} {bound : Nat} {past later : List Event}
  {ref handle : Ref} {field : String}

theorem Program.admits_history (point : past <+: program.history environment bound) :
    Store.Admits {} past := by
  obtain ⟨rest, whole⟩ := point
  have all : Store.Admits {} (program.history environment bound) :=
    (program.journal environment bound).admits {}
  rw [← whole, Store.admits_append] at all
  exact all.1

theorem Program.lawful_history {event : Event}
    (point : past ++ [event] <+: program.history environment bound) :
    event.Lawful (Store.after past) (Store.after (past ++ [event])) := by
  obtain ⟨-, fits, -⟩ := (Store.admits_append _ past [event]).mp (admits_history point)
  rw [Store.after_append]
  exact fits.lawful

/-- A field that was read once is there at every later point, for all handles on the object. -/
theorem Program.read?_isSome_of_read {found : Value}
    (point : past ++ [.read ref field (some found)] <+: program.history environment bound)
    (after : past <+: later) (same : handle.index = ref.index) :
    ((Store.after later).read? handle field).isSome := by
  obtain ⟨there, -⟩ := lawful_history point
  obtain ⟨more, rfl⟩ := after
  rw [Store.after_append]
  exact Store.read?_isSome_replay there.symm same more

end Runs

/-- The events of a run, taken up to any point, give the objects at that point, and every activity
of the run begins at such a point.

At every point the objects are those that were created so far, and each has the type and exactly
the field names that it was created with.  Every event does what it may do, and no more: a write
changes one field of one object, for all handles on it, or it fails with an unknown field and
changes nothing.  The accesses of the run are such reads and its assignments to fields are such
writes.  So if one access succeeds, every later access to the field of the object does, through
whatever handle. -/
theorem Program.objects_keep_shape (environment : Environment) (bound : Nat) (program : Program) :
    (program.execute environment bound {}).2.effects.store =
      Store.after (program.history environment bound) ∧
    (∀ activity, program.Performs environment bound activity →
      ∃ past, past ++ activity.events <+: program.history environment bound ∧
        activity.machine.effects.store = Store.after past) ∧
    (∀ past, past <+: program.history environment bound →
      (∀ creation type fields, .create creation type fields ∈ past →
        (Store.after past).HasShape creation type (Store.fieldNames fields)) ∧
      ∀ handle object, (Store.after past).find? handle = some object →
        ∃ creation type fields, .create creation type fields ∈ past ∧
          creation.index = handle.index) ∧
    (∀ past event, past ++ [event] <+: program.history environment bound →
      event.Lawful (Store.after past) (Store.after (past ++ [event]))) ∧
    (∀ (access : Access) ref between, program.Performs environment bound access.activity →
      access.owner = (.value (.object ref), between) →
      ∃ past, access.ReadsAt (program.history environment bound) past ref) ∧
    (∀ (access : Access) value ref between assigned later,
      program.Performs environment bound (access.assignment value) →
      access.owner = (.value (.object ref), between) →
      value.evaluate (Method.call access.limit) between = (.value assigned, later) →
      ∃ past, access.WritesAt value (program.history environment bound) past ref assigned) ∧
    ∀ (first second : Access) past later ref handle found,
      first.ReadsAt (program.history environment bound) past ref →
      first.outcome.1 = .value found →
      second.ReadsAt (program.history environment bound) later handle →
      past.length ≤ later.length → handle.index = ref.index → second.field = first.field →
      ∃ value, second.outcome.1 = .value value := by
  refine ⟨(program.journal environment bound).store_eq {}, ?_, ?_, ?_, ?_, ?_, ?_⟩
  · intro activity performs
    obtain ⟨past, rest, whole, same⟩ := Program.exists_point performs
    exact ⟨past, ⟨rest, whole.symm⟩, same⟩
  · intro past point
    have admits := Program.admits_history point
    refine ⟨fun _ _ _ => Store.hasShape_of_create_mem admits, ?_⟩
    intro handle object found
    obtain ⟨old, there⟩ | created := Store.exists_of_find?_replay admits found
    · simp [Store.find?] at there
    · exact created
  · exact fun past event => Program.lawful_history
  · exact fun access ref between => Program.exists_readsAt
  · exact fun access value ref between assigned later => Program.exists_writesAt
  · intro first second past later ref handle found reads succeeded reads' after same sameField
    obtain ⟨between, answer, point, -, -, ended⟩ := reads
    obtain ⟨between', answer', point', -, -, ended'⟩ := reads'
    rw [sameField] at point'
    -- The first access succeeded, so its answer is a value.
    obtain ⟨value, rfl⟩ : ∃ value, answer = some value := by
      rw [ended] at succeeded
      cases answer with
      | none => cases succeeded
      | some value => exact ⟨value, rfl⟩
    have earlier : past <+: later := List.prefix_of_prefix_length_le
      ((List.prefix_append _ _).trans point) ((List.prefix_append _ _).trans point') after
    have lasting := Program.read?_isSome_of_read point earlier same
    obtain ⟨read, -⟩ := Program.lawful_history point'
    rw [← read] at lasting
    obtain ⟨value', rfl⟩ := Option.isSome_iff_exists.mp lasting
    exact ⟨value', by rw [ended']⟩

/-! ## A shared counter -/

namespace SharedCounter

def note : Note := ⟨⟨0, 0⟩, none⟩

def declare (name : String) (value : Expression) : Statement :=
  .declaration { name, typeName := none, value := some value, span := ⟨0, 0⟩ }

def named (name : String) : Expression :=
  .access note name none

def field (owner name : String) : Expression :=
  .memberAccess note (named owner) name none

/-- Two names for one counter, and a second counter.  The last assignment is to a field that
counters do not have. -/
def program : Program where
  fields := []
  methods := [{
    name := "main", parameters := [], returnTypeName := some "Integer", span := ⟨0, 0⟩
    body := [
      declare "a" (.call note "counter" [] none),
      declare "b" (named "a"),
      declare "c" (.call note "counter" [] none),
      .assignment (field "b" "count") (.literal note (.integer 5)),
      .expression (.memberCall note (named "c") "increment" [.literal note (.integer 2)] none),
      .assignment (field "a" "size") (field "a" "count")] }]

def counter (index : Nat) : Ref :=
  ⟨index, "Counter"⟩

def created (index : Nat) : Event :=
  .create (counter index) (.nominal Counter.definition) [("count", .integer 0)]

/-- What happens up to the read of the first counter through its first name. -/
def past : List Event := [
  created 0,
  created 1,
  .write (counter 0) "count" (.integer 5) (.ok ()),
  .read (counter 1) "count" (some (.integer 0)),
  .write (counter 1) "count" (.integer 2) (.ok ()),
  .read (counter 0) "count" (some (.integer 5))]

/-- The last thing that happens. -/
def refused : Event :=
  .write (counter 0) "size" (.integer 5) (.error (.unknownField "size" "Counter"))

end SharedCounter

open SharedCounter in
theorem Program.objects_keep_shape_sharedCounter :
    program.history .counter 5 = past ++ [refused] ∧
    program.run .counter 5 = .error (.unknownField "size" "Counter") ∧
    (Store.after past).HasShape (counter 0) (.nominal Counter.definition)
      (Store.fieldNames [("count", .integer 0)]) ∧
    refused.Lawful (Store.after past) (Store.after (past ++ [refused])) := by
  have log : program.history .counter 5 = past ++ [refused] := by rfl
  obtain ⟨-, -, shapes, lawful, -⟩ := Program.objects_keep_shape .counter 5 program
  rw [log] at shapes lawful
  have point : past <+: past ++ [refused] := List.prefix_append _ _
  exact ⟨log, by rfl, (shapes past point).1 (counter 0) _ _ List.mem_cons_self,
    lawful past refused (List.prefix_refl _)⟩

end Primer
