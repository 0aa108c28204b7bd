import Primer.Proofs.Evaluation.Conservation
import Primer.Proofs.Evaluation.Objects

/-!
# What happens to the objects

A run makes objects, reads their fields and writes them, and does nothing else to them.  An `Event`
is one of these with the answer that came back.  `Store.replay` does to a store what a list of
events says, and `Store.Admits` holds when every event of the list gets the answer that it
records.

A `Journal` of a step gives the events of the step in order, whatever machine it begins with, and
carries the proof that the store admits them and that replaying them gives the store that the step
leaves.  `Native.events` lists the events of native code.  Every other journal is put together from
those of its parts, along the code of the evaluator: `Program.journal` is the journal of a whole
run, so its prefixes are the points of the run.
-/

namespace Primer

/-- Something done to the objects, with the answer that came back. -/
inductive Event where
  | create (ref : Ref) (type : Ty) (fields : List (String × Value))
  | read (ref : Ref) (field : String) (answer : Option Value)
  | write (ref : Ref) (field : String) (value : Value) (answer : Except RunError Unit)

namespace Event

/-- The store after the event. -/
def next (store : Store) : Event → Store
  | .create _ type fields => (store.create type fields).2
  | .read _ _ _ => store
  | .write ref field value _ => (store.write ref field value).2

/-- The store gives the answer that the event records. -/
def Fits (store : Store) : Event → Prop
  | .create ref type fields => ref = (store.create type fields).1
  | .read ref field answer => answer = store.read? ref field
  | .write ref field value answer => answer = (store.write ref field value).1

end Event

namespace Store

/-- The store after the events. -/
def replay (store : Store) (events : List Event) : Store :=
  events.foldl Event.next store

/-- The events can happen one after the other, each with the answer that it records. -/
def Admits (store : Store) : List Event → Prop
  | [] => True
  | event :: events => event.Fits store ∧ (event.next store).Admits events

theorem replay_append (store : Store) (first second : List Event) :
    store.replay (first ++ second) = (store.replay first).replay second :=
  List.foldl_append

theorem admits_append (store : Store) (first second : List Event) :
    store.Admits (first ++ second) ↔ store.Admits first ∧ (store.replay first).Admits second := by
  induction first generalizing store with
  | nil => exact ⟨fun admits => ⟨trivial, admits⟩, And.right⟩
  | cons event first ih =>
    rw [List.cons_append, Admits, Admits, ih, and_assoc]
    rfl

end Store

/-! ## Native code -/

namespace Native

variable {α : Type}

/-- The events of native code. -/
def events : Native Ty α → Store → List Event
  | .done _, _ => []
  | .fail _, _ => []
  | .print _ rest, store => rest.events store
  | .create type fields rest, store =>
    .create (store.create type fields).1 type fields ::
      (rest (store.create type fields).1).events (store.create type fields).2
  | .read ref field rest, store =>
    .read ref field (store.read? ref field) :: (rest (store.read? ref field)).events store
  | .write ref field value rest, store =>
    .write ref field value (store.write ref field value).1 ::
      (rest (store.write ref field value).1).events (store.write ref field value).2

theorem admits_events (code : Native Ty α) (store : Store) : store.Admits (code.events store) := by
  induction code generalizing store with
  | done value => trivial
  | fail error => trivial
  | print line rest ih => exact ih store
  | create type fields rest ih => exact ⟨rfl, ih _ _⟩
  | read ref field rest ih => exact ⟨rfl, ih _ _⟩
  | write ref field value rest ih => exact ⟨rfl, ih _ _⟩

theorem store_run (code : Native Ty α) (effects : Effects) :
    (code.run effects).2.store = effects.store.replay (code.events effects.store) := by
  induction code generalizing effects with
  | done value => rfl
  | fail error => rfl
  | print line rest ih => exact ih ⟨effects.store, effects.output.push line⟩
  | create type fields rest ih =>
    exact ih _ ⟨(effects.store.create type fields).2, effects.output⟩
  | read ref field rest ih => exact ih _ effects
  | write ref field value rest ih =>
    exact ih _ ⟨(effects.store.write ref field value).2, effects.output⟩

end Native

/-! ## Journals of steps -/

/-- The events of a step, from every machine. -/
structure Journal {α : Type} (step : Eval α) where
  events : Machine → List Event
  admits : ∀ machine : Machine, machine.effects.store.Admits (events machine)
  store_eq : ∀ machine : Machine,
    (step machine).2.effects.store = machine.effects.store.replay (events machine)

namespace Journal

variable {α β : Type}

/-- A step that does nothing to the objects. -/
def silent {step : Eval α}
    (quiet : ∀ machine, (step machine).2.effects.store = machine.effects.store) :
    Journal step where
  events _ := []
  admits _ := trivial
  store_eq := quiet

def still {step : Eval α} (still : Eval.Still step) : Journal step :=
  silent fun machine => by rw [still machine]

def changeScope
    (change : Scope Value FunctionBody → Except NamingError (Scope Value FunctionBody)) :
    Journal (Eval.changeScope change) :=
  silent fun machine => by
    rw [Eval.changeScope]
    cases change machine.scope <;> rfl

/-- The same journal for a step written otherwise. -/
def ofEq {step other : Eval α} (same : step = other) (journal : Journal other) : Journal step where
  events := journal.events
  admits := journal.admits
  store_eq := by
    rw [same]
    exact journal.store_eq

section Bind

variable {first : Eval α} {next : α → Eval β}

/-- The events of `first`, and if it has a value those of what comes next. -/
def bindEvents (head : Journal first) (tail : ∀ value, Journal (next value)) (machine : Machine) :
    List Event :=
  head.events machine ++
    match first machine with
    | (.value value, after) => (tail value).events after
    | _ => []

def bind (head : Journal first) (tail : ∀ value, Journal (next value)) :
    Journal (first >>= next) where
  events := head.bindEvents tail
  admits machine := by
    rw [bindEvents, Store.admits_append, ← head.store_eq]
    refine ⟨head.admits machine, ?_⟩
    rcases first machine with ⟨value | error | -, after⟩
    · exact (tail value).admits after
    · trivial
    · trivial
  store_eq machine := by
    rw [bindEvents, Store.replay_append, ← head.store_eq]
    rcases ended : first machine with ⟨value | error | -, after⟩
    · rw [Eval.bind_of_value ended]
      exact (tail value).store_eq after
    · rw [Eval.bind_of_error ended]
      rfl
    · rw [Eval.bind_of_exhausted ended]
      rfl

theorem events_bind_of_value {head : Journal first} {tail : ∀ value, Journal (next value)}
    {machine after : Machine} {value : α} (ended : first machine = (.value value, after)) :
    (head.bind tail).events machine = head.events machine ++ (tail value).events after := by
  change head.bindEvents tail machine = _
  rw [bindEvents, ended]

end Bind

def nested {body : Eval α} (journal : Journal body) : Journal (Eval.nested body) where
  events machine := journal.events ⟨machine.scope.push, machine.effects⟩
  admits machine := journal.admits ⟨machine.scope.push, machine.effects⟩
  store_eq machine := journal.store_eq ⟨machine.scope.push, machine.effects⟩

def atRoot {body : Eval α} (journal : Journal body) : Journal (Eval.atRoot body) where
  events machine := journal.events ⟨machine.scope.rootOnly, machine.effects⟩
  admits machine := journal.admits ⟨machine.scope.rootOnly, machine.effects⟩
  store_eq machine := journal.store_eq ⟨machine.scope.rootOnly, machine.effects⟩

def ofNative (code : Native Ty α) : Journal (Eval.ofNative code) where
  events machine := code.events machine.effects.store
  admits machine := code.admits_events machine.effects.store
  store_eq machine := by
    rw [← Native.store_run, Eval.ofNative_eq, Eval.still_ofExcept]

def readField (name : String) : (owner : Value) → Journal (Eval.readField owner name)
  | .object ref => ofNative (Native.readField ref name)
  | .nil | .boolean _ | .integer _ | .decimal _ | .character _ | .string _ | .range _ =>
    still (Eval.still_fail _)

def writeField (name : String) (value : Value) :
    (owner : Value) → Journal (Eval.writeField owner name value)
  | .object ref => ofNative (Native.writeField ref name value)
  | .nil | .boolean _ | .integer _ | .decimal _ | .character _ | .string _ | .range _ =>
    still (Eval.still_fail _)

theorem events_readField (name : String) (ref : Ref) (machine : Machine) :
    (readField name (.object ref)).events machine =
      [.read ref name (machine.effects.store.read? ref name)] := by
  change Native.events (Native.readField ref name) machine.effects.store = _
  rw [Native.readField, Native.events]
  cases machine.effects.store.read? ref name <;> rfl

theorem events_writeField (name : String) (value : Value) (ref : Ref) (machine : Machine) :
    (writeField name value (.object ref)).events machine =
      [.write ref name value (machine.effects.store.write ref name value).1] := by
  change Native.events (Native.writeField ref name value) machine.effects.store = _
  rw [Native.writeField, Native.events]
  cases (machine.effects.store.write ref name value).1 <;> rfl

/-- A call of a method on an object does what the code of the method does. -/
def callObject (ref : Ref) (name : String) (values : List Value) :
    Journal (Eval.callMember (.object ref) name values) where
  events machine :=
    match machine.effects.store.method ref ⟨name, values.length⟩ with
    | .ok method => (method.body ref values).events machine.effects.store
    | .error _ => []
  admits machine := by
    split
    · exact Native.admits_events _ _
    · trivial
  store_eq machine := by
    split
    · rename_i found
      rw [Eval.callMember_of_ok found]
      exact (ofNative _).store_eq machine
    · rename_i missing
      rw [Eval.callMember_of_error missing]
      rfl

def callMember (name : String) (values : List Value) :
    (owner : Value) → Journal (Eval.callMember owner name values)
  | .object ref => callObject ref name values
  | .nil | .boolean _ | .integer _ | .decimal _ | .character _ | .string _ | .range _ =>
    still (Eval.still_fail _)

def truth {step : Eval Value} (journal : Journal step) : Journal (Eval.truth step) :=
  journal.bind fun _ => still (Eval.still_ofExcept _)

/-- A step for every item of a list. -/
def each {step : α → Eval Unit} (journal : ∀ item, Journal (step item)) :
    (items : List α) → Journal (Eval.each step items)
  | [] => still (Eval.still_pure _)
  | item :: items => (journal item).bind fun _ => each journal items

/-! ## Loops -/

/-- What comes after a piece of work, unless it returned. -/
def unlessReturned {next : Eval Completion} (journal : Journal next) :
    (completion : Completion) → Journal (Eval.unlessReturned next completion)
  | .completed => journal
  | .returned _ => still (Eval.still_pure _)

def forEach (name : String) {body : Eval Completion} (journal : Journal body) :
    (count : Nat) → (current : Int) → Journal (Eval.forEach name body count current)
  | 0, _ => still (Eval.still_pure _)
  | count + 1, current =>
    ofEq (Eval.forEach_succ name body count current)
      ((nested ((changeScope _).bind fun _ => journal)).bind
        (unlessReturned (forEach name journal count (current + 1))))

def whileTrue {condition : Eval Bool} {body : Eval Completion} (asks : Journal condition)
    (journal : Journal body) : (bound : Nat) → Journal (Eval.whileTrue condition body bound)
  | 0 => still Eval.still_exhausted
  | bound + 1 =>
    ofEq (Eval.whileTrue_succ condition body bound)
      (asks.bind fun
        | true => (nested journal).bind (unlessReturned (whileTrue asks journal bound))
        | false => still (Eval.still_pure _))

end Journal

/-! ## Journals of programs -/

open Journal

section Calls

variable {call : MethodCall} (calls : ∀ method values, Journal (call method values))

def FunctionBody.journal (values : List Value) :
    (function : FunctionBody) → Journal (function.apply call values)
  | .native body => ofNative (body values)
  | .defined method => calls method values

mutual

/-- The events of an expression. -/
def Expression.journal : (e : Expression) → Journal (e.evaluate call)
  | .literal _ _ => still (Eval.still_pure _)
  | .group _ inner => inner.journal
  | .binary _ .and left right =>
    (truth left.journal).bind fun
      | true => (truth right.journal).bind fun _ => still (Eval.still_pure _)
      | false => still (Eval.still_pure _)
  | .binary _ .or left right =>
    (truth left.journal).bind fun
      | true => still (Eval.still_pure _)
      | false => (truth right.journal).bind fun _ => still (Eval.still_pure _)
  | .binary _ .less left right | .binary _ .lessEqual left right
  | .binary _ .greater left right | .binary _ .greaterEqual left right
  | .binary _ .equal left right | .binary _ .notEqual left right
  | .binary _ .add left right | .binary _ .subtract left right
  | .binary _ .multiply left right | .binary _ .divide left right =>
    left.journal.bind fun _ => right.journal.bind fun _ => still (Eval.still_ofExcept _)
  | .access _ _ _ => still (Eval.still_inspectScope _)
  | .memberAccess _ receiver name _ => receiver.journal.bind (readField name)
  | .call _ _ args _ =>
    (Expression.journalAll args).bind fun values =>
      (still (Eval.still_inspectScope _)).bind (FunctionBody.journal calls values)
  | .memberCall _ receiver name args _ =>
    receiver.journal.bind fun owner =>
      (Expression.journalAll args).bind fun values => callMember name values owner

/-- The events of a list of expressions. -/
def Expression.journalAll : (es : List Expression) → Journal (Expression.evaluateAll call es)
  | [] => still (Eval.still_pure _)
  | e :: es =>
    e.journal.bind fun _ => (Expression.journalAll es).bind fun _ => still (Eval.still_pure _)

end

/-- The events of a declaration. -/
def Declaration.journal (decl : Declaration) : Journal (decl.execute call) :=
  match valued : decl.value with
  | some value =>
    ofEq (by rw [Declaration.execute, valued])
      ((value.journal calls).bind fun value => changeScope (·.addVariable decl.name value))
  | none =>
    ofEq (by rw [Declaration.execute, valued]; rfl) (changeScope (·.addVariable decl.name .nil))

/-- The events of an assignment. -/
def Expression.journalAssign (value : Expression) :
    (target : Expression) → Journal (target.assign call value)
  | .access _ _ _ => (value.journal calls).bind fun _ => changeScope _
  | .memberAccess _ receiver name _ =>
    (receiver.journal calls).bind fun owner =>
      (value.journal calls).bind fun value => writeField name value owner
  | .literal _ _ | .group _ _ | .binary _ _ _ _ | .call _ _ _ _ | .memberCall _ _ _ _ _ =>
    still (Eval.still_fail _)

mutual

/-- The events of a statement. -/
def Statement.journal (rounds : Nat) : (s : Statement) → Journal (s.execute call rounds)
  | .expression value => (value.journal calls).bind fun _ => still (Eval.still_pure _)
  | .declaration decl => (decl.journal calls).bind fun _ => still (Eval.still_pure _)
  | .assignment target value =>
    (Expression.journalAssign calls value target).bind fun _ => still (Eval.still_pure _)
  | .conditional condition thenBody elseBody =>
    (truth (condition.journal calls)).bind fun
      | true => nested (Statement.journalAll rounds thenBody)
      | false => nested (Statement.journalAll rounds elseBody)
  | .forEach name range body =>
    (range.journal calls).bind fun
      | .range _ => Journal.forEach name (Statement.journalAll rounds body) _ _
      | .nil | .boolean _ | .integer _ | .decimal _ | .character _ | .string _ | .object _ =>
        still (Eval.still_fail _)
  | .loop condition body =>
    whileTrue (truth (condition.journal calls)) (Statement.journalAll rounds body) rounds
  | .result value => (value.journal calls).bind fun _ => still (Eval.still_pure _)

/-- The events of a block. -/
def Statement.journalAll (rounds : Nat) :
    (ss : List Statement) → Journal (Statement.executeAll call rounds ss)
  | [] => still (Eval.still_pure _)
  | s :: ss =>
    ofEq (Statement.executeAll_cons call rounds s ss)
      ((s.journal rounds).bind (unlessReturned (Statement.journalAll rounds ss)))

end

end Calls

/-- The events of a call of a method. -/
def Method.journal : (bound : Nat) → (method : Method) → (values : List Value) →
    Journal (method.call bound values)
  | 0, _, _ => still Eval.still_exhausted
  | bound + 1, method, values =>
    let body : Journal (method.bindParameters values >>= fun _ =>
        Statement.executeAll (Method.call bound) bound method.body) :=
      (changeScope _).bind fun _ =>
        Statement.journalAll (Method.journal bound) bound method.body
    if matched : method.parameters.length = values.length then
      ofEq (if_pos matched) ((atRoot (nested body)).bind fun _ => still (Eval.still_pure _))
    else
      ofEq (if_neg matched) (still (Eval.still_fail _))

/-- The events of a run. -/
def Program.journal (environment : Environment) (bound : Nat) (program : Program) :
    Journal (program.execute environment bound) :=
  (each (fun _ => changeScope _) environment.functions).bind fun _ =>
    (each (Declaration.journal (Method.journal bound)) program.fields).bind fun _ =>
      (each (fun _ => changeScope _) program.methods).bind fun _ =>
        Journal.bind (silent fun machine => by cases machine.scope.getFunction ⟨"main", 0⟩ <;> rfl)
          fun main =>
            (main.journal (Method.journal bound) []).bind fun
              | .integer _ => still (Eval.still_pure _)
              | .nil | .boolean _ | .decimal _ | .character _ | .string _ | .range _ | .object _ =>
                still (Eval.still_fail _)

/-- All events of a run, in order. -/
def Program.history (environment : Environment) (bound : Nat) (program : Program) : List Event :=
  (program.journal environment bound).events {}

/-- The store after the first events of a run, which begins without objects. -/
def Store.after (events : List Event) : Store :=
  Store.replay {} events

theorem Store.after_append (past events : List Event) :
    after (past ++ events) = (after past).replay events :=
  replay_append {} past events

end Primer
