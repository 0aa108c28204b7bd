import Primer.Proofs.Scope.Agreement
import Primer.Proofs.Soundness.Discipline
import Primer.Proofs.Soundness.Inhabits

/-!
# The built-in natives keep to their types

The standard environment and the one with counters make a discipline: every value fits its type up
to nil, every object is a counter, and its count is an integer or nil.
-/

namespace Primer

/-! ## Stores of counters -/

theorem Bindings.lookup_replace {κ α : Type} [DecidableEq κ] {key : κ} {value old : α}
    {bindings : List (κ × α)} (bound : bindings.lookup key = some old) :
    (Bindings.replace key value bindings).lookup key = some value := by
  rw [lookup_replace_eq, if_pos rfl, bound, Option.map_some]

/-- A counter with an integer or nil as its count. -/
structure Object.IsCounter (object : Object) : Prop where
  type_eq : object.type = .nominal Counter.definition
  count : ∃ value, object.fields.lookup "count" = some value ∧ value.Fits {} .integer

namespace Store

variable {store : Store} {ref : Ref} {object : Object}

/-- Every object is a counter. -/
def CountersOnly (store : Store) : Prop :=
  ∀ ref object, store.find? ref = some object → object.IsCounter

theorem CountersOnly.create (counters : store.CountersOnly) :
    (store.create (.nominal Counter.definition) [("count", .integer 0)]).2.CountersOnly := by
  intro ref object found
  rw [find?_create] at found
  split at found
  · cases found
    exact ⟨rfl, .integer 0, rfl, .inr trivial⟩
  · exact counters ref object found

theorem CountersOnly.write (counters : store.CountersOnly) {value : Value}
    (fits : value.Fits {} .integer) :
    (store.write ref "count" value).2.CountersOnly := by
  intro other object found
  rw [find?_write] at found
  split at found
  · obtain ⟨old, there, rfl⟩ := Option.map_eq_some_iff.mp found
    obtain ⟨type_eq, count, bound, -⟩ := counters other old there
    exact ⟨type_eq, value, Bindings.lookup_replace bound, fits⟩
  · exact counters other object found

theorem CountersOnly.read (counters : store.CountersOnly) (found : store.find? ref = some object) :
    ∃ value, store.read? ref "count" = some value ∧ value.Fits {} .integer := by
  obtain ⟨-, value, bound, fits⟩ := counters ref object found
  exact ⟨value, by rw [read?, found]; exact bound, fits⟩

theorem write_of_read {value old : Value} (bound : store.read? ref "count" = some old) :
    (store.write ref "count" value).1 = .ok () := by
  rw [write, bound]

end Store

theorem Value.Fits.integer_of {store store' : Store} {value : Value}
    (fits : value.Fits store .integer) : value.Fits store' .integer :=
  fits.imp_right fun inhabits => inhabits_integer.mpr (inhabits_integer.mp inhabits)

/-! ## The natives -/

/-- What the discipline of this module asks of a value. -/
def Value.FitsOffered (store : Store) (type : Ty) (value : Value) : Prop :=
  type.IsOffered ∧ value.Fits store type

section

variable {machine : Machine} (counters : machine.effects.store.CountersOnly)

include counters

theorem NativeFunction.print_keeps (value : Value) :
    Eval.Keeps Store.CountersOnly RunError.UpToNil machine
      (Eval.ofNative (NativeFunction.print.body [value])) (Value.FitsOffered · .nil) :=
  .of_eq_value rfl rfl counters (.refl _) ⟨trivial, .inl rfl⟩

theorem NativeFunction.range_keeps {start stop : Value}
    (fits : start.Fits machine.effects.store .integer)
    (fits' : stop.Fits machine.effects.store .integer) :
    Eval.Keeps Store.CountersOnly RunError.UpToNil machine
      (Eval.ofNative (NativeFunction.range.body [start, stop]))
      (Value.FitsOffered · .integerIterable) := by
  obtain rfl | inhabits := fits
  · exact .of_eq_error rfl rfl
  obtain ⟨a, rfl⟩ := Value.inhabits_integer.mp inhabits
  obtain rfl | inhabits' := fits'
  · exact .of_eq_error rfl rfl
  obtain ⟨b, rfl⟩ := Value.inhabits_integer.mp inhabits'
  exact .of_eq_value rfl rfl counters (.refl _) ⟨trivial, .inr trivial⟩

theorem Counter.create_keeps :
    Eval.Keeps Store.CountersOnly RunError.UpToNil machine (Eval.ofNative (Counter.create.body []))
      (Value.FitsOffered · (.nominal Counter.definition)) := by
  refine .of_eq_value rfl rfl counters.create (Store.grows_create _ _ _) ⟨rfl, .inr ?_⟩
  refine ⟨⟨.nominal Counter.definition, [("count", .integer 0)]⟩, ?_, rfl⟩
  exact (Store.find?_create ..).trans (if_pos rfl)

variable {ref : Ref} {object : Object} (found : machine.effects.store.find? ref = some object)

include found

theorem Counter.reset_keeps :
    Eval.Keeps Store.CountersOnly RunError.UpToNil machine
      (Eval.ofNative (Counter.reset.body ref [])) (Value.FitsOffered · .nil) := by
  obtain ⟨old, bound, -⟩ := counters.read found
  have ended : (Counter.reset.body ref []).run machine.effects = (.ok .nil, { machine.effects with
      store := (machine.effects.store.write ref "count" (.integer 0)).2 }) := by
    simp only [Counter.reset, Native.run_bind, Native.run_writeField, Store.write_of_read bound,
      Native.run_pure]
  exact .of_eq_value (Eval.ofNative_of_ok ended) rfl (counters.write (.inr trivial))
    (Store.grows_write _ _ _ _) ⟨trivial, .inl rfl⟩

theorem Counter.increment_keeps {step : Value} (fits : step.Fits machine.effects.store .integer) :
    Eval.Keeps Store.CountersOnly RunError.UpToNil machine
      (Eval.ofNative (Counter.increment.body ref [step])) (Value.FitsOffered · .integer) := by
  obtain rfl | inhabits := fits
  · exact .of_eq_error rfl rfl
  obtain ⟨i, rfl⟩ := Value.inhabits_integer.mp inhabits
  obtain ⟨count, bound, rfl | inhabits⟩ := counters.read found
  · have ended : (Counter.increment.body ref [.integer i]).run machine.effects =
        (.error (.unexpectedType "Integer" "Nil"), machine.effects) := by
      simp only [Counter.increment, Native.run_bind, Native.run_ofExcept, Native.run_readField,
        bound, Value.toInt, Value.typeName]
    exact .of_eq_error (Eval.ofNative_of_error ended) rfl
  · obtain ⟨n, rfl⟩ := Value.inhabits_integer.mp inhabits
    have ended : (Counter.increment.body ref [.integer i]).run machine.effects =
        (.ok (.integer (n + i)), { machine.effects with
          store := (machine.effects.store.write ref "count" (.integer (n + i))).2 }) := by
      simp only [Counter.increment, Native.run_bind, Native.run_ofExcept, Native.run_readField,
        bound, Value.toInt, Native.run_writeField, Store.write_of_read bound, Native.run_pure]
    exact .of_eq_value (Eval.ofNative_of_ok ended) rfl (counters.write (.inr trivial))
      (Store.grows_write _ _ _ _) ⟨trivial, .inr trivial⟩

end

end Primer
