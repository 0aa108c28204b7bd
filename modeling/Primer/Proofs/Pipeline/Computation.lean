import Primer.Pipeline
import Primer.Proofs.Token.Scanning

/-!
# Sources that are written out

Scanning, reading, checking, running and writing as Java all unfold, so what is decidable of a
program whose source is written out is decided by evaluation.  Strings are kept encoded, which makes
them slow to evaluate if they are long.  So a source is scanned from its characters and not decoded,
and a Java text is compared line by line with the encoding of the characters that are expected.
-/

namespace Primer

/-! ## Sources by their characters -/

theorem Program.parse_ofList (characters : List Char) :
    parse (String.ofList characters) = (do
      let tokens ← (Token.scanFrom 0 characters).mapError .lexical
      (ofTokens tokens).mapError .grammatical) := by
  rw [parse, Token.scan_ofList]
  cases Token.scanFrom 0 characters with
  | error => rfl
  | ok tokens => cases read : ofTokens tokens <;> simp [read, Except.mapError, bind, Except.bind]

theorem Environment.load_ofList (environment : Environment) (characters : List Char) :
    environment.load (String.ofList characters) = (do
      let tokens ← (Token.scanFrom 0 characters).mapError .lexical
      let program ← (Program.ofTokens tokens).mapError .grammatical
      program.check environment) := by
  rw [load, Program.parse_ofList, bind_assoc]

/-! ## Java texts by their bytes -/

namespace Java

/-- The encoding of a text. -/
def bytes (text : String) : List UInt8 :=
  text.toByteArray.data.toList

theorem bytes_ofList (characters : List Char) :
    bytes (String.ofList characters) = characters.flatMap String.utf8EncodeChar := by
  simp [bytes, List.utf8Encode]

theorem bytes_inj {text other : String} : bytes text = bytes other ↔ text = other := by
  rw [bytes, bytes, Array.toList_inj, ← ByteArray.ext_iff, String.toByteArray_inj]

theorem bytes_append (text other : String) : bytes (text ++ other) = bytes text ++ bytes other := by
  simp only [bytes, String.toByteArray_append, ByteArray.data_append, Array.toList_append]

theorem bytes_join (texts : List String) : bytes (String.join texts) = texts.flatMap bytes := by
  induction texts with
  | nil => rfl
  | cons text texts ih => rw [String.join_cons, bytes_append, ih, List.flatMap_cons]

end Java

theorem Program.toJava_eq_ok_iff {program : Program} {text : String} :
    program.toJava = .ok text ↔ ∃ lines, program.javaLines = .ok lines ∧
      (lines.map Java.Line.render).flatMap Java.bytes = Java.bytes text := by
  simp only [← Java.bytes_join, Java.bytes_inj]
  rw [toJava]
  cases program.javaLines with
  | error => simp [bind, Except.bind]
  | ok lines => simp [bind, Except.bind, pure, Except.pure]

/-! ## What is decided -/

deriving instance DecidableEq for Outcome

/-- What holds of a result, if there is one, is decided with it. -/
instance Except.decidableOk {ε α : Type} {p : α → Prop} [DecidablePred p] :
    (result : Except ε α) → Decidable (∃ a, result = .ok a ∧ p a)
  | .error _ => isFalse (by simp)
  | .ok a => decidable_of_iff (p a) (by simp)

end Primer
