import Primer.Proofs.Evaluation.Bare
import Primer.Proofs.Grammar.Layout
import Primer.Proofs.Grammar.Origin
import Primer.Proofs.Pipeline.Computation
import Primer.Proofs.Typing.Unplaced

/-!
# Layout does not matter

Two sources that are cut into tokens with the same texts differ only in what stands between the
tokens.  Every stage treats them alike: the same trees apart from places, the same type errors, the
same Java text, and the same run (`Environment.layout_does_not_matter`).
-/

namespace Primer

open Lexeme

/-- The texts of lexemes decide their kinds. -/
theorem Token.sameLexeme_of_texts {tokens tokens' : List Token}
    (isLexeme : ∀ token ∈ tokens, IsLexeme token.kind token.text.toList)
    (isLexeme' : ∀ token ∈ tokens', IsLexeme token.kind token.text.toList)
    (texts : tokens.map Token.text = tokens'.map Token.text) :
    List.Forall₂ Token.SameLexeme tokens tokens' := by
  induction tokens generalizing tokens' with
  | nil =>
    rw [List.map_eq_nil_iff.mp texts.symm]
    exact .nil
  | cons token tokens ih =>
    obtain ⟨token', rest, rfl, text, texts⟩ := List.map_eq_cons_iff.mp texts.symm
    obtain ⟨first, others⟩ := List.forall_mem_cons.mp isLexeme
    obtain ⟨first', others'⟩ := List.forall_mem_cons.mp isLexeme'
    rw [text] at first'
    exact .cons ⟨first.kind_unique first', text.symm⟩ (ih others others' texts.symm)

namespace Program.Alike

variable {program program' : Program} (alike : program.Alike program')

include alike

theorem toJava_eq : program.toJava = program'.toJava := by
  rw [← program.toJava_unplaced, alike, program'.toJava_unplaced]

theorem run_eq (environment : Environment) (bound : Nat) :
    program.run environment bound = program'.run environment bound := by
  rw [← Program.run_bare, ← program.bare_unplaced, alike, program'.bare_unplaced,
    Program.run_bare]

/-- Programs that are equal apart from places are checked alike. -/
theorem check (environment : Environment) :
    (program.check environment).map Program.unplaced =
      (program'.check environment).map Program.unplaced := by
  have attempts : (program.resolve environment).mapTree Program.unplaced =
      (program'.resolve environment).mapTree Program.unplaced := by
    rw [← Program.resolve_unplaced, alike, Program.resolve_unplaced]
  have results := congrArg Attempt.result attempts
  have trees := congrArg Attempt.tree attempts
  simp only [Attempt.mapTree] at results trees
  unfold Program.check
  simp only [results]
  split
  · rfl
  · exact congrArg Except.ok trees

end Program.Alike

namespace Environment

variable {environment : Environment} {source source' : String}

/-- Where two sources are loaded alike, the programs run alike and are written alike. -/
theorem results_of_load
    (loaded : (environment.load source).map Program.unplaced =
      (environment.load source').map Program.unplaced) :
    environment.compile source = environment.compile source' ∧
      ∀ bound, environment.run bound source = environment.run bound source' := by
  unfold compile run
  cases first : environment.load source with
  | error error =>
    cases second : environment.load source' with
    | error error' =>
      rw [first, second] at loaded
      cases loaded
      exact ⟨rfl, fun _ => rfl⟩
    | ok program' => simp [first, second, Except.map] at loaded
  | ok program =>
    cases second : environment.load source' with
    | error error' => simp [first, second, Except.map] at loaded
    | ok program' =>
      rw [first, second] at loaded
      have alike : program.Alike program' := Except.ok.inj loaded
      exact ⟨by simp only [alike.toJava_eq], fun bound => by simp only [alike.run_eq]⟩

/-- Two sources with the same tokens apart from their places are both read or both refused.  Where
they are read, the programs are equal apart from places, and so are the checked programs or the
errors that checking found; the Java text and the run at every bound are the same.  Where they are
refused, the errors are equal apart from the position. -/
theorem layout_does_not_matter (environment : Environment) {source source' : String}
    {tokens tokens' : List Token} (scanned : Token.scan source = .ok tokens)
    (scanned' : Token.scan source' = .ok tokens')
    (texts : tokens.map Token.text = tokens'.map Token.text) :
    (∃ program program', Program.parse source = .ok program ∧
      Program.parse source' = .ok program' ∧ program.unplaced = program'.unplaced ∧
      (environment.load source).map Program.unplaced =
        (environment.load source').map Program.unplaced ∧
      environment.compile source = environment.compile source' ∧
      ∀ bound, environment.run bound source = environment.run bound source') ∨
    ∃ error error', Program.parse source = .error (.grammatical error) ∧
      Program.parse source' = .error (.grammatical error') ∧
      error.unplaced = error'.unplaced := by
  have same := Token.sameLexeme_of_texts (Token.isLexeme_of_scan scanned)
    (Token.isLexeme_of_scan scanned') texts
  rcases Program.ofTokens_inStep same with
    ⟨program, program', read, read', alike⟩ | ⟨error, error', failed, failed', alike⟩
  · have parse := Program.parse_eq_ok.mpr ⟨tokens, scanned, read⟩
    have parse' := Program.parse_eq_ok.mpr ⟨tokens', scanned', read'⟩
    have loaded : (environment.load source).map Program.unplaced =
        (environment.load source').map Program.unplaced := by
      rw [load, load, parse, parse']
      exact alike.check environment
    exact .inl ⟨program, program', parse, parse', alike, loaded, results_of_load loaded⟩
  · have refused := Program.parse_eq_error.mpr (.inr ⟨tokens, error, scanned, failed, rfl⟩)
    have refused' := Program.parse_eq_error.mpr (.inr ⟨tokens', error', scanned', failed', rfl⟩)
    exact .inr ⟨error, error', refused, refused', alike⟩

/-- A program on one line, with blanks only where two lexemes would run together. -/
def dense : String :=
  "DEF main():Integer DO LET x=1;RETURN x - -2;END"

/-- The same program over several lines, with blanks around every token. -/
def spread : String :=
  "DEF main ( ) : Integer\nDO\n\tLET x = 1 ;\n\tRETURN x - -2 ;\nEND\n"

theorem layout_does_not_matter_spread :
    (∃ tokens tokens', Token.scan dense = .ok tokens ∧ Token.scan spread = .ok tokens' ∧
      tokens.map Token.text = tokens'.map Token.text) ∧
    standard.compile dense = standard.compile spread ∧
    ∀ bound, standard.run bound dense = standard.run bound spread := by
  have texts : ∃ tokens, Token.scan dense = .ok tokens ∧ ∃ tokens', Token.scan spread = .ok tokens' ∧
      tokens.map Token.text = tokens'.map Token.text := by
    rw [dense, spread, Token.scan_ofList, Token.scan_ofList]
    decide +kernel
  have read : (Program.parse dense).isOk = true := by
    rw [dense, Program.parse_ofList]
    decide +kernel
  obtain ⟨tokens, scanned, tokens', scanned', same⟩ := texts
  refine ⟨⟨tokens, tokens', scanned, scanned', same⟩, ?_⟩
  rcases layout_does_not_matter standard scanned scanned' same with
    ⟨_, _, _, _, _, _, results⟩ | ⟨_, _, failed, _⟩
  · exact results
  · rw [failed] at read
    cases read

end Environment

end Primer
