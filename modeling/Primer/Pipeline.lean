import Primer.Evaluation.Program
import Primer.Grammar.Program
import Primer.Java
import Primer.Token.Scan
import Primer.Typing.Resolve

/-!
# From source text to results

A source is scanned, read as a program and checked; a checked program is run or written as Java.
The first stage that fails gives the error.
-/

namespace Primer

/-- Why a source text gave no result. -/
inductive SourceError where
  | lexical (error : LexicalError)
  | grammatical (error : SyntaxError)
  | checking (error : CheckError)
  | running (error : RunError)
  | emitting (error : EmptySlot)

def SourceError.message : SourceError → String
  | .lexical error => error.message
  | .grammatical error => error.message
  | .checking error => error.message
  | .running error => error.message
  | .emitting error => error.message

/-- Reads a source text as a program, all slots empty. -/
def Program.parse (source : String) : Except SourceError Program :=
  match Token.scan source with
  | .error error => .error (.lexical error)
  | .ok tokens =>
    match Program.ofTokens tokens with
    | .error error => .error (.grammatical error)
    | .ok program => .ok program

theorem Program.parse_eq_ok {source : String} {program : Program} :
    parse source = .ok program ↔
      ∃ tokens, Token.scan source = .ok tokens ∧ ofTokens tokens = .ok program := by
  unfold parse
  cases Token.scan source with
  | error => simp
  | ok tokens => cases read : ofTokens tokens <;> simp [read]

/-- A source is refused by the scanner, or its tokens are refused by the grammar. -/
theorem Program.parse_eq_error {source : String} {error : SourceError} :
    parse source = .error error ↔
      (∃ cause, Token.scan source = .error cause ∧ .lexical cause = error) ∨
      ∃ tokens cause, Token.scan source = .ok tokens ∧ ofTokens tokens = .error cause ∧
        .grammatical cause = error := by
  unfold parse
  cases Token.scan source with
  | error => simp
  | ok tokens => cases read : ofTokens tokens <;> simp [read]

/-- Checks a program and keeps the filled tree. -/
def Program.check (environment : Environment) (program : Program) : Except SourceError Program :=
  let attempt := program.resolve environment
  match attempt.result with
  | .error error => .error (.checking error)
  | .ok () => .ok attempt.tree

theorem Program.check_eq_ok {environment : Environment} {program filled : Program} :
    program.check environment = .ok filled ↔
      program.resolve environment = ⟨filled, .ok ()⟩ := by
  unfold check
  rcases program.resolve environment with ⟨tree, error | done⟩ <;> simp

theorem Program.check_eq_error {environment : Environment} {program : Program}
    {error : SourceError} :
    program.check environment = .error error ↔
      ∃ cause, (program.resolve environment).result = .error cause ∧ .checking cause = error := by
  unfold check
  rcases program.resolve environment with ⟨tree, cause | done⟩ <;> simp

/-- Reads and checks a source text. -/
def Environment.load (environment : Environment) (source : String) :
    Except SourceError Program := do
  (← Program.parse source).check environment

theorem Environment.load_eq_ok {environment : Environment} {source : String} {program : Program} :
    environment.load source = .ok program ↔
      ∃ tree, Program.parse source = .ok tree ∧ tree.check environment = .ok program := by
  unfold load
  cases Program.parse source with
  | error => simp [bind, Except.bind]
  | ok tree => simp [bind, Except.bind]

/-- A source is refused when it is read, or when it is checked. -/
theorem Environment.load_eq_error {environment : Environment} {source : String}
    {error : SourceError} :
    environment.load source = .error error ↔
      Program.parse source = .error error ∨
      ∃ tree, Program.parse source = .ok tree ∧ tree.check environment = .error error := by
  unfold load
  cases Program.parse source with
  | error => simp [bind, Except.bind]
  | ok tree => simp [bind, Except.bind]

/-- Reads, checks and runs a source text. -/
def Environment.run (environment : Environment) (bound : Nat) (source : String) :
    Outcome SourceError RunResult :=
  match environment.load source with
  | .error error => .error error
  | .ok program =>
    match program.run environment bound with
    | .value result => .value result
    | .error error => .error (.running error)
    | .exhausted => .exhausted

theorem Environment.run_eq_value {environment : Environment} {bound : Nat} {source : String}
    {result : RunResult} :
    environment.run bound source = .value result ↔
      ∃ program, environment.load source = .ok program ∧
        program.run environment bound = .value result := by
  unfold run
  cases environment.load source with
  | error => simp
  | ok program => cases ended : program.run environment bound <;> simp [ended]

/-- Reads and checks a source text and writes it as Java. -/
def Environment.compile (environment : Environment) (source : String) : Except SourceError String :=
  match environment.load source with
  | .error error => .error error
  | .ok program =>
    match program.toJava with
    | .error error => .error (.emitting error)
    | .ok text => .ok text

theorem Environment.compile_eq_ok {environment : Environment} {source text : String} :
    environment.compile source = .ok text ↔
      ∃ program, environment.load source = .ok program ∧ program.toJava = .ok text := by
  unfold compile
  cases environment.load source with
  | error => simp
  | ok program => cases written : program.toJava <;> simp [written]

end Primer
