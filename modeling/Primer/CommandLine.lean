import Primer.Pipeline
import Primer.TwosComplement

/-!
# The command line

`(--backend NAME | -b NAME)* [PATH]`: a source is read from a file or from standard input and
handed to a backend, which runs it or writes it as Java.  What the outside world has to provide
is the text of the source; everything else is computed here.

The program is all or nothing: when anything fails, nothing is written to standard output.
-/

namespace Primer.CommandLine

/-- What the arguments ask for. -/
structure Options where
  backend : String := "interpreter"
  path : Option String := none
deriving DecidableEq, Repr

/-- Arguments that ask for nothing sensible. -/
inductive UsageError where
  | missingBackend (flag : String)
  | severalInputs
deriving DecidableEq, Repr

def UsageError.message : UsageError → String
  | .missingBackend flag => s!"Missing backend name after {flag}"
  | .severalInputs => "Only one input file is supported"

/-- Why a source could not be read. -/
inductive ReadError where
  | notFound
  | isDirectory
  | notText
  | other (message : String)
deriving DecidableEq, Repr

def ReadError.message : ReadError → String
  | .notFound => "No such file or directory (os error 2)"
  | .isDirectory => "Is a directory (os error 21)"
  | .notText => "stream did not contain valid UTF-8"
  | .other message => message

/-- What the process leaves behind. -/
structure Response where
  status : Nat
  stdout : String
  stderr : String
deriving DecidableEq, Repr

/-! ## Arguments -/

def isFlag (argument : String) : Bool :=
  argument == "--backend" || argument == "-b"

/-- Reads the arguments, `backend` being the last one named.  The path comes last. -/
def readArguments (backend : String) : List String → Except UsageError Options
  | [] => .ok { backend }
  | [argument] =>
    if isFlag argument then
      .error (.missingBackend argument)
    else
      .ok { backend, path := some argument }
  | argument :: name :: rest =>
    if isFlag argument then readArguments name rest else .error .severalInputs

def Options.ofArguments (arguments : List String) : Except UsageError Options :=
  readArguments "interpreter" arguments

/-- What the source is called in messages. -/
def Options.sourceName (options : Options) : String :=
  options.path.getD "<stdin>"

/-! ## Results -/

/-- The exit code of a program: what the low four bytes of its value stand for. -/
def exitCode (value : Int) : Int :=
  TwosComplement.value (TwosComplement.truncate 4 value)

/-- The status that the system reports for an exit code: its low eight bits. -/
def status (code : Int) : Nat :=
  (code % 256).toNat

/-- A failure that stands alone. -/
def failure (message : String) : Response :=
  ⟨1, "", "Error: " ++ message ++ "\n"⟩

/-- Puts four spaces in front of every line. -/
def indent (text : String) : String :=
  "    " ++ String.ofList (text.toList.flatMap fun c =>
    if c = '\n' then ['\n', ' ', ' ', ' ', ' '] else [c])

/-- A failure while doing what `context` says. -/
def failureDuring (context message : String) : Response :=
  failure (context ++ "\n\nCaused by:\n" ++ indent message)

/-- Hands a source to the backend.  `none` says that the run did not end within `bound`. -/
def Options.respond (options : Options) (bound : Nat) (content : Except ReadError String) :
    Option Response :=
  match content with
  | .error error => some (failureDuring ("Reading " ++ options.path.getD "stdin") error.message)
  | .ok source =>
    match options.backend with
    | "interpreter" =>
      match Environment.standard.run bound source with
      | .value result =>
        let lines := result.output.map (· ++ "\n")
        some ⟨status (exitCode result.value), String.join lines, ""⟩
      | .error error => some (failureDuring ("Running " ++ options.sourceName) error.message)
      | .exhausted => none
    | "emitter" =>
      match Environment.standard.compile source with
      | .ok text => some ⟨0, text, ""⟩
      | .error error => some (failureDuring ("Emitting " ++ options.sourceName) error.message)
    | other => some (failure s!"Unknown backend '{other}'")

/-- The whole program: `read` gives the text of a file, or of standard input without a path. -/
def respond (bound : Nat) (read : Option String → Except ReadError String)
    (arguments : List String) : Option Response :=
  match Options.ofArguments arguments with
  | .error error => some (failure error.message)
  | .ok options => options.respond bound (read options.path)

/-- The text that bytes encode. -/
def decode (bytes : ByteArray) : Except ReadError String :=
  match String.fromUTF8? bytes with
  | some text => .ok text
  | none => .error .notText

end Primer.CommandLine
