import Primer.Proofs.CommandLine.ExitCode
import Primer.Proofs.Evaluation.Bounds

/-!
# What the process leaves behind

`Usage` is the grammar of the command line, `(flag NAME)* [PATH]`, together with the two ways of
missing it; every list of arguments has exactly one of these forms, also where a flag stands for a
name (`ofArguments_eq_iff`).

Behind the arguments come further steps: reading the source, choosing the backend, scanning,
parsing, checking, and running or emitting.  `Fails` says that one of them goes wrong and
`Delivers` what there is to deliver when none does.  A process that fails leaves the status 1 and no
output at all, even if the program had printed something; one that does not fail leaves nothing but
its output and its status (`all_or_nothing`).
-/

namespace Primer.CommandLine

/-! ## Arguments -/

/-- The words that announce a backend. -/
def flags : List String :=
  ["--backend", "-b"]

/-- Flags, each with a name behind it.  Any word can be a name. -/
inductive Chooses : List String → (names : List String) → Prop
  | nil : Chooses [] []
  | cons {flag name : String} {arguments names : List String} :
    flag ∈ flags → Chooses arguments names → Chooses (flag :: name :: arguments) (name :: names)

/-- What a list of arguments comes to.  Of the names the last one counts. -/
inductive Usage : List String → Except UsageError Options → Prop
  | withoutPath {chosen names : List String} :
    Chooses chosen names → Usage chosen (.ok ⟨names.getLastD "interpreter", none⟩)
  | withPath {chosen names : List String} {path : String} :
    Chooses chosen names → path ∉ flags →
    Usage (chosen ++ [path]) (.ok ⟨names.getLastD "interpreter", some path⟩)
  | dangling {chosen names : List String} {flag : String} :
    Chooses chosen names → flag ∈ flags → Usage (chosen ++ [flag]) (.error (.missingBackend flag))
  | behindPath {chosen names more : List String} {path : String} :
    Chooses chosen names → path ∉ flags → more ≠ [] →
    Usage (chosen ++ path :: more) (.error .severalInputs)

theorem isFlag_iff {argument : String} : isFlag argument = true ↔ argument ∈ flags := by
  simp [isFlag, flags]

/-- Choices are read one after the other, and leave the last name. -/
theorem readArguments_append {chosen names : List String} (chooses : Chooses chosen names)
    (backend : String) (rest : List String) :
    readArguments backend (chosen ++ rest) = readArguments (names.getLastD backend) rest := by
  induction chooses generalizing backend with
  | nil => rfl
  | @cons flag name arguments names isFlag _ ih =>
    rw [List.cons_append, List.cons_append, readArguments, if_pos (isFlag_iff.mpr isFlag), ih,
      List.getLastD_cons]

theorem ofArguments_of_usage {arguments : List String} {result : Except UsageError Options}
    (usage : Usage arguments result) : Options.ofArguments arguments = result := by
  unfold Options.ofArguments
  cases usage with
  | @withoutPath _ names chooses =>
    have read := readArguments_append chooses "interpreter" []
    rwa [List.append_nil] at read
  | withPath chooses isPath =>
    rw [readArguments_append chooses, readArguments, if_neg (mt isFlag_iff.mp isPath)]
  | dangling chooses isFlag =>
    rw [readArguments_append chooses, readArguments, if_pos (isFlag_iff.mpr isFlag)]
  | @behindPath _ _ more _ chooses isPath nonempty =>
    obtain ⟨next, others, rfl⟩ := List.exists_cons_of_ne_nil nonempty
    rw [readArguments_append chooses, readArguments, if_neg (mt isFlag_iff.mp isPath)]

/-- Every list of arguments is choices and then nothing, one more flag, or a path. -/
theorem exists_chooses (arguments : List String) :
    ∃ chosen names rest, Chooses chosen names ∧ arguments = chosen ++ rest ∧
      (rest = [] ∨ (∃ flag ∈ flags, rest = [flag]) ∨ ∃ path ∉ flags, ∃ more, rest = path :: more) := by
  match arguments with
  | [] => exact ⟨[], [], [], .nil, rfl, .inl rfl⟩
  | [argument] =>
    refine ⟨[], [], [argument], .nil, rfl, .inr ?_⟩
    by_cases isFlag : argument ∈ flags
    · exact .inl ⟨argument, isFlag, rfl⟩
    · exact .inr ⟨argument, isFlag, [], rfl⟩
  | argument :: name :: others =>
    by_cases isFlag : argument ∈ flags
    · obtain ⟨chosen, names, rest, chooses, rfl, remains⟩ := exists_chooses others
      exact ⟨argument :: name :: chosen, name :: names, rest, .cons isFlag chooses, rfl, remains⟩
    · exact ⟨[], [], _, .nil, rfl, .inr (.inr ⟨argument, isFlag, name :: others, rfl⟩)⟩

theorem exists_usage (arguments : List String) : ∃ result, Usage arguments result := by
  obtain ⟨chosen, names, rest, chooses, rfl, remains⟩ := exists_chooses arguments
  obtain rfl | ⟨flag, isFlag, rfl⟩ | ⟨path, isPath, more, rfl⟩ := remains
  · rw [List.append_nil]
    exact ⟨_, .withoutPath chooses⟩
  · exact ⟨_, .dangling chooses isFlag⟩
  · cases more with
    | nil => exact ⟨_, .withPath chooses isPath⟩
    | cons next more => exact ⟨_, .behindPath chooses isPath (List.cons_ne_nil next more)⟩

/-- Reading the arguments follows the grammar, and fails as it says where they miss it. -/
theorem ofArguments_eq_iff {arguments : List String} {result : Except UsageError Options} :
    Options.ofArguments arguments = result ↔ Usage arguments result := by
  refine ⟨?_, ofArguments_of_usage⟩
  rintro rfl
  obtain ⟨result, usage⟩ := exists_usage arguments
  rwa [ofArguments_of_usage usage]

/-! ## Steps that can fail -/

/-- The source is no program of the standard environment. -/
inductive Refused (source : String) : Prop
  | scanning {error : LexicalError} : Token.scan source = .error error → Refused source
  | parsing {tokens : List Token} {error : SyntaxError} :
    Token.scan source = .ok tokens → Program.ofTokens tokens = .error error → Refused source
  | checking {tokens : List Token} {tree : Program} {error : CheckError} :
    Token.scan source = .ok tokens → Program.ofTokens tokens = .ok tree →
    (tree.resolve .standard).result = .error error → Refused source

theorem refused_iff {source : String} :
    Refused source ↔ ∃ error, Environment.standard.load source = .error error := by
  simp only [Environment.load_eq_error, Program.parse_eq_error, Program.parse_eq_ok,
    Program.check_eq_error]
  constructor
  · rintro (scanned | ⟨scanned, parsed⟩ | ⟨scanned, parsed, checked⟩)
    · exact ⟨_, .inl (.inl ⟨_, scanned, rfl⟩)⟩
    · exact ⟨_, .inl (.inr ⟨_, _, scanned, parsed, rfl⟩)⟩
    · exact ⟨_, .inr ⟨_, ⟨_, scanned, parsed⟩, _, checked, rfl⟩⟩
  · rintro ⟨_, (⟨_, scanned, -⟩ | ⟨_, _, scanned, parsed, -⟩) |
      ⟨_, ⟨_, scanned, parsed⟩, _, checked, -⟩⟩
    · exact .scanning scanned
    · exact .parsing scanned parsed
    · exact .checking scanned parsed checked

section

variable (bound : Nat) (read : Option String → Except ReadError String) (arguments : List String)

/-- The arguments are in order, and there is a source to work on. -/
structure Given (options : Options) (source : String) : Prop where
  usage : Usage arguments (.ok options)
  content : read options.path = .ok source

/-- One of the steps fails.  A run is followed for `bound` rounds and nested calls. -/
inductive Fails : Prop
  | usage {error : UsageError} : Usage arguments (.error error) → Fails
  | reading {options : Options} {error : ReadError} :
    Usage arguments (.ok options) → read options.path = .error error → Fails
  | backend {options : Options} {source : String} :
    Given read arguments options source → options.backend ∉ ["interpreter", "emitter"] → Fails
  | refused {options : Options} {source : String} :
    Given read arguments options source → options.backend ∈ ["interpreter", "emitter"] →
    Refused source → Fails
  | running {options : Options} {source : String} {program : Program} {error : RunError} :
    Given read arguments options source → options.backend = "interpreter" →
    Environment.standard.load source = .ok program →
    program.run .standard bound = .error error → Fails
  | emitting {options : Options} {source : String} {program : Program} {error : EmptySlot} :
    Given read arguments options source → options.backend = "emitter" →
    Environment.standard.load source = .ok program → program.toJava = .error error → Fails

/-- The run has not come to an end within the bound. -/
inductive Unfinished : Prop
  | running {options : Options} {source : String} {program : Program} :
    Given read arguments options source → options.backend = "interpreter" →
    Environment.standard.load source = .ok program → program.run .standard bound = .exhausted →
    Unfinished

/-- What is delivered when no step fails: the lines that the program printed and its value modulo
256, or the Java text. -/
inductive Delivers : Response → Prop
  | interpreted {options : Options} {source : String} {program : Program} {value : Int}
      {output : List String} :
    Given read arguments options source → options.backend = "interpreter" →
    Environment.standard.load source = .ok program →
    program.run .standard bound = .value ⟨value, output⟩ →
    Delivers ⟨(value % 256).toNat, String.join (output.map (· ++ "\n")), ""⟩
  | emitted {options : Options} {source : String} {program : Program} {text : String} :
    Given read arguments options source → options.backend = "emitter" →
    Environment.standard.load source = .ok program → program.toJava = .ok text →
    Delivers ⟨0, text, ""⟩

end

/-! ## Responses -/

variable {bound : Nat} {read : Option String → Except ReadError String} {arguments : List String}
  {options : Options} {source : String}

theorem respond_of_usageError {error : UsageError} (usage : Usage arguments (.error error)) :
    respond bound read arguments = some (failure error.message) := by
  rw [respond, ofArguments_of_usage usage]

theorem respond_of_usage (usage : Usage arguments (.ok options)) :
    respond bound read arguments = options.respond bound (read options.path) := by
  rw [respond, ofArguments_of_usage usage]

theorem Given.respond_eq (given : Given read arguments options source) :
    respond bound read arguments = options.respond bound (.ok source) := by
  rw [respond_of_usage given.usage, given.content]

theorem Options.respond_interpreter (interpreter : options.backend = "interpreter") :
    options.respond bound (.ok source) =
      match Environment.standard.run bound source with
      | .value result =>
        some ⟨status (exitCode result.value), String.join (result.output.map (· ++ "\n")), ""⟩
      | .error error => some (failureDuring ("Running " ++ options.sourceName) error.message)
      | .exhausted => none := by
  rcases options with ⟨_, path⟩
  cases interpreter
  rfl

theorem Options.respond_emitter (emitter : options.backend = "emitter") :
    options.respond bound (.ok source) =
      match Environment.standard.compile source with
      | .ok text => some ⟨0, text, ""⟩
      | .error error => some (failureDuring ("Emitting " ++ options.sourceName) error.message) := by
  rcases options with ⟨_, path⟩
  cases emitter
  rfl

/-- The response says what went wrong, and nothing else. -/
def IsFailure (response : Option Response) : Prop :=
  ∃ message, response = some ⟨1, "", "Error: " ++ message ++ "\n"⟩

theorem isFailure_failure (message : String) : IsFailure (some (failure message)) :=
  ⟨message, rfl⟩

theorem isFailure_failureDuring (context message : String) :
    IsFailure (some (failureDuring context message)) :=
  isFailure_failure _

theorem Fails.isFailure (fails : Fails bound read arguments) :
    IsFailure (respond bound read arguments) := by
  cases fails with
  | usage usage =>
    rw [respond_of_usageError usage]
    exact isFailure_failure _
  | reading usage unread =>
    rw [respond_of_usage usage, unread]
    exact isFailure_failureDuring _ _
  | backend given unknown =>
    rw [given.respond_eq, Options.respond]
    split
    · rename_i interpreter
      rw [interpreter] at unknown
      exact absurd List.mem_cons_self unknown
    · rename_i emitter
      rw [emitter] at unknown
      exact absurd (List.mem_cons_of_mem _ List.mem_cons_self) unknown
    · exact isFailure_failure _
  | refused given backend refused =>
    obtain ⟨error, unloaded⟩ := refused_iff.mp refused
    rw [given.respond_eq]
    simp only [List.mem_cons, List.not_mem_nil, or_false] at backend
    obtain interpreter | emitter := backend
    · rw [Options.respond_interpreter interpreter, Environment.run, unloaded]
      exact isFailure_failureDuring _ _
    · rw [Options.respond_emitter emitter, Environment.compile, unloaded]
      exact isFailure_failureDuring _ _
  | running given interpreter loaded failed =>
    rw [given.respond_eq, Options.respond_interpreter interpreter, Environment.run, loaded]
    simp only [failed]
    exact isFailure_failureDuring _ _
  | emitting given emitter loaded failed =>
    rw [given.respond_eq, Options.respond_emitter emitter, Environment.compile, loaded]
    simp only [failed]
    exact isFailure_failureDuring _ _

theorem Delivers.respond_eq {response : Response}
    (delivers : Delivers bound read arguments response) :
    respond bound read arguments = some response := by
  cases delivers with
  | @interpreted _ _ _ value output given interpreter loaded ended =>
    have low : status (exitCode value) = (value % 256).toNat := by
      have congruent := status_exitCode value
      omega
    rw [given.respond_eq, Options.respond_interpreter interpreter, Environment.run, loaded]
    simp only [ended, low]
  | emitted given emitter loaded written =>
    rw [given.respond_eq, Options.respond_emitter emitter, Environment.compile, loaded]
    simp only [written]

theorem Unfinished.respond_eq (unfinished : Unfinished bound read arguments) :
    respond bound read arguments = none := by
  cases unfinished with
  | running given interpreter loaded exhausted =>
    rw [given.respond_eq, Options.respond_interpreter interpreter, Environment.run, loaded]
    simp only [exhausted]

/-- A process fails, or it has not come to an end, or it has something to deliver. -/
theorem fails_or_unfinished_or_delivers (bound : Nat)
    (read : Option String → Except ReadError String) (arguments : List String) :
    Fails bound read arguments ∨ Unfinished bound read arguments ∨
      ∃ response, Delivers bound read arguments response := by
  obtain ⟨error | options, usage⟩ := exists_usage arguments
  · exact .inl (.usage usage)
  cases content : read options.path with
  | error error => exact .inl (.reading usage content)
  | ok source =>
    have given : Given read arguments options source := ⟨usage, content⟩
    by_cases backend : options.backend ∈ ["interpreter", "emitter"]
    case neg => exact .inl (.backend given backend)
    cases loaded : Environment.standard.load source with
    | error error => exact .inl (.refused given backend (refused_iff.mpr ⟨error, loaded⟩))
    | ok program =>
      simp only [List.mem_cons, List.not_mem_nil, or_false] at backend
      obtain interpreter | emitter := backend
      · cases ended : program.run .standard bound with
        | value result => exact .inr (.inr ⟨_, .interpreted given interpreter loaded ended⟩)
        | error error => exact .inl (.running given interpreter loaded ended)
        | exhausted => exact .inr (.inl (.running given interpreter loaded ended))
      · cases written : program.toJava with
        | ok text => exact .inr (.inr ⟨_, .emitted given emitter loaded written⟩)
        | error error => exact .inl (.emitting given emitter loaded written)

theorem run_standard_of_le {larger : Nat} (le : bound ≤ larger)
    (ends : Environment.standard.run bound source ≠ .exhausted) :
    Environment.standard.run larger source = Environment.standard.run bound source := by
  unfold Environment.run at ends ⊢
  cases loaded : Environment.standard.load source with
  | error error => rfl
  | ok program =>
    simp only [loaded] at ends ⊢
    have ended : program.run .standard bound ≠ .exhausted := by
      intro exhausted
      simp only [exhausted] at ends
      exact ends rfl
    rw [Program.run_of_le le ended]

/-- The interpreter alone looks at the bound. -/
theorem Options.respond_of_ne (other : options.backend ≠ "interpreter") (bound larger : Nat) :
    options.respond larger (.ok source) = options.respond bound (.ok source) := by
  simp only [Options.respond]
  split
  · exact absurd ‹options.backend = "interpreter"› other
  · rfl
  · rfl

/-- Within a larger bound there is no other response. -/
theorem respond_of_le {larger : Nat} (le : bound ≤ larger) {response : Response}
    (responds : respond bound read arguments = some response) :
    respond larger read arguments = some response := by
  rw [← responds]
  obtain ⟨error | options, usage⟩ := exists_usage arguments
  · rw [respond_of_usageError usage, respond_of_usageError usage]
  cases content : read options.path with
  | error error =>
    rw [respond_of_usage usage, respond_of_usage usage, content]
    rfl
  | ok source =>
    have given : Given read arguments options source := ⟨usage, content⟩
    rw [given.respond_eq] at responds ⊢
    rw [given.respond_eq]
    by_cases interpreter : options.backend = "interpreter"
    case neg => exact Options.respond_of_ne interpreter bound larger
    rw [Options.respond_interpreter interpreter] at responds ⊢
    rw [Options.respond_interpreter interpreter]
    have ends : Environment.standard.run bound source ≠ .exhausted := by
      intro exhausted
      simp only [exhausted] at responds
      cases responds
    rw [run_standard_of_le le ends]

/-- A delivery is no failure: nothing is written to standard error. -/
theorem Delivers.not_fails {response : Response}
    (delivers : Delivers bound read arguments response) : ¬Fails bound read arguments := by
  intro fails
  obtain ⟨message, failed⟩ := fails.isFailure
  rw [delivers.respond_eq, Option.some.injEq] at failed
  have silent : response.stderr = "" := by cases delivers <;> rfl
  have told : ("Error: " ++ message ++ "\n").toList ≠ [] := by
    simp [String.toList_append]
  rw [failed] at silent
  dsimp only at silent
  rw [silent] at told
  exact told rfl

/-- The command line takes exactly `(flag NAME)* [PATH]`, and the last name counts; a flag without a
name and a word behind the path are refused with a message of their own.  If any step fails, the
process leaves the status 1 and empty standard output.  Otherwise, and unless the run goes on beyond
the bound, it leaves exactly what there is to deliver, and standard error is empty.  A larger bound
does not change what is left behind. -/
theorem all_or_nothing (bound : Nat) (read : Option String → Except ReadError String)
    (arguments : List String) :
    (∀ result, Options.ofArguments arguments = result ↔ Usage arguments result) ∧
    (∀ flag, Usage arguments (.error (.missingBackend flag)) →
      respond bound read arguments =
        some ⟨1, "", "Error: Missing backend name after " ++ flag ++ "\n"⟩) ∧
    (Usage arguments (.error .severalInputs) →
      respond bound read arguments =
        some ⟨1, "", "Error: Only one input file is supported\n"⟩) ∧
    (Fails bound read arguments →
      ∃ message, respond bound read arguments = some ⟨1, "", "Error: " ++ message ++ "\n"⟩) ∧
    (¬Fails bound read arguments →
      (∀ response, respond bound read arguments = some response ↔
        Delivers bound read arguments response) ∧
      (respond bound read arguments = none ↔ Unfinished bound read arguments)) ∧
    (∀ larger response, bound ≤ larger → respond bound read arguments = some response →
      respond larger read arguments = some response) := by
  refine ⟨fun _ => ofArguments_eq_iff, fun flag usage => ?_, fun usage => ?_, Fails.isFailure, ?_,
    fun _ _ le => respond_of_le le⟩
  · have message : "Error: " ++ UsageError.message (.missingBackend flag) =
        "Error: Missing backend name after " ++ flag := by
      dsimp only [UsageError.message, toString]
      rw [← String.append_assoc]
      rfl
    rw [respond_of_usageError usage, failure, message]
  · rw [respond_of_usageError usage]
    rfl
  intro succeeds
  obtain fails | unfinished | ⟨response, delivers⟩ :=
    fails_or_unfinished_or_delivers bound read arguments
  · exact absurd fails succeeds
  · have silent := unfinished.respond_eq
    refine ⟨fun response => ⟨fun responds => ?_, Delivers.respond_eq⟩, fun _ => unfinished,
      fun _ => silent⟩
    rw [silent] at responds
    cases responds
  · have responds := delivers.respond_eq
    refine ⟨fun other => ⟨fun responds' => ?_, Delivers.respond_eq⟩, fun silent => ?_,
      Unfinished.respond_eq⟩
    · rw [responds] at responds'
      exact Option.some.inj responds' ▸ delivers
    · rw [responds] at silent
      cases silent

/-- A program that prints a line and comes to its end. -/
def steady : String :=
  "DEF main(): Integer DO print(7); RETURN 300; END"

/-- A program that prints a line and fails. -/
def faulty : String :=
  "DEF main(): Integer DO print(7); RETURN 300 / 0; END"

/-- The first flag takes the second one as a name.  Both programs print a line, and it is seen of the
one that does not fail. -/
theorem all_or_nothing_faulty :
    let arguments := ["--backend", "-b", "-b", "interpreter", "p"]
    Usage arguments (.ok ⟨"interpreter", some "p"⟩) ∧
      (Fails 5 (fun _ => .ok faulty) arguments ∧
        ∃ message, respond 5 (fun _ => .ok faulty) arguments =
          some ⟨1, "", "Error: " ++ message ++ "\n"⟩) ∧
      (¬Fails 5 (fun _ => .ok steady) arguments ∧
        respond 5 (fun _ => .ok steady) arguments = some ⟨44, "7\n", ""⟩ ∧
        respond 8 (fun _ => .ok steady) arguments = some ⟨44, "7\n", ""⟩) ∧
      (Usage ["-b", "emitter", "-b"] (.error (.missingBackend "-b")) ∧
        respond 5 (fun _ => .ok "") ["-b", "emitter", "-b"] =
          some ⟨1, "", "Error: Missing backend name after -b\n"⟩) ∧
      Usage ["p", "-b"] (.error .severalInputs) ∧
      respond 5 (fun _ => .ok "") ["p", "-b"] =
        some ⟨1, "", "Error: Only one input file is supported\n"⟩ := by
  intro arguments
  have usage : Usage arguments (.ok ⟨"interpreter", some "p"⟩) := ofArguments_eq_iff.mp rfl
  have dangling : Usage ["-b", "emitter", "-b"] (.error (.missingBackend "-b")) :=
    ofArguments_eq_iff.mp rfl
  have several : Usage ["p", "-b"] (.error .severalInputs) := ofArguments_eq_iff.mp rfl
  have failed : ∃ program, Environment.standard.load faulty = .ok program ∧
      program.run .standard 5 = .error .divisionByZero := by
    rw [faulty, Environment.load_ofList]
    decide +kernel
  have ended : ∃ program, Environment.standard.load steady = .ok program ∧
      program.run .standard 5 = .value ⟨300, ["7"]⟩ := by
    rw [steady, Environment.load_ofList]
    decide +kernel
  obtain ⟨_, faultyLoaded, faultyRun⟩ := failed
  obtain ⟨_, steadyLoaded, steadyRun⟩ := ended
  have fails : Fails 5 (fun _ => .ok faulty) arguments :=
    .running ⟨usage, rfl⟩ rfl faultyLoaded faultyRun
  have delivers : Delivers 5 (fun _ => .ok steady) arguments ⟨44, "7\n", ""⟩ :=
    .interpreted ⟨usage, rfl⟩ rfl steadyLoaded steadyRun
  have responds : respond 5 (fun _ => .ok steady) arguments = some ⟨44, "7\n", ""⟩ :=
    (((all_or_nothing _ _ _).2.2.2.2.1 delivers.not_fails).1 _).mpr delivers
  refine ⟨usage, ⟨fails, ?_⟩, ⟨delivers.not_fails, responds, ?_⟩, ⟨dangling, ?_⟩, several, ?_⟩
  · exact (all_or_nothing _ _ _).2.2.2.1 fails
  · exact (all_or_nothing _ _ _).2.2.2.2.2 8 _ (by decide) responds
  · exact (all_or_nothing _ _ _).2.1 _ dangling
  · exact (all_or_nothing _ _ _).2.2.1 several

end Primer.CommandLine
