import Primer.Proofs.Grammar.Unfolding

/-!
# Readers that complain at once

A reader is prompt if it never looks further than the next token and never takes a token that it
cannot go on from.  Where it gives a result, the result is the same whatever stands behind the next
token.  Where it fails, it blames the next token, it fails in the same way whatever stands behind
that token, and the tokens that it has taken so far can be completed.

Whether a reader stops may depend on what comes next.  As in `Reads`, `follow` says which tokens it
stops at for sure.  A completion has to begin with a token that the reader in front of it stops at;
`first` says with which.  `Prompt` puts both together, so that one goes through a reader in the
order in which it is put together.
-/

namespace Primer

/-- Where the last of the tokens ends, or `start` if there are none. -/
def endOf (start : Nat) (tokens : List Token) : Nat :=
  (tokens.getLast?.map (·.span.stop)).getD start

theorem endOf_append {start : Nat} {ts us : List Token} :
    endOf start (ts ++ us) = endOf (endOf start ts) us := by
  unfold endOf
  rw [List.getLast?_append]
  cases us.getLast? <;> rfl

theorem endOf_cons {start : Nat} {token : Token} {tokens : List Token} :
    endOf start (token :: tokens) = endOf token.span.stop tokens := by
  rw [← List.singleton_append, endOf_append]
  rfl

/-- The error blames what the tokens begin with.  If there are none, it blames the end, which is
`last`. -/
inductive SyntaxError.Blames : SyntaxError → (last : Nat) → List Token → Prop
  | unexpectedEnd {expected : Expectation} {last : Nat} :
    Blames (.unexpectedEnd expected last) last []
  | unexpected {expected : Expectation} {last : Nat} {token : Token} {rest : List Token} :
    Blames (.unexpected expected token.text token.span.start) last (token :: rest)
  | invalidLiteral {kind : LiteralKind} {last : Nat} {token : Token} {rest : List Token} :
    token.kind.literal? = some kind → kind.decode? token = none →
    Blames (.invalidLiteral kind token.text token.span.start) last (token :: rest)

theorem Cursor.complaint_blames (c : Cursor) (expected : Expectation) :
    (c.complaint expected).Blames c.last c.rest := by
  rcases c with ⟨rest, last⟩
  cases rest with
  | nil => exact .unexpectedEnd
  | cons token rest => exact .unexpected

theorem Cursor.complaint_congr {rest other : List Token} {last : Nat}
    (same : other.head? = rest.head?) (expected : Expectation) :
    Cursor.complaint ⟨other, last⟩ expected = Cursor.complaint ⟨rest, last⟩ expected := by
  cases rest with
  | nil => rw [List.head?_eq_none_iff.mp same]
  | cons token rest =>
    rcases List.head?_eq_some_iff.mp same with ⟨others, rfl⟩
    rfl

theorem Next.always {tokens : List Token} : Next (fun _ => True) tokens :=
  fun _ _ => trivial

theorem Next.congr {holds : Token → Prop} {tokens other : List Token}
    (same : other.head? = tokens.head?) (next : Next holds tokens) : Next holds other := by
  rwa [Next, same]

theorem Next.mono {follow before : Token → Prop} {tokens : List Token}
    (keeps : ∀ token, follow token → before token) (next : Next follow tokens) :
    Next before tokens :=
  fun token member => keeps token (next token member)

namespace Reader

variable {α β : Type} {reader : Reader α} {first follow before : Token → Prop} {c : Cursor}

/-- Behind the tokens taken already, some more bring the reader to an end.  They begin as `first`
says, if what follows them keeps to `follow`. -/
def Completes (reader : Reader α) (first follow : Token → Prop) (used : List Token) (last : Nat) :
    Prop :=
  ∃ more a stop, ∀ other, Next follow other →
    Next first (more ++ other) ∧ reader ⟨used ++ (more ++ other), last⟩ = .ok (a, ⟨other, stop⟩)

/-- The reader is prompt on these tokens. -/
structure PromptAt (reader : Reader α) (follow : Token → Prop) (c : Cursor) : Prop where
  finds : ∀ a d, reader c = .ok (a, d) →
    ∃ used, c.rest = used ++ d.rest ∧ d.last = endOf c.last used ∧
      ∀ other, other.head? = d.rest.head? ∨ Next follow other →
        reader ⟨used ++ other, c.last⟩ = .ok (a, ⟨other, d.last⟩)
  rejects : ∀ error, reader c = .error error →
    ∃ used rest, c.rest = used ++ rest ∧ error.Blames (endOf c.last used) rest ∧
      (∀ other, other.head? = rest.head? → reader ⟨used ++ other, c.last⟩ = .error error) ∧
      (used ≠ [] → Completes reader (fun _ => True) follow used c.last)

/-! ## One step -/

namespace PromptAt

/-- A reader that gives its result without taking a token. -/
theorem stop {a : α} (gives : ∀ other, other.head? = c.rest.head? ∨ Next follow other →
    reader ⟨other, c.last⟩ = .ok (a, ⟨other, c.last⟩)) : PromptAt reader follow c where
  finds b d read := by
    cases (gives c.rest (.inl rfl)).symm.trans read
    exact ⟨[], rfl, rfl, gives⟩
  rejects error failed := nomatch (gives c.rest (.inl rfl)).symm.trans failed

/-- A reader that fails at the next token. -/
theorem stuck {error : SyntaxError} (blames : error.Blames c.last c.rest)
    (fails : ∀ other, other.head? = c.rest.head? → reader ⟨other, c.last⟩ = .error error) :
    PromptAt reader follow c where
  finds a d read := nomatch (fails c.rest rfl).symm.trans read
  rejects error' failed := by
    cases (fails c.rest rfl).symm.trans failed
    exact ⟨[], c.rest, rfl, blames, fails, fun taken => absurd rfl taken⟩

/-- A reader that takes the next token and goes on as `next`, which can be completed. -/
theorem step {next : Reader α} {token : Token} {rest : List Token} {last : Nat}
    (steps : ∀ other, reader ⟨token :: other, last⟩ = next ⟨other, token.span.stop⟩)
    (completes : Completes next (fun _ => True) follow [] token.span.stop)
    (prompt : PromptAt next follow ⟨rest, token.span.stop⟩) :
    PromptAt reader follow ⟨token :: rest, last⟩ where
  finds a d read := by
    rcases prompt.finds a d ((steps rest).symm.trans read) with ⟨used, tokens, stop, others⟩
    refine ⟨token :: used, congrArg (token :: ·) tokens, ?_, fun other ahead => ?_⟩
    · rw [stop, endOf_cons]
    · exact (steps _).trans (others other ahead)
  rejects error failed := by
    rcases prompt.rejects error ((steps rest).symm.trans failed) with
      ⟨used, rest', tokens, blames, others, completed⟩
    refine ⟨token :: used, rest', congrArg (token :: ·) tokens, ?_, fun other same => ?_, ?_⟩
    · rwa [endOf_cons]
    · exact (steps _).trans (others other same)
    · intro _
      have completed : Completes next (fun _ => True) follow used token.span.stop := by
        cases used with
        | nil => exact completes
        | cons head tail => exact completed (List.cons_ne_nil _ _)
      rcases completed with ⟨more, a, stop, ends⟩
      exact ⟨more, a, stop, fun other ahead => ⟨.always, (steps _).trans (ends other ahead).2⟩⟩

/-- A reader that, seeing the next token, goes on as `next`, which takes a token. -/
theorem turn {next : Reader α} (takes : Takes 1 next)
    (turns : ∀ other, other.head? = c.rest.head? → reader ⟨other, c.last⟩ = next ⟨other, c.last⟩)
    (prompt : PromptAt next follow c) : PromptAt reader follow c where
  finds a d read := by
    rw [turns c.rest rfl] at read
    rcases prompt.finds a d read with ⟨used, tokens, stop, others⟩
    have taken := takes c d a read
    cases used with
    | nil =>
      rw [List.nil_append] at tokens
      rw [tokens] at taken
      omega
    | cons token used =>
      refine ⟨token :: used, tokens, stop, fun other ahead => ?_⟩
      rw [turns _ (by rw [tokens]; rfl)]
      exact others other ahead
  rejects error failed := by
    rcases prompt.rejects error ((turns c.rest rfl).symm.trans failed) with
      ⟨used, rest, tokens, blames, others, completed⟩
    refine ⟨used, rest, tokens, blames, fun other same => ?_, fun taken => ?_⟩
    · rw [turns _ (by rw [tokens, List.head?_append, List.head?_append, same])]
      exact others other same
    · rcases completed taken with ⟨more, a, stop, ends⟩
      refine ⟨more, a, stop, fun other ahead => ⟨.always, ?_⟩⟩
      cases used with
      | nil => exact absurd rfl taken
      | cons token used =>
        rw [turns _ (by rw [tokens]; rfl)]
        exact (ends other ahead).2

theorem mono (keeps : ∀ token, follow token → before token) (prompt : PromptAt reader before c) :
    PromptAt reader follow c where
  finds a d read := by
    rcases prompt.finds a d read with ⟨used, tokens, stop, others⟩
    exact ⟨used, tokens, stop, fun other ahead => others other (ahead.imp_right (.mono keeps))⟩
  rejects error failed := by
    rcases prompt.rejects error failed with ⟨used, rest, tokens, blames, others, completed⟩
    refine ⟨used, rest, tokens, blames, others, fun taken => ?_⟩
    rcases completed taken with ⟨more, a, stop, ends⟩
    exact ⟨more, a, stop, fun other ahead => ends other (.mono keeps ahead)⟩

end PromptAt

/-! ## Two readers, one behind the other -/

theorem Completes.bind {reader : Reader α} {next : α → Reader β} {used : List Token} {last : Nat}
    (completes : Completes reader first before used last)
    (then_completes : ∀ a stop, Completes (next a) before follow [] stop) :
    Completes (reader >>= next) first follow used last := by
  rcases completes with ⟨more, a, stop, ends⟩
  rcases then_completes a stop with ⟨more', b, stop', ends'⟩
  refine ⟨more ++ more', b, stop', fun other ahead => ?_⟩
  rcases ends' other ahead with ⟨ahead', read'⟩
  rcases ends (more' ++ other) ahead' with ⟨starts, read⟩
  rw [List.append_assoc]
  exact ⟨starts, (bind_of_ok read).trans read'⟩

/-- The second reader begins with a token that the first one stops at.  If it may take none, the
first one has to stop at whatever follows. -/
theorem PromptAt.bind {reader : Reader α} {next : α → Reader β} (prompt : PromptAt reader before c)
    (completes : ∀ a stop, Completes (next a) before follow [] stop)
    (meets : (∀ token, follow token → before token) ∨ ∀ a, Takes 1 (next a))
    (then_prompt : ∀ a d, reader c = .ok (a, d) → PromptAt (next a) follow d) :
    PromptAt (reader >>= next) follow c where
  finds b e read := by
    rcases bind_eq_ok.mp read with ⟨a, d, read, read'⟩
    rcases prompt.finds a d read with ⟨used, tokens, stop, others⟩
    rcases (then_prompt a d read).finds b e read' with ⟨used', tokens', stop', others'⟩
    refine ⟨used ++ used', ?_, ?_, fun other ahead => ?_⟩
    · rw [tokens, tokens', List.append_assoc]
    · rw [stop', stop, endOf_append]
    · -- The first reader sees another token only if the second one takes none.
      have ahead' : (used' ++ other).head? = d.rest.head? ∨ Next before (used' ++ other) := by
        cases used' with
        | cons token used' => exact .inl (by rw [tokens']; rfl)
        | nil =>
          rw [tokens']
          refine ahead.imp_right fun next => ?_
          rcases meets with keeps | takes
          · exact .mono keeps next
          · have taken := takes a d e b read'
            rw [tokens', List.nil_append] at taken
            omega
      rw [List.append_assoc, bind_of_ok (others _ ahead')]
      exact others' other ahead
  rejects error failed := by
    cases read : reader c with
    | error error' =>
      rw [bind_of_error read] at failed
      cases failed
      rcases prompt.rejects error read with ⟨used, rest, tokens, blames, others, completed⟩
      refine ⟨used, rest, tokens, blames, fun other same => bind_of_error (others other same), ?_⟩
      exact fun taken => (completed taken).bind completes
    | ok result =>
      rcases result with ⟨a, d⟩
      rw [bind_of_ok read] at failed
      rcases prompt.finds a d read with ⟨used, tokens, stop, others⟩
      rcases (then_prompt a d read).rejects error failed with
        ⟨used', rest, tokens', blames, others', completed⟩
      refine ⟨used ++ used', rest, ?_, ?_, fun other same => ?_, fun taken => ?_⟩
      · rw [tokens, tokens', List.append_assoc]
      · rwa [endOf_append, ← stop]
      · have same' : (used' ++ other).head? = d.rest.head? := by
          rw [tokens', List.head?_append, List.head?_append, same]
        rw [List.append_assoc, bind_of_ok (others _ (.inl same'))]
        exact others' other same
      · -- If the second reader fails at once, all of it has to be completed.
        cases used' with
        | nil =>
          rcases completes a d.last with ⟨more, b, stop', ends⟩
          refine ⟨more, b, stop', fun other ahead => ⟨.always, ?_⟩⟩
          rcases ends other ahead with ⟨ahead', read'⟩
          rw [List.append_nil, bind_of_ok (others _ (.inr ahead'))]
          exact read'
        | cons token used' =>
          rcases completed (List.cons_ne_nil _ _) with ⟨more, b, stop', ends⟩
          refine ⟨more, b, stop', fun other ahead => ⟨.always, ?_⟩⟩
          rw [List.append_assoc, bind_of_ok (others _ (.inl (by rw [tokens']; rfl)))]
          exact (ends other ahead).2

/-! ## Rules -/

/-- The reader is prompt where fewer than `bound` tokens are left, and it can be completed from its
beginning on. -/
structure Prompt (bound : Nat) (first follow : Token → Prop) (reader : Reader α) : Prop where
  completes : ∀ last, Completes reader first follow [] last
  prompt : ∀ c, c.rest.length < bound → PromptAt reader follow c

/-- Any token. -/
abbrev Anything : Token → Prop :=
  fun _ => True

/-- The token reads `text`. -/
abbrev Says (text : String) : Token → Prop :=
  fun token => token.text = text

/-- A token made up to complete a program: a word, as it would be found in a text. -/
def spare (text : String) : Token :=
  ⟨wordKind text, text, ⟨0, 0⟩⟩

namespace Prompt

variable {bound : Nat}

theorem below {fewer : Nat} (prompt : Prompt bound first follow reader) (less : fewer ≤ bound) :
    Prompt fewer first follow reader where
  completes := prompt.completes
  prompt c short := prompt.prompt c (Nat.lt_of_lt_of_le short less)

theorem mono (prompt : Prompt bound first before reader)
    (keeps : ∀ token, follow token → before token) : Prompt bound first follow reader where
  completes last := by
    rcases prompt.completes last with ⟨more, a, stop, ends⟩
    exact ⟨more, a, stop, fun other ahead => ends other (.mono keeps ahead)⟩
  prompt c short := (prompt.prompt c short).mono keeps

/-- A reader that takes no token. -/
theorem still {value : Nat → α}
    (reads : ∀ rest last, reader ⟨rest, last⟩ = .ok (value last, ⟨rest, last⟩))
    (keeps : ∀ token, follow token → first token) : Prompt bound first follow reader where
  completes last := ⟨[], value last, last, fun other ahead => ⟨.mono keeps ahead, reads other last⟩⟩
  prompt c _ := .stop fun other _ => reads other c.last

theorem pure {a : α} (keeps : ∀ token, follow token → first token) :
    Prompt bound first follow (pure a) :=
  still (fun _ _ => rfl) keeps

section

variable {next : α → Reader β} (prompt : Prompt bound first before reader)
  (then_prompt : ∀ a, Prompt bound before follow (next a))

include prompt then_prompt

theorem join (meets : (∀ token, follow token → before token) ∨ ∀ a, Takes 1 (next a)) :
    Prompt bound first follow (reader >>= next) where
  completes last := (prompt.completes last).bind fun a => (then_prompt a).completes
  prompt c short := by
    refine (prompt.prompt c short).bind (fun a => (then_prompt a).completes) meets ?_
    intro a d read
    rcases (prompt.prompt c short).finds a d read with ⟨used, tokens, -, -⟩
    rw [tokens, List.length_append] at short
    exact (then_prompt a).prompt d (by omega)

/-- The second reader may take no token. -/
theorem bind (keeps : ∀ token, follow token → before token) :
    Prompt bound first follow (reader >>= next) :=
  prompt.join then_prompt (.inl keeps)

/-- The second reader takes a token. -/
theorem taking (takes : ∀ a, Takes 1 (next a)) : Prompt bound first follow (reader >>= next) :=
  prompt.join then_prompt (.inr takes)

end

/-- A reader whose result is put into something. -/
theorem returning {build : α → β} (prompt : Prompt bound first follow reader) :
    Prompt bound first follow (do return build (← reader)) :=
  prompt.bind (fun _ => .pure fun _ fits => fits) fun _ fits => fits

/-- A reader that takes the next token and goes on as `next`. -/
theorem step {next : Reader α} (prompt : Prompt bound Anything follow next) {token : Token}
    {rest : List Token} {last : Nat} (short : (token :: rest).length ≤ bound)
    (steps : ∀ other, reader ⟨token :: other, last⟩ = next ⟨other, token.span.stop⟩) :
    PromptAt reader follow ⟨token :: rest, last⟩ :=
  .step steps (prompt.completes _) (prompt.prompt _ short)

end Prompt

/-! ### Single tokens -/

theorem expect_of_next {expected : Expectation} {test : Token → Option β}
    (absent : Next (test · = none) c.rest) :
    expect expected test c = .error (c.complaint expected) := by
  rw [expect, take?_of_next absent]

/-- Either the test finds something in the next token, or not. -/
theorem next_or_taken (test : Token → Option β) (tokens : List Token) :
    Next (test · = none) tokens ∨
      ∃ token rest b, tokens = token :: rest ∧ test token = some b := by
  cases tokens with
  | nil =>
    refine .inl ?_
    rintro _ ⟨⟩
  | cons token rest =>
    cases found : test token with
    | some b => exact .inr ⟨token, rest, b, rfl, found⟩
    | none =>
      refine .inl ?_
      rintro _ ⟨⟩
      exact found

section

variable {bound : Nat} {expected : Expectation} {test : Token → Option β} {token : Token}
  {rest : List Token} {last : Nat} {b : β}

/-- A token that has to be there, and is not. -/
theorem PromptAt.missing {next : β → Reader α} (absent : Next (test · = none) c.rest) :
    PromptAt (expect expected test >>= next) follow c := by
  refine .stuck (c.complaint_blames expected) fun other same => bind_of_error ?_
  rw [expect_of_next (.congr same absent)]
  exact congrArg _ (Cursor.complaint_congr same expected)

/-- A token that has to be there, and is. -/
theorem PromptAt.taken {next : β → Reader α} (taken : test token = some b)
    (prompt : Prompt bound Anything follow (next b)) (short : (token :: rest).length ≤ bound) :
    PromptAt (expect expected test >>= next) follow ⟨token :: rest, last⟩ :=
  prompt.step short fun _ => bind_of_ok (expect_eq_ok.mpr (take?_of_cons rfl taken))

/-- A token that may be there, and is not. -/
theorem PromptAt.unopened {next : Option β → Reader α} (absent : Next (test · = none) c.rest)
    (takes : Takes 1 (next none)) (prompt : Prompt bound Anything follow (next none))
    (short : c.rest.length < bound) : PromptAt (optional test >>= next) follow c := by
  refine .turn takes (fun other same => ?_) (prompt.prompt c short)
  exact bind_of_ok (optional_of_none (take?_of_next (.congr same absent)))

/-- A token that may be there, and is. -/
theorem PromptAt.opened {next : Option β → Reader α} (taken : test token = some b)
    (prompt : Prompt bound Anything follow (next (some b)))
    (short : (token :: rest).length ≤ bound) :
    PromptAt (optional test >>= next) follow ⟨token :: rest, last⟩ :=
  prompt.step short fun _ => bind_of_ok (optional_of_some (take?_of_cons rfl taken))

end

namespace Prompt

variable {bound : Nat} {text : String}

theorem expect {expected : Expectation} {test : Token → Option β} {next : β → Reader α}
    {token : Token} {b : β} (found : test token = some b) (starts : first token)
    (then_prompt : ∀ b, Prompt bound Anything follow (next b)) :
    Prompt bound first follow (expect expected test >>= next) where
  completes last := by
    rcases (then_prompt b).completes token.span.stop with ⟨more, a, stop, ends⟩
    refine ⟨token :: more, a, stop, fun other ahead => ⟨?_, ?_⟩⟩
    · rintro _ ⟨⟩
      exact starts
    · rw [bind_of_ok (expect_eq_ok.mpr (take?_of_cons rfl found))]
      exact (ends other ahead).2
  prompt c short := by
    rcases c with ⟨tokens, last⟩
    rcases next_or_taken test tokens with absent | ⟨token, rest, b, rfl, taken⟩
    · exact .missing absent
    · exact .taken taken (then_prompt b) (Nat.le_of_lt short)

theorem word {next : Token → Reader α} (starts : first (spare text))
    (then_prompt : ∀ token, Prompt bound Anything follow (next token)) :
    Prompt bound first follow (word text >>= next) :=
  .expect (hasText_of_eq rfl) starts then_prompt

theorem identifier {next : String → Reader α}
    (then_prompt : ∀ name, Prompt bound Anything follow (next name)) :
    Prompt bound Anything follow (identifier >>= next) :=
  .expect (if_pos (show (spare "x").kind = .identifier by decide)) trivial then_prompt

theorem name : Prompt bound Anything follow Reader.identifier := by
  have prompt : Prompt bound Anything follow (Reader.identifier >>= Pure.pure) :=
    identifier fun _ => .pure fun _ _ => trivial
  rwa [bind_pure] at prompt

/-! ### Repetition -/

/-- A word that may be there, and what stands behind it. -/
theorem after {item : Reader α} (prompt : Prompt bound Anything follow item)
    (ends : ∀ token, follow token → token.text ≠ text)
    (keeps : ∀ token, follow token → first token) :
    Prompt bound first follow (after text item) := by
  have absent : ∀ other last, Next (hasText text · = none) other →
      Reader.after text item ⟨other, last⟩ = .ok (none, ⟨other, last⟩) :=
    fun other last missing => bind_of_ok (optional_of_none (take?_of_next missing))
  have missing : ∀ other, Next follow other → Next (hasText text · = none) other :=
    fun other ahead => .mono (fun token fits => hasText_of_ne (ends token fits)) ahead
  constructor
  · intro last
    exact ⟨[], none, last, fun other ahead =>
      ⟨.mono keeps ahead, absent other last (missing other ahead)⟩⟩
  · rintro ⟨tokens, last⟩ short
    rcases next_or_taken (hasText text) tokens with other_word | ⟨token, rest, b, rfl, taken⟩
    · refine .stop fun other ahead => absent other last ?_
      exact ahead.elim (.congr · other_word) (missing other)
    · refine .opened taken ?_ (Nat.le_of_lt short)
      exact prompt.returning

/-- Items that begin with a token of their own. -/
theorem many {test : Token → Option β} {item : β → Reader α} (takes : ∀ b, Takes 0 (item b))
    (prompt : ∀ fewer < bound, ∀ b, Prompt fewer Anything follow (item b))
    (ends : ∀ token, follow token → test token = none)
    (keeps : ∀ token, follow token → first token) :
    Prompt bound first follow (many (Cursor.take? test) item) := by
  have absent : ∀ other last, Next (test · = none) other →
      Reader.many (Cursor.take? test) item ⟨other, last⟩ = .ok ([], ⟨other, last⟩) :=
    fun other last missing => many_of_none (take?_of_next missing)
  have completes : ∀ last, Completes (Reader.many (Cursor.take? test) item) first follow [] last :=
    fun last => ⟨[], [], last, fun other ahead =>
      ⟨.mono keeps ahead, absent other last (.mono ends ahead)⟩⟩
  induction bound generalizing first with
  | zero => exact ⟨completes, fun _ short => absurd short (Nat.not_lt_zero _)⟩
  | succ bound ih =>
    refine ⟨completes, ?_⟩
    rintro ⟨tokens, last⟩ short
    rcases next_or_taken test tokens with none_opened | ⟨token, rest, b, rfl, taken⟩
    · refine .stop fun other ahead => absent other last ?_
      exact ahead.elim (.congr · none_opened) (.mono ends)
    · have others : Prompt bound follow follow (Reader.many (Cursor.take? test) item) :=
        ih (fun fewer less => prompt fewer (Nat.lt_succ_of_lt less)) (fun _ fits => fits)
          fun last => ⟨[], [], last, fun other ahead =>
            ⟨ahead, absent other last (.mono ends ahead)⟩⟩
      have inside : Prompt bound Anything follow (do
          let first ← item b
          let others ← Reader.many (Cursor.take? test) item
          return first :: others) :=
        (prompt bound (Nat.lt_succ_self _) b).bind (fun _ => others.returning) fun _ fits => fits
      exact inside.step (Nat.le_of_lt_succ short) fun other =>
        many_of_some opening_take? (advances_take? takes) (take?_of_cons rfl taken)

/-- Items between commas. -/
theorem commaSeparated {item : Reader α} (takes : Takes 0 item)
    (prompt : Prompt bound Anything (Says ")") item) :
    Prompt bound Anything follow (commaSeparated item) := by
  have others : Prompt bound (Says ")") (Says ")")
      (Reader.many (Cursor.take? (hasText ",")) fun _ => item) := by
    refine .many (fun _ => takes) (fun fewer less _ => prompt.below (Nat.le_of_lt less)) ?_
      fun _ closing => closing
    intro token closing
    refine hasText_of_ne ?_
    rw [closing]
    decide
  have closes : ∀ first, Takes 1 (do
      let others ← Reader.many (Cursor.take? (hasText ",")) fun _ => item
      let _ ← Reader.word ")"
      return first :: others) :=
    fun _ => .right (.many opening_take? fun _ => takes) fun _ => .left .word fun _ => .pure
  constructor
  · intro last
    refine ⟨[spare ")"], [], 0, fun other _ => ⟨.always, ?_⟩⟩
    have taken : hasText ")" (spare ")") = some (spare ")") := hasText_of_eq rfl
    exact bind_of_ok (optional_of_some (take?_of_cons rfl taken))
  · rintro ⟨tokens, last⟩ short
    rcases next_or_taken (hasText ")") tokens with unclosed | ⟨token, rest, b, rfl, taken⟩
    · refine .unopened unclosed (.right takes closes) ?_ short
      refine prompt.taking (fun _ => ?_) closes
      refine others.taking (fun _ => ?_) fun _ => .left .word fun _ => .pure
      exact .word rfl fun _ => .pure fun _ _ => trivial
    · exact .opened taken (.pure fun _ _ => trivial) (Nat.le_of_lt short)

end Prompt

end Reader

end Primer
