import Mathlib
import Primer.Pipeline
import Primer.Proofs.Grammar.Completeness
import Primer.Proofs.Grammar.Derivation
import Primer.Proofs.Token.Scanning
import Primer.Syntax.Same

/-!
# Reading undoes writing

A canonical program is written as its pieces, with one space between them and with any spelling of
its constants.  The text is read as that program again, up to places (`Program.parse_of_written`).

What is left for this is that the text is cut into tokens where the spaces are: every word of a
canonical program is a single token, and a token that is a constant begins like no word does.
-/

namespace Primer

/-! ## Words are tokens -/

/-- The text is cut into a single token. -/
def IsToken (text : String) : Prop :=
  Token.scan text = .ok [⟨wordKind text, text, ⟨0, text.length⟩⟩]

theorem isToken_of_isIdentifier {text : String} (named : Lexeme.isIdentifier text.toList = true) :
    IsToken text := by
  rw [IsToken, wordKind, if_pos named]
  cases characters : text.toList with
  | nil => simp [characters, Lexeme.isIdentifier] at named
  | cons c rest =>
    rw [characters, Lexeme.isIdentifier, Bool.and_eq_true] at named
    obtain ⟨first, others⟩ := named
    have blank : Lexeme.isBlank c = false := by
      rw [Bool.eq_false_iff]
      intro blank
      obtain rfl | rfl | rfl | rfl | rfl := Lexeme.isBlank_cases blank <;> cases first
    refine Token.scan_of_lexeme characters blank ?_
    have whole : rest.takeWhile Lexeme.isIdentifierPart = rest :=
      List.takeWhile_eq_self_iff.mpr (List.all_eq_true.mp others)
    rw [lexeme, if_pos first, Lexeme.identifierLength, whole, List.length_cons]

/-- The words that a program may contain besides names. -/
def fixedWords : List String :=
  ["LET", "DEF", "IF", "ELSE", "END", "FOR", "IN", "DO", "WHILE", "RETURN", "AND", "OR", "(", ")",
    ",", ".", ":", ";", "=", "<", "<=", ">", ">=", "==", "!=", "+", "-", "*", "/"]

theorem isToken_of_fixed {text : String} (fixed : text ∈ fixedWords) : IsToken text := by
  have lexemes : ∀ text ∈ fixedWords, Lexeme.isBlank (text.toList.headD ' ') = false ∧
      lexeme 0 (text.toList.headD ' ') text.toList.tail =
        .ok (wordKind text, text.toList.length) := by
    decide
  obtain ⟨blank, found⟩ := lexemes text fixed
  cases characters : text.toList with
  | nil => simp [characters, Lexeme.isBlank] at blank
  | cons c rest =>
    rw [characters] at blank found
    exact Token.scan_of_lexeme characters blank found

/-- Every word among the pieces is a single token. -/
def Writable (pieces : List Piece) : Prop :=
  ∀ text, .word text ∈ pieces → IsToken text

section Writable

variable {ps qs : List Piece}

@[simp]
theorem writable_nil : Writable [] :=
  nofun

@[simp]
theorem writable_word {text : String} :
    Writable (.word text :: ps) ↔ IsToken text ∧ Writable ps := by
  simp [Writable]

@[simp]
theorem writable_constant {value : Literal} :
    Writable (.constant value :: ps) ↔ Writable ps := by
  simp [Writable]

@[simp]
theorem writable_append : Writable (ps ++ qs) ↔ Writable ps ∧ Writable qs := by
  simp only [Writable, List.mem_append, or_imp, forall_and]

@[simp]
theorem writable_flatMap {α : Type} {pieces : α → List Piece} {xs : List α} :
    Writable (xs.flatMap pieces) ↔ ∀ x ∈ xs, Writable (pieces x) := by
  simp only [Writable, List.mem_flatMap]
  grind

theorem writable_commaPieces {α : Type} {pieces : α → List Piece} {xs : List α}
    (writable : ∀ x ∈ xs, Writable (pieces x)) : Writable (commaPieces pieces xs) := by
  have comma : IsToken "," := isToken_of_fixed (by decide)
  cases xs with
  | nil => exact writable_nil
  | cons x xs =>
    simp only [commaPieces, writable_append, writable_flatMap, writable_word]
    exact ⟨writable x (by simp), fun y member => ⟨comma, writable y (by simp [member])⟩⟩

end Writable

theorem IsName.isToken {name : String} (named : IsName name) : IsToken name :=
  isToken_of_isIdentifier named.1

theorem Operator.isToken_symbol (operator : Operator) : IsToken operator.symbol :=
  isToken_of_fixed (by cases operator <;> decide)

/-- The words that a canonical expression is written with are tokens. -/
theorem Expression.writable (e : Expression) (canonical : e.Canonical IsName) :
    Writable e.pieces := by
  match e, canonical with
  | .literal _ _, _ => simp [pieces]
  | .group _ inner, canonical =>
    simp (disch := decide) [pieces, isToken_of_fixed, inner.writable canonical]
  | .binary _ operator left right, ⟨_, _, canonical, canonical'⟩ =>
    simp [pieces, operator.isToken_symbol, left.writable canonical, right.writable canonical']
  | .access _ name _, named => simp [pieces, IsName.isToken named]
  | .memberAccess _ receiver name _, ⟨_, canonical, named⟩ =>
    simp (disch := decide) [pieces, isToken_of_fixed, receiver.writable canonical, named.isToken]
  | .call _ name args _, ⟨named, canonical⟩ =>
    have arguments : Writable (commaPieces pieces args) := writable_commaPieces fun e member =>
      e.writable (canonicalAll_iff.mp canonical e member)
    simp (disch := decide) [pieces, isToken_of_fixed, listPieces_eq, named.isToken, arguments]
  | .memberCall _ receiver name args _, ⟨_, canonical, named, canonical'⟩ =>
    have arguments : Writable (commaPieces pieces args) := writable_commaPieces fun e member =>
      e.writable (canonicalAll_iff.mp canonical' e member)
    simp (disch := decide) [pieces, isToken_of_fixed, listPieces_eq, receiver.writable canonical,
      named.isToken, arguments]

theorem writable_annotation {typeName : Option String} (named : ∀ type ∈ typeName, IsName type) :
    Writable (annotationPieces typeName) := by
  cases typeName with
  | none => exact writable_nil
  | some type =>
    simp (disch := decide) [annotationPieces, isToken_of_fixed, (named type rfl).isToken]

theorem Declaration.writable (decl : Declaration) (canonical : decl.Canonical IsName) :
    Writable decl.pieces := by
  obtain ⟨named, typed, valued⟩ := canonical
  have value : Writable (valuePieces decl.value) := by
    cases found : decl.value with
    | none => exact writable_nil
    | some e =>
      simp (disch := decide) [valuePieces, isToken_of_fixed, e.writable (valued e found)]
  simp (disch := decide) [pieces, isToken_of_fixed, named.isToken, writable_annotation typed, value]

theorem writable_blockPieces {ss : List Statement} :
    Writable (Statement.blockPieces ss) ↔ ∀ s ∈ ss, Writable s.pieces := by
  rw [Statement.blockPieces_eq, writable_flatMap]

theorem Statement.writable (s : Statement) (canonical : s.Canonical IsName) :
    Writable s.pieces := by
  match s, canonical with
  | .expression value, canonical =>
    simp (disch := decide) [pieces, isToken_of_fixed, value.writable canonical]
  | .declaration decl, canonical => exact decl.writable canonical
  | .assignment target value, ⟨canonical, canonical'⟩ =>
    simp (disch := decide) [pieces, isToken_of_fixed, target.writable canonical,
      value.writable canonical']
  | .conditional condition thenBody elseBody, ⟨canonical, canonicalThen, canonicalElse⟩ =>
    have thenWritable : Writable (blockPieces thenBody) := writable_blockPieces.mpr fun s member =>
      s.writable (canonicalAll_iff.mp canonicalThen s member)
    have elseWritable : Writable (blockPieces elseBody) := writable_blockPieces.mpr fun s member =>
      s.writable (canonicalAll_iff.mp canonicalElse s member)
    simp (disch := decide) only [pieces, writable_word, writable_append, writable_nil,
      isToken_of_fixed, condition.writable canonical, thenWritable, true_and, and_true]
    split
    · exact writable_nil
    · simp (disch := decide) [isToken_of_fixed, elseWritable]
  | .forEach name range statements, ⟨named, canonical, canonicals⟩ =>
    have bodyWritable : Writable (blockPieces statements) := writable_blockPieces.mpr
      fun s member => s.writable (canonicalAll_iff.mp canonicals s member)
    simp (disch := decide) [pieces, isToken_of_fixed, named.isToken, range.writable canonical,
      bodyWritable]
  | .loop condition statements, ⟨canonical, canonicals⟩ =>
    have bodyWritable : Writable (blockPieces statements) := writable_blockPieces.mpr
      fun s member => s.writable (canonicalAll_iff.mp canonicals s member)
    simp (disch := decide) [pieces, isToken_of_fixed, condition.writable canonical, bodyWritable]
  | .result value, canonical =>
    simp (disch := decide) [pieces, isToken_of_fixed, value.writable canonical]

theorem Method.writable (m : Method) (canonical : m.Canonical IsName) : Writable m.pieces := by
  obtain ⟨named, parameters, typed, canonical⟩ := canonical
  have listed : Writable (commaPieces Parameter.pieces m.parameters) := by
    refine writable_commaPieces fun param member => ?_
    obtain ⟨named, typed⟩ := parameters param member
    simp (disch := decide) [Parameter.pieces, isToken_of_fixed, named.isToken, typed.isToken]
  have statements : Writable (Statement.blockPieces m.body) := writable_blockPieces.mpr
    fun s member => s.writable (Statement.canonicalAll_iff.mp canonical s member)
  simp (disch := decide) [pieces, isToken_of_fixed, named.isToken, listed,
    writable_annotation typed, statements]

/-- The words that a canonical program is written with are tokens. -/
theorem Program.writable (p : Program) (canonical : p.Canonical IsName) : Writable p.pieces := by
  rw [pieces, writable_append, writable_flatMap, writable_flatMap]
  exact ⟨fun decl member => decl.writable (canonical.1 decl member),
    fun m member => m.writable (canonical.2 m member)⟩

/-! ## Constants are tokens that begin like no word -/

namespace Token

variable {token other : Token}

/-- A constant that is cut out of a text is not a word. -/
theorem not_word_of_literal {text : String} {kind : LiteralKind} (scanned : scan text = .ok [token])
    (literal : token.kind.literal? = some kind) :
    token.text ∉ nonStarters ∧ Literal.ofWord? token.text = none := by
  obtain ⟨c, rest, n, lexed, characters⟩ :=
    lexed_of_scanFrom scanned token (List.mem_singleton_self _)
  have head : token.text.toList.headD ' ' = c := by
    have positive := lexeme_length_pos (lexeme_eq_ok.mpr lexed)
    rw [characters, List.headD_eq_head?_getD, List.head?_take, if_neg (by omega)]
    rfl
  have first : Lexeme.isIdentifierStart c = false ∧ c ≠ ')' := by
    generalize token.kind = found at lexed literal
    cases lexed with
    | identifier => cases literal
    | number first numeric =>
      refine ⟨first, ?_⟩
      rintro rfl
      cases rest <;> cases numeric
    | character quote => exact quote ▸ by decide
    | string quote => exact quote ▸ by decide
    | operator => cases literal
  have words : ∀ word ∈ nonStarters ++ ["NIL", "TRUE", "FALSE"],
      Lexeme.isIdentifierStart (word.toList.headD ' ') = true ∨ word.toList.headD ' ' = ')' := by
    decide
  have free : token.text ∉ nonStarters ++ ["NIL", "TRUE", "FALSE"] := by
    intro member
    obtain start | closing := words token.text member
    · rw [head, first.1] at start
      cases start
    · exact first.2 (head.symm.trans closing)
  rw [List.mem_append, not_or] at free
  refine ⟨free.1, ?_⟩
  unfold Literal.ofWord?
  split
  case h_4 => rfl
  all_goals simp_all

/-- A constant that is cut out of a text is read as what it denotes. -/
theorem literal?_of_denotes {text : String} {value : Literal} (scanned : scan text = .ok [token])
    (denotes : token.Denotes value) :
    token.literal? = some (.ok value) ∧ token.text ∉ nonStarters := by
  cases denotes with
  | nil same => exact ⟨by rw [literal?, same]; rfl, same ▸ by decide⟩
  | true same => exact ⟨by rw [literal?, same]; rfl, same ▸ by decide⟩
  | false same => exact ⟨by rw [literal?, same]; rfl, same ▸ by decide⟩
  | decoded literal decoded =>
    obtain ⟨free, noWord⟩ := not_word_of_literal scanned literal
    refine ⟨?_, free⟩
    rw [literal?, noWord, literal]
    simp [decoded]

theorem SameLexeme.literal? {value : Literal} (same : SameLexeme token other)
    (literal : token.literal? = some (.ok value)) : other.literal? = some (.ok value) := by
  obtain ⟨kind, text, span⟩ := token
  obtain ⟨_, _, span'⟩ := other
  obtain ⟨rfl, rfl⟩ := same
  have decoded : ∀ k : LiteralKind,
      k.decode? ⟨kind, text, span'⟩ = k.decode? ⟨kind, text, span⟩ := by
    intro k
    cases k <;> rfl
  simp only [Token.literal?, decoded] at literal ⊢
  split at literal
  · exact literal
  · cases found : kind.literal? with
    | none => simp [found] at literal
    | some k =>
      cases value_eq : k.decode? ⟨kind, text, span⟩ with
      | none => simp [found, value_eq] at literal
      | some => simpa [found, value_eq] using literal

end Token

/-! ## Texts -/

variable {alike : Literal → Literal → Prop}

/-- Which piece a token fits does not depend on its place. -/
theorem Piece.Fits.of_sameLexeme {p : Piece} {token other : Token} (fits : p.Fits alike token)
    (same : token.SameLexeme other) : p.Fits alike other := by
  cases p with
  | word text => exact ⟨same.2 ▸ fits.1, same.1 ▸ fits.2⟩
  | constant value =>
    obtain ⟨⟨read, literal, holds⟩, free⟩ := fits
    exact ⟨⟨read, same.literal? literal, holds⟩, same.2 ▸ free⟩

variable (alike) in
/-- The ways to spell a piece. -/
def Piece.Spelled : Piece → String → Prop
  | .word text, spelling => spelling = text
  | .constant value, spelling =>
    ∃ token read, Token.scan spelling = .ok [token] ∧ token.Denotes read ∧ alike value read

@[simp]
theorem spelled_word {text spelling : String} :
    (Piece.word text).Spelled alike spelling ↔ spelling = text :=
  .rfl

variable (alike) in
/-- The program in writing, with a space between its words. -/
def Program.WrittenAs (program : Program) (text : String) : Prop :=
  ∃ words, List.Forall₂ (Piece.Spelled alike) program.pieces words ∧ text = " ".intercalate words

/-- Spelled pieces are tokens, one by one. -/
theorem exists_tokens_of_spelled {ps : List Piece} {words : List String} (writable : Writable ps)
    (spelled : List.Forall₂ (Piece.Spelled alike) ps words) :
    ∃ tokens, List.Forall₂ (fun word token => Token.scan word = .ok [token]) words tokens ∧
      List.Forall₂ (Piece.Fits alike) ps tokens := by
  induction spelled with
  | nil => exact ⟨[], .nil, .nil⟩
  | @cons p word ps words first _ ih =>
    cases p with
    | word text =>
      obtain ⟨isToken, others⟩ := writable_word.mp writable
      obtain ⟨tokens, scanned, fits⟩ := ih others
      cases first
      exact ⟨_ :: tokens, .cons isToken scanned, .cons ⟨rfl, rfl⟩ fits⟩
    | constant value =>
      obtain ⟨tokens, scanned, fits⟩ := ih (writable_constant.mp writable)
      obtain ⟨token, read, scanned_first, denotes, holds⟩ := first
      obtain ⟨literal, free⟩ := Token.literal?_of_denotes scanned_first denotes
      exact ⟨token :: tokens, .cons scanned_first scanned,
        .cons ⟨⟨read, literal, holds⟩, free⟩ fits⟩

theorem fits_of_sameLexeme {ps : List Piece} {tokens others : List Token}
    (fits : List.Forall₂ (Piece.Fits alike) ps tokens)
    (same : List.Forall₂ Token.SameLexeme tokens others) :
    List.Forall₂ (Piece.Fits alike) ps others := by
  induction fits generalizing others with
  | nil =>
    cases same
    exact .nil
  | cons first _ ih =>
    cases same with
    | cons same others => exact .cons (first.of_sameLexeme same) (ih others)

/-- A writing of a canonical program is read as that program. -/
theorem Program.parse_of_writtenAs {program : Program} {text : String}
    (canonical : program.Canonical IsName) (written : program.WrittenAs alike text) :
    ∃ read, Program.parse text = .ok read ∧ program.ReadAs alike read := by
  obtain ⟨words, spelled, rfl⟩ := written
  obtain ⟨tokens, scanned, fits⟩ := exists_tokens_of_spelled (program.writable canonical) spelled
  obtain ⟨tokens', same, scanned'⟩ := Token.scanFrom_intercalate scanned 0
  have cut : Token.scan (" ".intercalate words) = .ok tokens' := by
    rw [Token.scan, String.toList_intercalate]
    exact scanned'
  obtain ⟨read, read_eq, read_as⟩ :=
    Program.ofTokens_of_fits canonical (fits_of_sameLexeme fits same)
  refine ⟨read, ?_, read_as⟩
  simp only [Program.parse, cut, read_eq]

/-- Constants of one value: decimals may differ in scale. -/
def Literal.SameValue (value read : Literal) : Prop :=
  value.same read = true

/-- A program with full slots, and places that are those of no text. -/
def filledProgram : Program :=
  let note : Note := ⟨⟨7, 3⟩, some .integer⟩
  let a : Expression := .access note "a-1" (some ⟨"a-1", "a_1", .integer⟩)
  let product : Expression :=
    .binary note .multiply (.access note "b" none) (.group note (.access note "c" none))
  let difference : Expression :=
    .binary note .subtract (.binary note .subtract a (.literal note (.integer 7))) product
  let condition : Expression :=
    .binary note .and (.binary note .less difference (.literal note (.character '\'')))
      (.literal note (.boolean true))
  let target : Expression :=
    .memberAccess note
      (.memberCall note a "f" [.literal note (.string "q"), .literal note .nil] none) "g" none
  let statement : Statement :=
    .conditional condition [.assignment target (.access note "b" none)] []
  ⟨[{ name := "rate", typeName := some "Decimal", value := some (.literal note (.decimal ⟨15, 1⟩)),
      span := ⟨0, 0⟩, binding := some ⟨"rate", "rate", .decimal⟩ }],
    [{ name := "main", parameters := [⟨"b", "Any"⟩], returnTypeName := none, body := [statement],
       span := ⟨0, 0⟩ }]⟩

/-- The words of `filledProgram`, with numbers not in their plainest spelling. -/
def filledWords : List String :=
  ["LET", "rate", ":", "Decimal", "=", "+1.50", ";", "DEF", "main", "(", "b", ":", "Any", ")", "DO",
    "IF", "a-1", "-", "007", "-", "b", "*", "(", "c", ")", "<", "'\\''", "AND", "TRUE", "DO",
    "a-1", ".", "f", "(", "\"q\"", ",", "NIL", ")", ".", "g", "=", "b", ";", "END", "END"]

theorem Program.parse_of_writtenAs_filledProgram :
    filledProgram.Canonical IsName ∧
      filledProgram.WrittenAs Literal.SameValue (" ".intercalate filledWords) ∧
      ∃ read, Program.parse (" ".intercalate filledWords) = .ok read ∧
        filledProgram.ReadAs Literal.SameValue read := by
  have canonical : filledProgram.Canonical IsName := by
    simp [filledProgram, Program.Canonical, Declaration.Canonical, Method.Canonical,
      Parameter.Canonical, Statement.Canonical, Statement.CanonicalAll, Expression.Canonical,
      Expression.CanonicalAll]
    decide
  have written : filledProgram.WrittenAs Literal.SameValue (" ".intercalate filledWords) := by
    refine ⟨filledWords, ?_, rfl⟩
    simp only [filledProgram, filledWords, pieces, commaPieces, Declaration.pieces, Method.pieces,
      Parameter.pieces, annotationPieces, valuePieces, Statement.pieces, Statement.blockPieces,
      Expression.pieces, Expression.listPieces, Expression.morePieces, Operator.symbol,
      List.flatMap_cons, List.flatMap_nil, List.cons_append, List.nil_append, List.append_nil,
      List.isEmpty_nil, if_true, List.forall₂_cons, List.forall₂_nil_left_iff, spelled_word,
      true_and, and_true]
    refine ⟨
      ⟨⟨.decimal, "+1.50", ⟨0, 5⟩⟩, .decimal ⟨150, 2⟩, by cbv, .decoded rfl (by cbv), by cbv⟩,
      ⟨⟨.integer, "007", ⟨0, 3⟩⟩, .integer 7, by cbv, .decoded rfl (by cbv), by cbv⟩,
      ⟨⟨.character, "'\\''", ⟨0, 4⟩⟩, .character '\'', by cbv, .decoded rfl (by cbv), by cbv⟩,
      ⟨⟨.identifier, "TRUE", ⟨0, 4⟩⟩, .boolean true, by cbv, .true rfl, by cbv⟩,
      ⟨⟨.string, "\"q\"", ⟨0, 3⟩⟩, .string "q", by cbv, .decoded rfl (by cbv), by cbv⟩,
      ⟨⟨.identifier, "NIL", ⟨0, 3⟩⟩, .nil, by cbv, .nil rfl, by cbv⟩⟩
  exact ⟨canonical, written, Program.parse_of_writtenAs canonical written⟩

end Primer
