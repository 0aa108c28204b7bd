import Primer.Proofs.Grammar.Earliest
import Primer.Proofs.Grammar.Origin

/-!
# The constants of a text

A token that is cut out of a text as a number, a character or a string is read as a constant
wherever an operand is due.  So no text is refused for what such a token holds
(`Program.every_constant_reads`).
-/

namespace Primer

open Lexeme

/-- The words that are constants are cut out as identifiers. -/
theorem Literal.isIdentifier_of_ofWord? {text : String} {value : Literal}
    (word : ofWord? text = some value) : IsIdentifier text := by
  unfold ofWord? at word
  split at word
  case h_4 => cases word
  all_goals rfl

namespace Token

variable {token : Token} {kind : LiteralKind}

theorem ofWord?_eq_none (isLexeme : IsLexeme token.kind token.text.toList)
    (literal : token.kind.literal? = some kind) : Literal.ofWord? token.text = none := by
  cases word : Literal.ofWord? token.text with
  | none => rfl
  | some value =>
    have identifier := (Literal.isIdentifier_of_ofWord? word).isLexeme
    rw [isLexeme.kind_unique identifier] at literal
    cases literal

theorem literal?_of_isLexeme (isLexeme : IsLexeme token.kind token.text.toList)
    (literal : token.kind.literal? = some kind) :
    ∃ value, kind.decode? token = some value ∧ token.literal? = some (.ok value) := by
  obtain ⟨value, decoded⟩ := LiteralKind.exists_decode? isLexeme literal
  refine ⟨value, decoded, ?_⟩
  rw [literal?, ofWord?_eq_none isLexeme literal, literal]
  simp only [Option.map_some, decoded]

end Token

/-- A constant is an operand on its own, whatever comes behind it. -/
theorem Reader.operand_of_literal? {token : Token} {value : Literal}
    (literal : token.literal? = some (.ok value)) (expression : Reader Expression)
    (rest : List Token) (last : Nat) :
    operand expression ⟨token :: rest, last⟩ =
      .ok (.literal { span := token.span } value, ⟨rest, token.span.stop⟩) := by
  have start : OperandStart.ofToken? token = some (.literal token.span (.ok value)) := by
    rw [OperandStart.ofToken?, literal]
  have read : expect .expression OperandStart.ofToken? ⟨token :: rest, last⟩ =
      .ok (.literal token.span (.ok value), ⟨rest, token.span.stop⟩) := by
    simp [expect, Cursor.take?, start]
  show (expect .expression OperandStart.ofToken? ⟨token :: rest, last⟩ >>= _) = _
  rw [read]
  rfl

namespace Program

theorem ofTokens_ne_invalidLiteral {tokens : List Token} {kind : LiteralKind} {literal : String}
    {position : Nat} (isLexeme : ∀ token ∈ tokens, IsLexeme token.kind token.text.toList) :
    ofTokens tokens ≠ .error (.invalidLiteral kind literal position) := by
  intro failed
  have prompt := Reader.program_prompt.prompt ⟨tokens, 0⟩ (Nat.lt_succ_self _)
  rcases prompt.rejects _ (ofTokens_eq_error.mp failed) with ⟨used, rest, rfl, blames, -, -⟩
  cases blames with
  | invalidLiteral isLiteral undecoded =>
    obtain ⟨value, decoded⟩ := LiteralKind.exists_decode? (isLexeme _ (by simp)) isLiteral
    rw [undecoded] at decoded
    cases decoded

/-- A text is never refused for a constant in it.  Each token that is cut out of a text as a number,
a character or a string has a value, and is read as this value where an operand is due; a character
token holds exactly one character. -/
theorem every_constant_reads (source : String) :
    (∀ kind literal position,
      Program.parse source ≠ .error (.grammatical (.invalidLiteral kind literal position))) ∧
    ∀ tokens, Token.scan source = .ok tokens →
      ∀ token ∈ tokens, ∀ kind, token.kind.literal? = some kind →
        (∃ value, kind.decode? token = some value ∧ ∀ expression rest last,
          Reader.operand expression ⟨token :: rest, last⟩ =
            .ok (.literal { span := token.span } value, ⟨rest, token.span.stop⟩)) ∧
        (token.kind = .character → ∃ c, Escape.decode token.body = some [c]) := by
  constructor
  · intro kind literal position failed
    rcases parse_eq_error.mp failed with ⟨cause, -, ⟨⟩⟩ | ⟨tokens, cause, scanned, refused, ⟨⟩⟩
    exact ofTokens_ne_invalidLiteral (Token.isLexeme_of_scan scanned) refused
  · intro tokens scanned token member kind literal
    have isLexeme := Token.isLexeme_of_scan scanned token member
    obtain ⟨value, decoded, read⟩ := Token.literal?_of_isLexeme isLexeme literal
    refine ⟨⟨value, decoded, Reader.operand_of_literal? read⟩, fun character => ?_⟩
    exact Token.decode_body_character (character ▸ isLexeme)

/-- An escaped quote between two quotes, a string that ends in an escaped backslash, and a decimal
with a sign. -/
def edgeConstants : String :=
  "'\\'' \"é\\\\\" +01.50"

theorem every_constant_reads_edgeConstants :
    ∃ character string number,
      Token.scan edgeConstants = .ok [character, string, number] ∧
      character.kind = .character ∧ string.kind = .string ∧ number.kind = .decimal ∧
      (∃ c, Escape.decode character.body = some [c]) ∧
      (∃ value, LiteralKind.string.decode? string = some value) ∧
      ∃ value, LiteralKind.decimal.decode? number = some value := by
  have scanned : Token.scan edgeConstants =
      .ok [⟨.character, "'\\''", ⟨0, 4⟩⟩, ⟨.string, "\"é\\\\\"", ⟨5, 10⟩⟩,
        ⟨.decimal, "+01.50", ⟨11, 17⟩⟩] := by
    rw [edgeConstants, Token.scan_ofList]
    decide +kernel
  have reads := (every_constant_reads edgeConstants).2 _ scanned
  refine ⟨_, _, _, scanned, rfl, rfl, rfl, ?_, ?_, ?_⟩
  · exact (reads _ (.head _) .character rfl).2 rfl
  · obtain ⟨⟨value, decoded, -⟩, -⟩ := reads _ (.tail _ (.head _)) .string rfl
    exact ⟨value, decoded⟩
  · obtain ⟨⟨value, decoded, -⟩, -⟩ := reads _ (.tail _ (.tail _ (.head _))) .decimal rfl
    exact ⟨value, decoded⟩

end Program

end Primer
