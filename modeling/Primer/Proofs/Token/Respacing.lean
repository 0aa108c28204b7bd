import Primer.Proofs.Token.Segmentation

/-!
# Tokens can be moved apart

Which lexeme stands in front of a text may depend on the text behind it: a hyphen goes on with a
name, a digit with a sign, an equals sign with a comparison.  A separator goes on with nothing.  So
the tokens of a source, written down again with separators between them, are found again as they
were, however close they stood before (`Token.scan_respaced`).
-/

namespace Primer

open Lexeme

/-- A lexeme in front of a separator, or at the end, is a token of its own. -/
theorem Lexeme.IsLexeme.scanFrom_eq {kind : Token.Kind} {text : String}
    (isLexeme : IsLexeme kind text.toList) {suffix : List Char} (ends : Ends suffix)
    (position : Nat) :
    Token.scanFrom position (text.toList ++ suffix) =
      (Token.scanFrom (position + text.length) suffix).map
        (⟨kind, text, ⟨position, position + text.length⟩⟩ :: ·) := by
  obtain ⟨c, rest, characters⟩ := List.exists_cons_of_ne_nil isLexeme.ne_nil
  rw [characters] at isLexeme
  have alone : lexeme position c rest = .ok (kind, (c :: rest).length) :=
    isLexeme.lexeme_eq position
  have found : lexeme position c (rest ++ suffix) = .ok (kind, (c :: rest).length) :=
    lexeme_append ends alone
  rw [← String.length_toList, characters, List.cons_append,
    Token.scanFrom_lexeme (isBlank_of_lexeme found) found, ← List.cons_append, List.drop_left,
    List.take_left, ← characters, String.ofList_toList]

namespace Token

/-! ## Writing tokens down again -/

/-- The texts of tokens, each with a gap behind it. -/
def respaced (spaced : List (Token × List Char)) : List Char :=
  spaced.flatMap fun (token, gap) => token.text.toList ++ gap

/-- The same tokens where `respaced` puts them, if the first of them stands at `position`. -/
def moved (position : Nat) : List (Token × List Char) → List Token
  | [] => []
  | (token, gap) :: spaced =>
    { token with span := ⟨position, position + token.text.length⟩ } ::
      moved (position + token.text.length + gap.length) spaced

/-- Every gap is separators, and only the last one may be empty. -/
structure Apart (spaced : List (Token × List Char)) : Prop where
  separators : ∀ item ∈ spaced, ∀ c ∈ item.2, IsSeparator c
  nonempty : ∀ item ∈ spaced.dropLast, item.2 ≠ []

variable {token : Token} {gap : List Char} {spaced : List (Token × List Char)}

theorem Apart.tail (apart : Apart ((token, gap) :: spaced)) : Apart spaced where
  separators item member := apart.separators item (.tail _ member)
  nonempty item member := by
    cases spaced with
    | nil => exact absurd member List.not_mem_nil
    | cons next others => exact apart.nonempty item (.tail _ member)

/-- What follows a token begins with a separator, or nothing does. -/
theorem Apart.ends (apart : Apart ((token, gap) :: spaced)) : Ends (gap ++ respaced spaced) := by
  cases gap with
  | cons c gap =>
    rintro _ ⟨⟩
    exact isBlank_iff.mpr (apart.separators _ List.mem_cons_self c List.mem_cons_self)
  | nil =>
    cases spaced with
    | nil => exact nofun
    | cons next others => exact absurd rfl (apart.nonempty (token, []) List.mem_cons_self)

theorem scanFrom_respaced (isLexeme : ∀ item ∈ spaced, IsLexeme item.1.kind item.1.text.toList)
    (apart : Apart spaced) (position : Nat) :
    scanFrom position (respaced spaced) = .ok (moved position spaced) := by
  induction spaced generalizing position with
  | nil => rw [respaced, List.flatMap_nil, scanFrom_nil, moved]
  | cons item spaced ih =>
    obtain ⟨token, gap⟩ := item
    obtain ⟨first, others⟩ := List.forall_mem_cons.mp isLexeme
    have skips : scanFrom (position + token.text.length) (gap ++ respaced spaced) =
        scanFrom (position + token.text.length + gap.length) (respaced spaced) :=
      scanFrom_separators (apart.separators _ List.mem_cons_self) _ _
    have text : respaced ((token, gap) :: spaced) =
        token.text.toList ++ (gap ++ respaced spaced) := by
      rw [respaced, List.flatMap_cons, List.append_assoc, ← respaced]
    rw [text, first.scanFrom_eq apart.ends, skips, ih others apart.tail, moved]
    rfl

theorem forall₂_moved (position : Nat) :
    List.Forall₂ SameLexeme (spaced.map Prod.fst) (moved position spaced) := by
  induction spaced generalizing position with
  | nil => exact .nil
  | cons item spaced ih => exact .cons ⟨rfl, rfl⟩ (ih _)

/-- The tokens of a source, written down again with separators between them, are scanned as the same
tokens in their new places. -/
theorem scan_respaced {source : String} {lead : List Char} {spaced : List (Token × List Char)}
    (scanned : scan source = .ok (spaced.map Prod.fst)) (isSeparator : ∀ c ∈ lead, IsSeparator c)
    (apart : Apart spaced) :
    scan (String.ofList (lead ++ respaced spaced)) = .ok (moved lead.length spaced) ∧
      List.Forall₂ SameLexeme (spaced.map Prod.fst) (moved lead.length spaced) := by
  have isLexeme : ∀ item ∈ spaced, IsLexeme item.1.kind item.1.text.toList :=
    fun item member => isLexeme_of_scan scanned item.1 (List.mem_map_of_mem member)
  refine ⟨?_, forall₂_moved lead.length⟩
  rw [scan, String.toList_ofList, scanFrom_separators isSeparator, Nat.zero_add]
  exact scanFrom_respaced isLexeme apart lead.length

/-- The tokens of `x-1<=-2-3.5.y`, which stand right behind each other, and gaps for them. -/
def closeTokens : List (Token × List Char) :=
  [(⟨.identifier, "x-1", ⟨0, 3⟩⟩, [' ']), (⟨.operator, "<=", ⟨3, 5⟩⟩, ['\t', ' ']),
    (⟨.integer, "-2", ⟨5, 7⟩⟩, ['\n']), (⟨.decimal, "-3.5", ⟨7, 11⟩⟩, ['\r', '\n']),
    (⟨.operator, ".", ⟨11, 12⟩⟩, ['\x08']), (⟨.identifier, "y", ⟨12, 13⟩⟩, [])]

theorem scan_respaced_closeTokens :
    scan "x-1<=-2-3.5.y" = .ok (closeTokens.map Prod.fst) ∧
      scan " x-1 <=\t -2\n-3.5\r\n.\x08y" =
        .ok [⟨.identifier, "x-1", ⟨1, 4⟩⟩, ⟨.operator, "<=", ⟨5, 7⟩⟩, ⟨.integer, "-2", ⟨9, 11⟩⟩,
          ⟨.decimal, "-3.5", ⟨12, 16⟩⟩, ⟨.operator, ".", ⟨18, 19⟩⟩,
          ⟨.identifier, "y", ⟨20, 21⟩⟩] := by
  have scanned : scan "x-1<=-2-3.5.y" = .ok (closeTokens.map Prod.fst) := by
    rw [scan_ofList]
    decide +kernel
  have apart : Apart closeTokens := by
    constructor
    · simp [closeTokens, IsSeparator]
    · decide
  have isSeparator : ∀ c ∈ [' '], IsSeparator c := by simp [IsSeparator]
  exact ⟨scanned, (scan_respaced scanned isSeparator apart).1⟩

end Token

end Primer
