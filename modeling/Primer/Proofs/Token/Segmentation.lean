import Mathlib
import Primer.Proofs.Token.Lexemes

/-!
# Scanning is segmentation by longest lexemes

A text is segmented into separators and lexemes, each lexeme the longest one where it stands.
Scanning accepts exactly the texts that can be segmented so, and its tokens are the lexemes, each
with its kind, its text and its place (`Token.scan_eq_ok_iff_segmented`).
-/

namespace Primer

open Lexeme

/-- `source`, whose first character stands at `position`, is cut into separators and longest
lexemes, and `tokens` are those lexemes. -/
inductive Segmented : Nat → List Char → List Token → Prop
  | done {position : Nat} {separators : List Char} : (∀ c ∈ separators, IsSeparator c) →
    Segmented position separators []
  | token {position : Nat} {separators text rest : List Char} {kind : Token.Kind}
    {tokens : List Token} : (∀ c ∈ separators, IsSeparator c) →
    IsLongest kind text (text ++ rest) →
    Segmented (position + separators.length + text.length) rest tokens →
    Segmented position (separators ++ (text ++ rest))
      (⟨kind, String.ofList text,
        ⟨position + separators.length, position + separators.length + text.length⟩⟩ :: tokens)

namespace Segmented

variable {position : Nat} {source : List Char} {tokens : List Token}

/-- One more separator in front. -/
theorem cons {c : Char} (separator : IsSeparator c)
    (segmented : Segmented (position + 1) source tokens) :
    Segmented position (c :: source) tokens := by
  have extend : ∀ {separators : List Char}, (∀ d ∈ separators, IsSeparator d) →
      ∀ d ∈ c :: separators, IsSeparator d := by
    rintro separators isSeparator d (_ | ⟨_, member⟩)
    · exact separator
    · exact isSeparator d member
  cases segmented with
  | done isSeparator => exact .done (extend isSeparator)
  | @token _ separators text rest kind tokens isSeparator longest others =>
    have place : position + (c :: separators).length = position + 1 + separators.length := by
      rw [List.length_cons]
      omega
    rw [← List.cons_append, ← place]
    exact .token (extend isSeparator) longest (place ▸ others)

/-- A longest lexeme in front. -/
theorem lexeme {kind : Token.Kind} {text : List Char}
    (segmented : Segmented (position + text.length) source tokens)
    (longest : IsLongest kind text (text ++ source)) :
    Segmented position (text ++ source)
      (⟨kind, String.ofList text, ⟨position, position + text.length⟩⟩ :: tokens) :=
  @token position [] text source kind tokens (fun _ member => absurd member List.not_mem_nil)
    longest segmented

end Segmented

namespace Lexeme

/-- No lexeme starts with a separator. -/
theorem isBlank_of_lexeme {start n : Nat} {c : Char} {rest : List Char} {kind : Token.Kind}
    (found : lexeme start c rest = .ok (kind, n)) : isBlank c = false := by
  rw [Bool.eq_false_iff]
  intro blank
  have refused : ∀ d ∈ [' ', '\t', '\n', '\r', '\x08'], isIdentifierStart d = false ∧
      d.isDigit = false ∧ isSign d = false ∧ isComparisonStart d = false ∧
      d ∉ operatorCharacters ∧ d ≠ '\'' ∧ d ≠ '"' :=
    List.forall_iff_forall_mem.mp (by decide)
  obtain ⟨notFirst, notDigit, unsigned, notComparison, notOperator, notQuote, notString⟩ :=
    refused c (isBlank_iff.mp blank)
  cases lexeme_eq_ok.mp found with
  | identifier first => simp [notFirst] at first
  | number _ starts => cases rest <;> simp [startsNumber, notDigit, unsigned] at starts
  | character quote => exact notQuote quote
  | string quote => exact notString quote
  | operator _ _ _ _ length => simp [operatorLength, notComparison, notOperator] at length

end Lexeme

/-! ## Scanning -/

namespace Token

variable {position : Nat} {source : List Char} {tokens : List Token}

theorem segmented_of_scanFrom (scanned : scanFrom position source = .ok tokens) :
    Segmented position source tokens := by
  fun_induction scanFrom position source generalizing tokens with
  | case1 position =>
    cases scanned
    exact .done fun _ member => absurd member List.not_mem_nil
  | case2 position c rest blank ih => exact (ih scanned).cons (isBlank_iff.mp blank)
  | case3 => cases scanned
  | case4 position c rest notBlank kind n found =>
    rename_i text ih
    cases others : scanFrom (position + n) ((c :: rest).drop n) with
    | error error => simp [others, bind, Except.bind] at scanned
    | ok others' =>
      rw [others] at scanned
      cases scanned
      have length : ((c :: rest).take n).length = n :=
        List.length_take_of_le (lexeme_length_le found)
      have longest : IsLongest kind ((c :: rest).take n)
          ((c :: rest).take n ++ (c :: rest).drop n) := by
        rw [List.take_append_drop]
        exact isLongest_of_lexeme found
      have behind : Segmented (position + ((c :: rest).take n).length) ((c :: rest).drop n)
          others' := by
        rw [length]
        exact ih others
      have segmented := behind.lexeme longest
      rw [length, List.take_append_drop] at segmented
      exact segmented

theorem scanFrom_separators {separators : List Char} (isSeparator : ∀ c ∈ separators, IsSeparator c)
    (position : Nat) (rest : List Char) :
    scanFrom position (separators ++ rest) = scanFrom (position + separators.length) rest := by
  induction separators generalizing position with
  | nil => rfl
  | cons c separators ih =>
    have blank := isBlank_iff.mpr (isSeparator c List.mem_cons_self)
    have others := ih (fun d member => isSeparator d (.tail _ member)) (position + 1)
    rw [List.cons_append, scanFrom_blank blank, others, List.length_cons, Nat.add_assoc,
      Nat.add_comm 1]

theorem scanFrom_of_segmented (segmented : Segmented position source tokens) :
    scanFrom position source = .ok tokens := by
  induction segmented with
  | @done position separators isSeparator =>
    have skipped := scanFrom_separators isSeparator position []
    rw [List.append_nil] at skipped
    rw [skipped, scanFrom_nil]
  | @token position separators text rest kind tokens isSeparator longest _ ih =>
    obtain ⟨c, text, rfl⟩ := List.exists_cons_of_ne_nil longest.2.1.ne_nil
    rw [List.cons_append] at longest
    have found := ((isLongest_iff (position + separators.length)).mp longest).2
    rw [scanFrom_separators isSeparator, List.cons_append,
      scanFrom_lexeme (isBlank_of_lexeme found) found, ← List.cons_append, List.drop_left,
      List.take_left, ih]
    rfl

theorem isLexeme_of_scan {source : String} (scanned : scan source = .ok tokens) :
    ∀ token ∈ tokens, IsLexeme token.kind token.text.toList := by
  intro token member
  obtain ⟨c, rest, n, lexed, text⟩ := lexed_of_scanFrom scanned token member
  rw [text]
  exact isLexeme_of_lexeme (lexeme_eq_ok.mpr lexed)

end Token

/-! ## The places of the tokens -/

namespace Segmented

/-- The tokens stand one behind the other where their spans say, and only separators stand outside
their spans. -/
structure Placed (position : Nat) (source : List Char) (tokens : List Token) : Prop where
  /-- A span starts behind the characters before the text and is as long as the text. -/
  text : ∀ token ∈ tokens, token.span.start < token.span.stop ∧
    ∃ before behind, source = before ++ (token.text.toList ++ behind) ∧
      token.span.start = position + before.length ∧
      token.span.stop = token.span.start + token.text.length
  ordered : tokens.Pairwise fun first second => first.span.stop ≤ second.span.start
  gaps : ∀ i c, source[i]? = some c →
    (∀ token ∈ tokens, position + i < token.span.start ∨ token.span.stop ≤ position + i) →
    IsSeparator c

variable {position : Nat} {source : List Char} {tokens : List Token}

theorem placed (segmented : Segmented position source tokens) : Placed position source tokens := by
  induction segmented with
  | done isSeparator =>
    refine ⟨fun _ member => absurd member List.not_mem_nil, .nil, ?_⟩
    intro i c found _
    exact isSeparator c (List.mem_of_getElem? found)
  | @token position separators text rest kind tokens isSeparator longest _ ih =>
    have positive := List.length_pos_iff.mpr longest.2.1.ne_nil
    refine ⟨?_, ?_, ?_⟩
    · rintro token (_ | ⟨_, member⟩)
      · refine ⟨Nat.lt_add_of_pos_right positive, separators, rest, ?_, rfl, ?_⟩
        · rw [String.toList_ofList]
        · rw [String.length_ofList]
      · obtain ⟨proper, before, behind, source, start, stop⟩ := ih.text token member
        refine ⟨proper, separators ++ (text ++ before), behind, ?_, ?_, stop⟩
        · rw [source]
          simp only [List.append_assoc]
        · rw [start, List.length_append, List.length_append]
          omega
    · refine List.pairwise_cons.mpr ⟨?_, ih.ordered⟩
      intro token member
      obtain ⟨_, before, _, _, start, _⟩ := ih.text token member
      show position + separators.length + text.length ≤ token.span.start
      omega
    · intro i c found outside
      have first : position + i < position + separators.length ∨
          position + separators.length + text.length ≤ position + i :=
        outside _ List.mem_cons_self
      obtain before | behind := first
      · rw [List.getElem?_append_left (by omega)] at found
        exact isSeparator c (List.mem_of_getElem? found)
      · rw [List.getElem?_append_right (by omega), List.getElem?_append_right (by omega)] at found
        refine ih.gaps _ c found ?_
        intro token member
        have apart := outside token (.tail _ member)
        omega

end Segmented

namespace Token

/-- A source scans exactly if it is separators and longest lexemes, and then its tokens are those
lexemes, in their places and with nothing but separators outside them. -/
theorem scan_eq_ok_iff_segmented (source : String) (tokens : List Token) :
    (scan source = .ok tokens ↔ Segmented 0 source.toList tokens) ∧
      (scan source = .ok tokens → Segmented.Placed 0 source.toList tokens) := by
  have iff : scan source = .ok tokens ↔ Segmented 0 source.toList tokens :=
    ⟨segmented_of_scanFrom, scanFrom_of_segmented⟩
  exact ⟨iff, fun scanned => (iff.mp scanned).placed⟩

/-- A hyphen inside a name, a sign in front of a digit and a point without a digit behind it. -/
theorem scan_eq_ok_iff_segmented_adjacent :
    ∃ tokens, tokens.map Token.text = ["n-1", "<=", "-2.5", ".", "x"] ∧
      scan "n-1<=-2.5 .x" = .ok tokens ∧ Segmented.Placed 0 "n-1<=-2.5 .x".toList tokens := by
  have scanned : scan "n-1<=-2.5 .x" = .ok [⟨.identifier, "n-1", ⟨0, 3⟩⟩, ⟨.operator, "<=", ⟨3, 5⟩⟩,
      ⟨.decimal, "-2.5", ⟨5, 9⟩⟩, ⟨.operator, ".", ⟨10, 11⟩⟩, ⟨.identifier, "x", ⟨11, 12⟩⟩] := by
    rw [scan_ofList]
    decide +kernel
  exact ⟨_, rfl, scanned, (scan_eq_ok_iff_segmented _ _).2 scanned⟩

end Token

end Primer
