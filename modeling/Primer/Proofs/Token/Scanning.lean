import Mathlib.Data.List.Forall2
import Primer.Token.Scan

/-!
# Blanks end a lexeme

The lexeme at the front of a text is the longest one, so what it is may depend on what follows it.
It does not depend on anything behind a blank: a text scans the same whether it ends or goes on with
a blank, and wherever it stands.  So words with blanks between them are scanned one by one
(`Token.scanFrom_intercalate`).
-/

namespace Primer

namespace Lexeme

/-- The text has ended, or goes on with a blank. -/
def Ends (suffix : List Char) : Prop :=
  ∀ c ∈ suffix.head?, isBlank c = true

theorem Ends.cases {suffix : List Char} (ends : Ends suffix) :
    suffix = [] ∨ ∃ c rest, suffix = c :: rest ∧ isBlank c = true := by
  cases suffix with
  | nil => exact .inl rfl
  | cons c rest => exact .inr ⟨c, rest, rfl, ends c rfl⟩

theorem isBlank_cases {c : Char} (blank : isBlank c = true) :
    c = ' ' ∨ c = '\t' ∨ c = '\n' ∨ c = '\r' ∨ c = '\x08' := by
  simpa [isBlank, or_assoc] using blank

theorem isDigit_of_isBlank {c : Char} (blank : isBlank c = true) : c.isDigit = false := by
  obtain rfl | rfl | rfl | rfl | rfl := isBlank_cases blank <;> rfl

/-! ## Lengths -/

theorem wholeLength_le (source : List Char) : wholeLength source ≤ source.length := by
  have signs := (List.takeWhile_sublist isSign (l := source.take 1)).length_le
  have digits := (List.takeWhile_sublist Char.isDigit
    (l := source.drop ((source.take 1).takeWhile isSign).length)).length_le
  rw [List.length_drop] at digits
  rw [List.length_take] at signs
  simp only [wholeLength]
  omega

theorem fractionLength_le (text : List Char) : fractionLength text ≤ text.length := by
  unfold fractionLength
  split
  · rename_i rest
    have digits := (List.takeWhile_sublist Char.isDigit (l := rest)).length_le
    split
    · exact Nat.zero_le _
    · rename_i count
      simp only [List.length_cons]
      omega
  · exact Nat.zero_le _

theorem number_le (source : List Char) : (number source).2 ≤ source.length := by
  have whole := wholeLength_le source
  have fraction := fractionLength_le (source.drop (wholeLength source))
  rw [List.length_drop] at fraction
  unfold number
  split
  · exact whole
  · simp only
    omega

theorem closeCharacter_le {start length n : Nat} {rest : List Char}
    (found : closeCharacter start length rest = .ok n) : n ≤ length + rest.length := by
  unfold closeCharacter at found
  split at found <;> cases found
  simp only [List.length_cons]
  omega

theorem characterLength_le {start n : Nat} {body : List Char}
    (found : characterLength start body = .ok n) : n ≤ body.length + 1 := by
  unfold characterLength at found
  split at found
  · cases found
  · cases found
  · split at found
    · have closed := closeCharacter_le found
      simp only [List.length_cons]
      omega
    · cases found
  · cases found
  · split at found
    · cases found
    · have closed := closeCharacter_le found
      simp only [List.length_cons]
      omega

theorem stringBodyLength_le {position n : Nat} {body : List Char}
    (found : stringBodyLength position body = .ok n) : n ≤ body.length := by
  fun_induction stringBodyLength position body generalizing n with
  | case1 | case3 | case5 | case6 => cases found
  | case2 position rest =>
    cases found
    simp
  | case4 position letter rest isLetter ih =>
    cases inner : stringBodyLength (position + 2) rest with
    | error error => simp [inner, bind, Except.bind] at found
    | ok length =>
      have shorter := ih inner
      rw [inner] at found
      cases found
      simp only [List.length_cons]
      omega
  | case7 position c rest _ _ _ _ ih =>
    cases inner : stringBodyLength (position + 1) rest with
    | error error => simp [inner, bind, Except.bind] at found
    | ok length =>
      have shorter := ih inner
      rw [inner] at found
      cases found
      simp only [List.length_cons]
      omega

theorem operatorLength_le {start n : Nat} {c : Char} {rest : List Char}
    (found : operatorLength start c rest = .ok n) : n ≤ rest.length + 1 := by
  unfold operatorLength at found
  split at found
  · rename_i both
    cases found
    cases rest with
    | nil => simp at both
    | cons d rest => simp
  · split at found <;> cases found
    simp

/-! ## What follows a blank does not matter -/

section

variable {suffix : List Char} (ends : Ends suffix)

include ends

theorem takeWhile_append_of_ends {p : Char → Bool} (stops : ∀ c, isBlank c = true → p c = false)
    (text : List Char) : (text ++ suffix).takeWhile p = text.takeWhile p := by
  have none : suffix.takeWhile p = [] := by
    obtain rfl | ⟨c, rest, rfl, blank⟩ := ends.cases
    · rfl
    · exact List.takeWhile_cons_of_neg (by simp [stops c blank])
  rw [List.takeWhile_append, none, List.append_nil]
  split
  · rename_i whole
    exact ((List.takeWhile_sublist p).eq_of_length whole).symm
  · rfl

theorem startsNumber_append (c : Char) (rest : List Char) :
    startsNumber (c :: (rest ++ suffix)) = startsNumber (c :: rest) := by
  cases rest with
  | cons d rest => rfl
  | nil =>
    obtain rfl | ⟨d, after, rfl, blank⟩ := ends.cases
    · rfl
    · obtain rfl | rfl | rfl | rfl | rfl := isBlank_cases blank <;> simp [startsNumber]

theorem wholeLength_append (c : Char) (rest : List Char) :
    wholeLength (c :: (rest ++ suffix)) = wholeLength (c :: rest) := by
  cases sign : isSign c with
  | true => simp [wholeLength, sign, takeWhile_append_of_ends ends fun _ => isDigit_of_isBlank]
  | false =>
    have digits := takeWhile_append_of_ends ends (fun _ => isDigit_of_isBlank) (c :: rest)
    rw [List.cons_append] at digits
    simp [wholeLength, sign, digits]

theorem fractionLength_append (text : List Char) :
    fractionLength (text ++ suffix) = fractionLength text := by
  cases text with
  | nil =>
    obtain rfl | ⟨d, after, rfl, blank⟩ := ends.cases
    · rfl
    · obtain rfl | rfl | rfl | rfl | rfl := isBlank_cases blank <;> rfl
  | cons c text =>
    by_cases point : c = '.'
    · subst point
      rw [List.cons_append, fractionLength, fractionLength,
        takeWhile_append_of_ends ends fun _ => isDigit_of_isBlank]
    · rw [List.cons_append, fractionLength, fractionLength] <;> simp [point]

theorem number_append (c : Char) (rest : List Char) :
    number (c :: (rest ++ suffix)) = number (c :: rest) := by
  have whole := wholeLength_le (c :: rest)
  have drop : (c :: (rest ++ suffix)).drop (wholeLength (c :: rest)) =
      (c :: rest).drop (wholeLength (c :: rest)) ++ suffix := by
    rw [← List.cons_append, List.drop_append_of_le_length whole]
  rw [number, number, wholeLength_append ends, drop, fractionLength_append ends]

theorem operatorLength_append {start start' n : Nat} {c : Char} {rest : List Char}
    (found : operatorLength start c rest = .ok n) :
    operatorLength start' c (rest ++ suffix) = .ok n := by
  have head : ((rest ++ suffix).head? == some '=') = (rest.head? == some '=') := by
    cases rest with
    | cons d rest => rfl
    | nil =>
      obtain rfl | ⟨d, after, rfl, blank⟩ := ends.cases
      · rfl
      · obtain rfl | rfl | rfl | rfl | rfl := isBlank_cases blank <;> rfl
  unfold operatorLength at found ⊢
  rw [head]
  split at found
  · rename_i both
    rw [if_pos both]
    exact found
  · rename_i single
    split at found
    · rename_i operator
      rw [if_neg single, if_pos operator]
      exact found
    · cases found

end

/-- A character is no backslash where the patterns of an escape did not apply. -/
theorem ne_backslash {c : Char} {rest : List Char} (lone : c = '\\' → rest = [] → False)
    (escaped : ∀ letter others, c = '\\' → rest = letter :: others → False) : c ≠ '\\' := by
  rintro rfl
  cases rest with
  | nil => exact lone rfl rfl
  | cons letter others => exact escaped letter others rfl rfl

theorem closeCharacter_append {start start' length n : Nat} {rest : List Char}
    (found : closeCharacter start length rest = .ok n) (suffix : List Char) :
    closeCharacter start' length (rest ++ suffix) = .ok n := by
  unfold closeCharacter at found
  split at found <;> cases found
  rfl

theorem characterLength_append {start start' n : Nat} {body : List Char}
    (found : characterLength start body = .ok n) (suffix : List Char) :
    characterLength start' (body ++ suffix) = .ok n := by
  unfold characterLength at found
  split at found
  · cases found
  · cases found
  · split at found
    · rename_i letter rest isLetter
      simp only [List.cons_append, characterLength, isLetter, if_true]
      exact closeCharacter_append found suffix
    · cases found
  · cases found
  · rename_i c rest notEscape notEscape' notQuote
    split at found
    · cases found
    · rename_i notLineEnd
      have plain := ne_backslash notEscape notEscape'
      rw [List.cons_append, characterLength, if_neg notLineEnd]
      · exact closeCharacter_append found suffix
      · exact fun escape => absurd escape plain
      · exact fun _ _ escape => absurd escape plain
      · exact notQuote

theorem stringBodyLength_append {position position' n : Nat} {body : List Char}
    (found : stringBodyLength position body = .ok n) (suffix : List Char) :
    stringBodyLength position' (body ++ suffix) = .ok n := by
  fun_induction stringBodyLength position body generalizing position' n with
  | case1 | case3 => cases found
  | case2 position rest => exact found
  | case4 position letter rest isLetter ih =>
    cases inner : stringBodyLength (position + 2) rest with
    | error error => simp [inner, bind, Except.bind] at found
    | ok length =>
      rw [inner] at found
      rw [List.cons_append, List.cons_append, stringBodyLength, if_pos isLetter, ih inner]
      exact found
  | case5 => cases found
  | case6 => cases found
  | case7 position c rest notQuote notEscape notEscape' notLineEnd ih =>
    have plain := ne_backslash notEscape notEscape'
    cases inner : stringBodyLength (position + 1) rest with
    | error error => simp [inner, bind, Except.bind] at found
    | ok length =>
      rw [inner] at found
      rw [List.cons_append, stringBodyLength, if_neg notLineEnd, ih inner]
      · exact found
      · exact notQuote
      · exact fun escape => absurd escape plain
      · exact fun _ _ escape => absurd escape plain

end Lexeme

/-- How the lexeme at the front is found: its first characters say which kind it is. -/
inductive Lexed (start : Nat) (c : Char) (rest : List Char) : Token.Kind → Nat → Prop
  | identifier : Lexeme.isIdentifierStart c = true →
    Lexed start c rest .identifier (Lexeme.identifierLength rest + 1)
  | number {kind : Token.Kind} {n : Nat} : Lexeme.isIdentifierStart c = false →
    Lexeme.startsNumber (c :: rest) = true → Lexeme.number (c :: rest) = (kind, n) →
    Lexed start c rest kind n
  | character {n : Nat} : c = '\'' → Lexeme.characterLength start rest = .ok n →
    Lexed start c rest .character n
  | string {n : Nat} : c = '"' → Lexeme.stringBodyLength (start + 1) rest = .ok n →
    Lexed start c rest .string (n + 1)
  | operator {n : Nat} : Lexeme.isIdentifierStart c = false →
    Lexeme.startsNumber (c :: rest) = false → c ≠ '\'' → c ≠ '"' →
    Lexeme.operatorLength start c rest = .ok n → Lexed start c rest .operator n

section

open Lexeme

variable {start start' n : Nat} {c : Char} {rest suffix : List Char} {kind : Token.Kind}

theorem lexeme_eq_ok : lexeme start c rest = .ok (kind, n) ↔ Lexed start c rest kind n := by
  have quoted : ∀ d, d = '\'' ∨ d = '"' → startsNumber (d :: rest) = false := by
    rintro _ (rfl | rfl) <;> cases rest <;> rfl
  constructor
  · intro found
    unfold lexeme at found
    split at found
    · cases found
      exact .identifier ‹_›
    split at found
    · exact .number (Bool.not_eq_true _ ▸ ‹_›) ‹_› (Except.ok.inj found)
    split at found
    · cases length : characterLength start rest with
      | error error => simp [length, Except.map] at found
      | ok m =>
        rw [length] at found
        cases found
        exact .character ‹_› length
    split at found
    · cases length : stringBodyLength (start + 1) rest with
      | error error => simp [length, Except.map] at found
      | ok m =>
        rw [length] at found
        cases found
        exact .string ‹_› length
    · cases length : operatorLength start c rest with
      | error error => simp [length, Except.map] at found
      | ok m =>
        rw [length] at found
        cases found
        exact .operator (by simp_all) (by simp_all) ‹_› ‹_› length
  · intro lexed
    cases lexed with
    | identifier first => rw [lexeme, if_pos first]
    | number first numeric found => rw [lexeme, first, if_neg nofun, if_pos numeric, found]
    | character quote length =>
      subst quote
      rw [lexeme, if_neg (by decide), quoted _ (.inl rfl), if_neg nofun, if_pos rfl, length]
      rfl
    | string quote length =>
      subst quote
      rw [lexeme, if_neg (by decide), quoted _ (.inr rfl), if_neg nofun, if_neg (by decide),
        if_pos rfl, length]
      rfl
    | operator first numeric notQuote notString length =>
      rw [lexeme, first, if_neg nofun, numeric, if_neg nofun, if_neg notQuote, if_neg notString,
        length]
      rfl

/-- The lexeme at the front does not depend on its place or on what follows a blank. -/
theorem lexeme_append (ends : Ends suffix) (found : lexeme start c rest = .ok (kind, n)) :
    lexeme start' c (rest ++ suffix) = .ok (kind, n) := by
  rw [lexeme_eq_ok] at found ⊢
  cases found with
  | identifier first =>
    have stops : ∀ c, isBlank c = true → isIdentifierPart c = false := by
      intro c blank
      obtain rfl | rfl | rfl | rfl | rfl := isBlank_cases blank <;> rfl
    rw [identifierLength, ← takeWhile_append_of_ends ends stops]
    exact .identifier first
  | number first numeric found =>
    exact .number first ((startsNumber_append ends c rest).trans numeric)
      ((number_append ends c rest).trans found)
  | character quote length => exact .character quote (characterLength_append length suffix)
  | string quote length => exact .string quote (stringBodyLength_append length suffix)
  | operator first numeric notQuote notString length =>
    exact .operator first ((startsNumber_append ends c rest).trans numeric) notQuote notString
      (operatorLength_append ends length)

theorem lexeme_length_le (found : lexeme start c rest = .ok (kind, n)) : n ≤ rest.length + 1 := by
  cases lexeme_eq_ok.mp found with
  | identifier =>
    exact Nat.succ_le_succ (List.takeWhile_sublist isIdentifierPart).length_le
  | number _ _ found =>
    have shorter := number_le (c :: rest)
    rw [found] at shorter
    exact shorter
  | character _ length => exact characterLength_le length
  | string _ length => exact Nat.succ_le_succ (stringBodyLength_le length)
  | operator _ _ _ _ length => exact operatorLength_le length

end

/-! ## Scanning -/

namespace Token

/-- The same lexeme, perhaps at another place. -/
def SameLexeme (first second : Token) : Prop :=
  first.kind = second.kind ∧ first.text = second.text

theorem scanFrom_nil (position : Nat) : scanFrom position [] = .ok [] := by
  rw [scanFrom]

theorem scanFrom_cons (position : Nat) (c : Char) (rest : List Char) :
    scanFrom position (c :: rest) =
      if Lexeme.isBlank c then
        scanFrom (position + 1) rest
      else
        match lexeme position c rest with
        | .error error => .error error
        | .ok (kind, n) =>
          (scanFrom (position + n) ((c :: rest).drop n)).map
            (⟨kind, String.ofList ((c :: rest).take n), ⟨position, position + n⟩⟩ :: ·) := by
  rw [scanFrom]
  split
  · rfl
  · split
    · rename_i failed
      rw [failed]
    · rename_i found
      rw [found]
      rfl

theorem scanFrom_blank {position : Nat} {c : Char} (blank : Lexeme.isBlank c = true)
    (rest : List Char) : scanFrom position (c :: rest) = scanFrom (position + 1) rest := by
  rw [scanFrom_cons, if_pos blank]

theorem scanFrom_lexeme {position n : Nat} {c : Char} {rest : List Char} {kind : Token.Kind}
    (blank : Lexeme.isBlank c = false) (found : lexeme position c rest = .ok (kind, n)) :
    scanFrom position (c :: rest) =
      (scanFrom (position + n) ((c :: rest).drop n)).map
        (⟨kind, String.ofList ((c :: rest).take n), ⟨position, position + n⟩⟩ :: ·) := by
  rw [scanFrom_cons, blank, if_neg Bool.false_ne_true, found]

/-- A text scans the same at the end and before a blank, and at every place. -/
theorem scanFrom_append {position : Nat} {source suffix : List Char} {tokens : List Token}
    (ends : Lexeme.Ends suffix) (scanned : scanFrom position source = .ok tokens)
    (position' : Nat) :
    ∃ tokens', List.Forall₂ SameLexeme tokens tokens' ∧
      scanFrom position' (source ++ suffix) =
        (scanFrom (position' + source.length) suffix).map (tokens' ++ ·) := by
  fun_induction scanFrom position source generalizing position' tokens with
  | case1 =>
    cases scanned
    refine ⟨[], .nil, ?_⟩
    rw [List.nil_append]
    cases found : scanFrom position' suffix <;> simp [Except.map]
  | case2 position c rest blank ih =>
    obtain ⟨tokens', same, scanned'⟩ := ih scanned (position' + 1)
    refine ⟨tokens', same, ?_⟩
    rw [List.cons_append, scanFrom_blank blank, scanned', List.length_cons, Nat.add_assoc,
      Nat.add_comm 1]
  | case3 => cases scanned
  | case4 position c rest notBlank kind n found =>
    rename_i text ih
    cases others : scanFrom (position + n) ((c :: rest).drop n) with
    | error error => simp [others, bind, Except.bind] at scanned
    | ok others' =>
      rw [others] at scanned
      cases scanned
      have shorter : n ≤ (c :: rest).length := lexeme_length_le found
      obtain ⟨tokens', same, scanned'⟩ := ih others (position' + n)
      refine ⟨⟨kind, String.ofList ((c :: rest).take n), ⟨position', position' + n⟩⟩ :: tokens',
        .cons ⟨rfl, rfl⟩ same, ?_⟩
      have place : position' + n + ((c :: rest).drop n).length =
          position' + (c :: rest).length := by
        rw [List.length_drop]
        omega
      rw [List.cons_append, scanFrom_lexeme (by simpa using notBlank) (lexeme_append ends found),
        ← List.cons_append, List.drop_append_of_le_length shorter,
        List.take_append_of_le_length shorter, scanned', place]
      cases scanFrom (position' + (c :: rest).length) suffix <;> rfl

/-- Words with a blank between them are scanned one by one. -/
theorem scanFrom_intercalate {words : List String} {tokens : List Token}
    (scanned : List.Forall₂ (fun word token => scan word = .ok [token]) words tokens)
    (position : Nat) :
    ∃ tokens', List.Forall₂ SameLexeme tokens tokens' ∧
      scanFrom position ([' '].intercalate (words.map String.toList)) = .ok tokens' := by
  induction scanned generalizing position with
  | nil => exact ⟨[], .nil, scanFrom_nil position⟩
  | @cons word token words tokens first rest ih =>
    cases words with
    | nil =>
      cases rest
      have ends : Lexeme.Ends [] := by simp [Lexeme.Ends]
      obtain ⟨tokens', same, scanned'⟩ := scanFrom_append ends first position
      refine ⟨tokens', same, ?_⟩
      simpa [scanFrom_nil, Except.map] using scanned'
    | cons next words =>
      have ends : Lexeme.Ends (' ' :: [' '].intercalate ((next :: words).map String.toList)) := by
        rintro c ⟨⟩
        rfl
      obtain ⟨tokens', same, scanned'⟩ := scanFrom_append ends first position
      obtain ⟨others, same', rest'⟩ := ih (position + word.toList.length + 1)
      refine ⟨tokens' ++ others, List.rel_append same same', ?_⟩
      rw [scanFrom_blank rfl, rest'] at scanned'
      rw [List.map_cons, List.map_cons, List.intercalate_cons_cons, List.append_assoc]
      exact scanned'

/-- A text that is written out is scanned from its characters, which need not be decoded then. -/
theorem scan_ofList (characters : List Char) :
    scan (String.ofList characters) = scanFrom 0 characters := by
  rw [scan, String.toList_ofList]

/-! ## Single tokens -/

/-- A text that is a single lexeme. -/
theorem scan_of_lexeme {text : String} {c : Char} {rest : List Char} {kind : Token.Kind}
    (characters : text.toList = c :: rest) (blank : Lexeme.isBlank c = false)
    (found : lexeme 0 c rest = .ok (kind, (c :: rest).length)) :
    scan text = .ok [⟨kind, text, ⟨0, text.length⟩⟩] := by
  have length : text.length = (c :: rest).length := by
    rw [← String.length_toList, characters]
  have same : text = String.ofList (c :: rest) := by
    rw [← characters, String.ofList_toList]
  rw [scan, characters, scanFrom_lexeme blank found, List.drop_length, List.take_length,
    scanFrom_nil, Nat.zero_add, ← length, ← same]
  rfl

/-- Every token is a lexeme of its own. -/
theorem lexed_of_scanFrom {position : Nat} {source : List Char} {tokens : List Token}
    (scanned : scanFrom position source = .ok tokens) :
    ∀ token ∈ tokens, ∃ c rest n, Lexed token.span.start c rest token.kind n ∧
      token.text.toList = (c :: rest).take n := by
  fun_induction scanFrom position source generalizing tokens with
  | case1 =>
    cases scanned
    exact fun _ member => absurd member List.not_mem_nil
  | case2 position c rest blank ih => exact ih scanned
  | case3 => cases scanned
  | case4 position c rest notBlank kind n found =>
    rename_i text ih
    cases others : scanFrom (position + n) ((c :: rest).drop n) with
    | error error => simp [others, bind, Except.bind] at scanned
    | ok others' =>
      rw [others] at scanned
      cases scanned
      intro token member
      obtain rfl | member := List.mem_cons.mp member
      · exact ⟨c, rest, n, lexeme_eq_ok.mp found, String.toList_ofList⟩
      · exact ih others token member

end Token

end Primer
