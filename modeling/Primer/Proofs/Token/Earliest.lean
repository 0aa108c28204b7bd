import Primer.Proofs.Token.Faults
import Primer.Proofs.Token.Segmentation

/-!
# Lexical errors come at the earliest character

A source that does not scan is refused at its first character that no text may have in this place.
What stands before can go on to a text that scans, and nothing behind matters.  If all characters
are fine, the source ends inside a literal.

Up to the lexeme that is missing, each lexeme is settled by the one character behind it, or by two
where the first is a point (`Lexeme.Alike`).  So these lexemes stay the same when what follows them
is cut off or replaced, as long as it still begins as it did.
-/

namespace Primer

namespace Lexeme

/-! ## From a lexeme to a longer one -/

section

variable {kind kind' : Token.Kind} {text rest : List Char} {c d : Char}

theorem snoc_subset : text ++ [d] ⊆ text ++ d :: rest :=
  ((List.prefix_append_right_inj text).mpr (List.prefix_append [d] rest)).subset

/-- A sign is a single character, so it stands in any front part of the text. -/
theorem IsSignText.exists_append {sign digits more : List Char} (signed : IsSignText sign)
    (nonempty : text ≠ []) (same : sign ++ digits = text ++ more) :
    ∃ part, text = sign ++ part ∧ digits = part ++ more := by
  obtain ⟨c, part, rfl⟩ := List.exists_cons_of_ne_nil nonempty
  simp only [IsSignText, List.mem_cons, List.not_mem_nil, or_false] at signed
  obtain rfl | rfl | rfl := signed
  · exact ⟨c :: part, rfl, same⟩
  · obtain ⟨rfl, others⟩ := List.cons.inj same
    exact ⟨part, rfl, others⟩
  · obtain ⟨rfl, others⟩ := List.cons.inj same
    exact ⟨part, rfl, others⟩

theorem IsDigits.snoc {digits : List Char} (isDigits : IsDigits (digits ++ d :: rest)) :
    IsDigits (digits ++ [d]) :=
  ⟨by simp, fun c member => isDigits.2 c (snoc_subset member)⟩

/-- A literal is closed by its last quote, whatever follows. -/
theorem lexeme_append_of_quote {start n : Nat} (quote : c = '\'' ∨ c = '"')
    (found : lexeme start c text = .ok (kind, n)) (suffix : List Char) :
    lexeme start c (text ++ suffix) = .ok (kind, n) := by
  rw [lexeme_eq_ok] at found ⊢
  cases found with
  | identifier first => obtain rfl | rfl := quote <;> cases first
  | number _ starts => obtain rfl | rfl := quote <;> cases text <;> cases starts
  | character quote length => exact .character quote (characterLength_append length suffix)
  | string quote length => exact .string quote (stringBodyLength_append length suffix)
  | operator _ _ notQuote notString => exact absurd quote (not_or.mpr ⟨notQuote, notString⟩)

/-- No literal begins with a shorter lexeme. -/
theorem IsLexeme.not_quoted (shorter : IsLexeme kind text)
    (quoted : (text ++ d :: rest).head? = some '\'' ∨ (text ++ d :: rest).head? = some '"') :
    ¬ IsLexeme kind' (text ++ d :: rest) := by
  intro longer
  obtain ⟨c, text, rfl⟩ := List.exists_cons_of_ne_nil shorter.ne_nil
  have quote : c = '\'' ∨ c = '"' := by simpa using quoted
  have found := lexeme_append_of_quote quote (shorter.lexeme_eq 0) (d :: rest)
  rw [List.cons_append] at longer
  have same := congrArg Prod.snd (Except.ok.inj (found.symm.trans (longer.lexeme_eq 0)))
  simp only [List.length_cons, List.length_append] at same
  omega

/-- A longer lexeme begins with `text` and one more character, or with `text`, a point and one more
character. -/
def Steps (text : List Char) (d : Char) (rest : List Char) : Prop :=
  (∃ kind, IsLexeme kind (text ++ [d])) ∨
    d = '.' ∧ ∃ e others kind, rest = e :: others ∧ IsLexeme kind (text ++ ['.', e])

theorem steps_of_decimal {sign digits fraction part : List Char} (signed : IsSignText sign)
    (isDigits : IsDigits digits) (isFraction : IsDigits fraction)
    (cut : digits ++ '.' :: fraction = part ++ d :: rest) : Steps (sign ++ part) d rest := by
  have atPoint : part = digits → d :: rest = '.' :: fraction → Steps (sign ++ part) d rest := by
    intro whole behind
    subst whole
    obtain ⟨rfl, rfl⟩ := List.cons.inj behind
    obtain ⟨e, others, rfl⟩ := List.exists_cons_of_ne_nil isFraction.1
    have first : IsDigits [e] := @IsDigits.snoc others e [] isFraction
    exact .inr ⟨rfl, e, others, .decimal, rfl, .decimal signed isDigits first⟩
  -- The shorter lexeme ends behind the point or at it, or else among the digits before it.
  obtain ⟨more, rfl, behind⟩ | ⟨more, rfl, behind⟩ := List.append_eq_append_iff.mp cut
  · cases more with
    | nil => exact atPoint (List.append_nil digits) behind.symm
    | cons point more =>
      obtain ⟨rfl, rfl⟩ := List.cons.inj behind
      have longer := IsLexeme.decimal signed isDigits isFraction.snoc
      refine .inl ⟨.decimal, ?_⟩
      simpa using longer
  · cases more with
    | nil => exact atPoint (List.append_nil part).symm behind
    | cons e more =>
      obtain ⟨rfl, -⟩ := List.cons.inj behind
      rw [Steps, List.append_assoc]
      exact .inl ⟨.integer, .integer signed isDigits.snoc⟩

theorem IsLexeme.steps (shorter : IsLexeme kind text)
    (longer : IsLexeme kind' (text ++ d :: rest)) : Steps text d rest := by
  have nonempty := shorter.ne_nil
  generalize same : text ++ d :: rest = whole at longer
  cases longer with
  | identifier first parts =>
    obtain ⟨c, part, rfl⟩ := List.exists_cons_of_ne_nil nonempty
    obtain ⟨rfl, rfl⟩ := List.cons.inj same
    exact .inl ⟨.identifier, .identifier first fun e member => parts e (snoc_subset member)⟩
  | integer signed isDigits =>
    obtain ⟨part, rfl, rfl⟩ := signed.exists_append nonempty same.symm
    rw [Steps, List.append_assoc]
    exact .inl ⟨.integer, .integer signed isDigits.snoc⟩
  | decimal signed isDigits isFraction =>
    rw [List.append_assoc] at same
    obtain ⟨part, rfl, cut⟩ := signed.exists_append nonempty same.symm
    exact steps_of_decimal signed isDigits isFraction cut
  | character isItem =>
    have longer := IsLexeme.character isItem
    rw [← same] at longer
    exact absurd longer (shorter.not_quoted (.inl (by rw [same]; rfl)))
  | string isItem =>
    have longer := IsLexeme.string isItem
    rw [← same] at longer
    exact absurd longer (shorter.not_quoted (.inr (by rw [same]; rfl)))
  | comparison listed =>
    obtain ⟨c, part, rfl⟩ := List.exists_cons_of_ne_nil nonempty
    obtain ⟨rfl, others⟩ := List.cons.inj same
    cases part with
    | nil =>
      obtain ⟨rfl, -⟩ := List.cons.inj others
      exact .inl ⟨.operator, .comparison listed⟩
    | cons => simp at others
  | operator =>
    obtain ⟨c, part, rfl⟩ := List.exists_cons_of_ne_nil nonempty
    simp at same

end

/-! ## Looking ahead -/

/-- `next` begins as `rest` does, as far as a lexeme in front of it can see: one character, and two
where the first is a point.  It may also end earlier. -/
def Alike (next rest : List Char) : Prop :=
  next.take 1 <+: rest ∧ (next.head? = some '.' → next.take 2 <+: rest)

theorem alike_append {c : Char} {rest other : List Char} (front : other.take 1 <+: c :: rest)
    (notPoint : c ≠ '.') (between : List Char) :
    Alike (between ++ other) (between ++ c :: rest) := by
  cases between with
  | nil =>
    refine ⟨front, fun point => ?_⟩
    cases other with
    | nil => cases point
    | cons d other =>
      obtain ⟨rfl, -⟩ := List.cons_prefix_cons.mp front
      exact absurd (Option.some.inj point) notPoint
  | cons d between =>
    refine ⟨by simp, fun _ => ?_⟩
    cases between with
    | nil => simpa using front
    | cons e between => simp

/-- A lexeme stays the longest one when what follows it is cut off or replaced. -/
theorem IsLongest.of_alike {kind : Token.Kind} {text rest next : List Char}
    (longest : IsLongest kind text (text ++ rest)) (alike : Alike next rest) :
    IsLongest kind text (text ++ next) := by
  obtain ⟨-, isLexeme, bound⟩ := longest
  refine ⟨List.prefix_append text next, isLexeme, fun kind' text' front isLexeme' => ?_⟩
  by_contra longer
  obtain ⟨more, rfl⟩ : text <+: text' := by
    apply List.prefix_of_prefix_length_le (List.prefix_append text next) front
    omega
  have refused : ∀ {kind ahead}, ahead ≠ [] → ahead <+: rest → ¬ IsLexeme kind (text ++ ahead) := by
    intro kind ahead nonempty begins longer
    have short := bound kind _ ((List.prefix_append_right_inj text).mpr begins) longer
    rw [List.length_append] at short
    have positive := List.length_pos_iff.mpr nonempty
    omega
  cases more with
  | nil => simp at longer
  | cons d more =>
    obtain ⟨next, rfl⟩ := (List.prefix_append_right_inj text).mp front
    obtain ⟨kind, step⟩ | ⟨rfl, e, others, kind, rfl, step⟩ := isLexeme.steps isLexeme'
    · exact refused (List.cons_ne_nil d []) alike.1 step
    · exact refused (List.cons_ne_nil '.' [e]) (alike.2 rfl) step

end Lexeme

namespace Token

open Lexeme

variable {position n : Nat} {c : Char} {rest : List Char} {kind : Token.Kind}

theorem scanFrom_error (notBlank : isBlank c = false) {error : LexicalError}
    (failed : lexeme position c rest = .error error) :
    scanFrom position (c :: rest) = .error error := by
  rw [scanFrom_cons, notBlank, if_neg Bool.false_ne_true, failed]

/-- A lexeme alone is one token. -/
theorem scanFrom_isLexeme {text : List Char} (isLexeme : IsLexeme kind text) (position : Nat) :
    scanFrom position text =
      .ok [⟨kind, String.ofList text, ⟨position, position + text.length⟩⟩] := by
  obtain ⟨c, text, rfl⟩ := List.exists_cons_of_ne_nil isLexeme.ne_nil
  have found := isLexeme.lexeme_eq position
  rw [scanFrom_lexeme (isBlank_of_lexeme found) found, List.drop_length, List.take_length,
    scanFrom_nil]
  rfl

/-- A lexeme in front is cut off in the same way from everything that begins alike. -/
theorem scanFrom_of_alike (found : lexeme position c rest = .ok (kind, n)) {next : List Char}
    (alike : Alike next ((c :: rest).drop n)) :
    scanFrom position ((c :: rest).take n ++ next) =
      (scanFrom (position + n) next).map
        (⟨kind, String.ofList ((c :: rest).take n), ⟨position, position + n⟩⟩ :: ·) := by
  have longest := isLongest_of_lexeme found
  have length : ((c :: rest).take n).length = n :=
    List.length_take_of_le (lexeme_length_le found)
  generalize text : (c :: rest).take n = text at longest length
  rw [← List.take_append_drop n (c :: rest), text] at longest
  obtain ⟨d, text, rfl⟩ := List.exists_cons_of_ne_nil longest.2.1.ne_nil
  have longest := longest.of_alike alike
  rw [List.cons_append] at longest ⊢
  have kept := ((isLongest_iff position).mp longest).2
  rw [scanFrom_lexeme (isBlank_of_lexeme kept) kept, length, ← List.cons_append,
    List.drop_left' length, List.take_left' length]

/-- A point always is a lexeme. -/
theorem ne_point_of_lexeme_error {error : LexicalError}
    (failed : lexeme position c rest = .error error) : c ≠ '.' := by
  rintro rfl
  have point : IsLexeme .operator ['.'] := .operator (by decide)
  obtain ⟨kind, n, found, -⟩ :=
    exists_lexeme_of_isLexeme position point (List.prefix_append ['.'] rest)
  cases found.symm.trans failed

/-- Scanning that fails comes to a place where no lexeme stands.  It comes to the same place, with
the same tokens, if the source ends there or goes on with the same character. -/
theorem exists_lexeme_error {source : List Char} {error : LexicalError}
    (failed : scanFrom position source = .error error) :
    ∃ front c rest tokens, source = front ++ c :: rest ∧ isBlank c = false ∧
      lexeme (position + front.length) c rest = .error error ∧
      ∀ other, other.take 1 <+: c :: rest →
        scanFrom position (front ++ other) =
          (scanFrom (position + front.length) other).map (tokens ++ ·) := by
  fun_induction scanFrom position source with
  | case1 => cases failed
  | case2 position c rest blank ih =>
    obtain ⟨front, d, others, tokens, rfl, notBlank, missing, reach⟩ := ih failed
    have place : position + (c :: front).length = position + 1 + front.length := by
      rw [List.length_cons]
      omega
    refine ⟨c :: front, d, others, tokens, rfl, notBlank, place ▸ missing, ?_⟩
    intro other begins
    rw [List.cons_append, scanFrom_blank blank, reach other begins, place]
  | case3 position c rest notBlank error' missing =>
    cases failed
    refine ⟨[], c, rest, [], rfl, Bool.not_eq_true _ ▸ notBlank, missing, ?_⟩
    intro other _
    cases scanned : scanFrom position other <;> simp [scanned, Except.map]
  | case4 position c rest notBlank kind n found =>
    rename_i text ih
    obtain ⟨front, d, others, tokens, cut, notBlank', missing, reach⟩ := ih (eq_error_of_map failed)
    have place : position + ((c :: rest).take n ++ front).length = position + n + front.length := by
      rw [List.length_append, List.length_take_of_le (lexeme_length_le found), Nat.add_assoc]
    refine ⟨(c :: rest).take n ++ front, d, others, ⟨kind, text, position, position + n⟩ :: tokens,
      ?_, notBlank', place ▸ missing, ?_⟩
    · rw [List.append_assoc, ← cut, List.take_append_drop]
    · intro other begins
      -- Where the lexeme is missing stands no point, so the lexemes before it look no further.
      have alike := alike_append begins (ne_point_of_lexeme_error missing) front
      rw [← cut] at alike
      rw [List.append_assoc, scanFrom_of_alike found alike, reach other begins, place]
      cases scanFrom (position + n + front.length) other <;> rfl

section

variable {before behind : List Char} {fault : LexicalFault}

/-- What came of a lexeme, if anything, can go on to one, which then is a single token. -/
theorem exists_scanFrom_of_faulty (faulty : Faulty before behind fault) (position : Nat) :
    ∃ more tokens, (before ++ more).take 1 <+: before ++ behind ∧
      scanFrom position (before ++ more) = .ok tokens := by
  cases before with
  | nil => exact ⟨[], [], by simp, by rw [List.append_nil, scanFrom_nil]⟩
  | cons c before =>
    obtain ⟨kind, more, isLexeme⟩ := faulty.exists_isLexeme (List.cons_ne_nil c before)
    exact ⟨more, _, by simp, scanFrom_isLexeme isLexeme position⟩

/-- The character behind settles the fault, whatever stands behind it. -/
theorem scanFrom_of_faulty {d : Char} (faulty : Faulty before (d :: behind) fault)
    (source : c :: rest = before ++ d :: behind) (notBlank : isBlank c = false)
    (position : Nat) (others : List Char) :
    (before ++ d :: others).take 1 <+: c :: rest ∧
      scanFrom position (before ++ d :: others) = .error ⟨fault, position + before.length⟩ := by
  obtain ⟨rest', same⟩ : ∃ rest', c :: rest' = before ++ d :: others := by
    cases before with
    | nil => exact ⟨others, congrArg (· :: others) (List.cons.inj source).1⟩
    | cons e before => exact ⟨before ++ d :: others, congrArg (· :: _) (List.cons.inj source).1⟩
  have failed : lexeme position c rest' = .error ⟨fault, position + before.length⟩ :=
    (faulty.of_head others).lexeme_eq same
  rw [← same]
  exact ⟨by simp, scanFrom_error notBlank failed⟩

end

/-- An error stands at the earliest character: the text before it can go on to one that scans, and
no text that has the same characters up to and with this one scans, or fails in another way.  An
error at the end of the source is a literal that was not closed. -/
theorem error_at_earliest_character (source : String) (error : LexicalError)
    (failed : scan source = .error error) :
    error.position ≤ source.length ∧
      (∃ text tokens, source.toList.take error.position <+: String.toList text ∧
        scan text = .ok tokens) ∧
      (error.position < source.length → ∀ text : String,
        source.toList.take (error.position + 1) <+: text.toList → scan text = .error error) ∧
      (error.position = source.length →
        error.fault = .unterminatedString ∨ error.fault = .unterminatedCharacter) := by
  obtain ⟨front, c, rest, tokens, cut, notBlank, missing, reach⟩ := exists_lexeme_error failed
  obtain ⟨before, behind, split, faulty, place⟩ := faulty_of_lexeme missing
  simp only [Nat.zero_add] at reach place
  rw [split, ← List.append_assoc] at cut
  rw [← List.length_append] at place
  have length : source.length = error.position + behind.length := by
    rw [← String.length_toList, cut, List.length_append, place]
  refine ⟨by omega, ?_, ?_, ?_⟩
  · obtain ⟨more, others, begins, scanned⟩ := exists_scanFrom_of_faulty faulty front.length
    refine ⟨String.ofList (front ++ (before ++ more)), tokens ++ others, ?_, ?_⟩
    · rw [cut, place, List.take_left, String.toList_ofList, ← List.append_assoc]
      exact List.prefix_append _ more
    · rw [scan, String.toList_ofList, reach _ (split ▸ begins), scanned]
      rfl
  · intro inside text begins
    cases behind with
    | nil => simp only [List.length_nil] at length; omega
    | cons d behind =>
      rw [cut, place, List.take_length_add_append] at begins
      obtain ⟨others, same⟩ := begins
      have whole : text.toList = front ++ (before ++ d :: others) := by
        rw [← same]
        simp
      obtain ⟨begins, refused⟩ := scanFrom_of_faulty faulty split notBlank front.length others
      rw [← List.length_append, ← place] at refused
      rw [scan, whole, reach _ begins, refused]
      rfl
  · intro ended
    have nothing : behind = [] := List.length_eq_zero_iff.mp (by omega)
    subst nothing
    exact faulty.fault_eq

/-- A point that belongs to no number, and a string that is fine up to the letter of an escape; then
the same string cut off before that letter. -/
theorem error_at_earliest_character_escape :
    scan "1.x \"a\\q\" ^^" = .error ⟨.invalidEscape 'q', 7⟩ ∧
      (∃ text tokens, "1.x \"a\\".toList <+: String.toList text ∧ scan text = .ok tokens) ∧
      (∀ text : String, "1.x \"a\\q".toList <+: text.toList →
        scan text = .error ⟨.invalidEscape 'q', 7⟩) ∧
      ∃ error, scan "1.x \"a\\" = .error error ∧ error.position = 7 ∧
        (error.fault = .unterminatedString ∨ error.fault = .unterminatedCharacter) := by
  have failed : scan "1.x \"a\\q\" ^^" = .error ⟨.invalidEscape 'q', 7⟩ := by
    rw [scan_ofList]
    decide +kernel
  have ended : scan "1.x \"a\\" = .error ⟨.unterminatedString, 7⟩ := by
    rw [scan_ofList]
    decide +kernel
  obtain ⟨-, viable, refused, -⟩ := error_at_earliest_character _ _ failed
  obtain ⟨-, -, -, unterminated⟩ := error_at_earliest_character _ _ ended
  exact ⟨failed, viable, refused (by decide), _, ended, rfl, unterminated rfl⟩

end Token

end Primer
