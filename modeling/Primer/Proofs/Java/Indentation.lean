import Primer.Proofs.Java.Determinacy

/-!
# How Java text is laid out

`Java.WellIndented` reads lines with nothing but their first and last characters in view: a line
that begins with a closing brace ends a block, one that ends with an opening brace begins one, and
every line has to be indented by the number of blocks around it.

The lines of a statement, taken together, end at the depth at which they begin, whatever follows
them.  `Java.Lays` says this of a list of lines, with a rule for each way of putting lines together.
It also lists the lines that end in a semicolon: these are the clauses of the program, one line
each (`Statement.lays_toJava`).  No constant gets in the way, because a line end in it is escaped
and a brace in it is neither at the beginning nor at the end of a line.
-/

namespace Primer

namespace Java

/-! ## Reading the depth -/

/-- The depth of a line, if the lines before it end at `depth`. -/
def lineDepth (depth : Int) (line : List Char) : Int :=
  if (line.dropWhile (· == ' ')).head? = some '}' then depth - 1 else depth

/-- The depth at which a line ends. -/
def depthAfter (depth : Int) (line : List Char) : Int :=
  if line.getLast? = some '{' then lineDepth depth line + 1 else lineDepth depth line

/-- Reading on from `depth`, the depth is never negative and zero at the end, and every line is
blank or begins with exactly four spaces for each block around it. -/
def WellIndented (depth : Int) : List (List Char) → Prop
  | [] => depth = 0
  | line :: lines =>
    0 ≤ lineDepth depth line ∧
    (line.all (· == ' ') = true ∨
      ((line.takeWhile (· == ' ')).length : Int) = 4 * lineDepth depth line) ∧
    WellIndented (depthAfter depth line) lines

instance decidableWellIndented :
    (depth : Int) → (lines : List (List Char)) → Decidable (WellIndented depth lines)
  | _, [] => inferInstanceAs (Decidable (_ = _))
  | depth, line :: lines =>
    have := decidableWellIndented (depthAfter depth line) lines
    inferInstanceAs (Decidable (_ ∧ _ ∧ _))

example : WellIndented 0 [['a', '{'], [' ', ' ', ' ', ' ', 'b'], ['}']] := by decide

example : ¬ WellIndented 0 [['a', '{'], [' ', ' ', 'b'], ['}']] := by decide

/-! ## Lines -/

namespace Line

/-- The characters of a line without its end. -/
def chars (line : Line) : List Char :=
  List.replicate (4 * line.depth) ' ' ++ line.text.toList

/-- The text of a line can be told from its indentation and from the lines around it. -/
def IsTidy (text : String) : Prop :=
  '\n' ∉ text.toList ∧ text.toList.head? ≠ some ' '

variable {line : Line}

theorem blanks_of_mem_replicate {n : Nat} : ∀ c ∈ List.replicate n ' ', (c == ' ') = true := by
  intro c member
  rw [List.eq_of_mem_replicate member]
  rfl

theorem IsTidy.head?_ne {text : String} (tidy : IsTidy text) :
    ∀ c ∈ text.toList.head?, (c == ' ') = false := by
  intro c head
  rw [beq_eq_false_iff_ne]
  rintro rfl
  exact tidy.2 head

theorem IsTidy.dropWhile_chars (tidy : IsTidy line.text) :
    line.chars.dropWhile (· == ' ') = line.text.toList :=
  dropWhile_append_of_head blanks_of_mem_replicate tidy.head?_ne

theorem IsTidy.takeWhile_chars (tidy : IsTidy line.text) :
    line.chars.takeWhile (· == ' ') = List.replicate (4 * line.depth) ' ' :=
  takeWhile_append_of_head blanks_of_mem_replicate tidy.head?_ne

theorem IsTidy.newline_not_mem_chars (tidy : IsTidy line.text) : '\n' ∉ line.chars := by
  simp [chars, tidy.1]

theorem getLast?_chars {c : Char} (notBlank : c ≠ ' ') :
    line.chars.getLast? = some c ↔ line.text.toList.getLast? = some c := by
  cases last : line.text.toList.getLast? with
  | none =>
    have empty : line.text.toList = [] := List.getLast?_eq_none_iff.mp last
    have blank : ∀ d, (List.replicate (4 * line.depth) ' ').getLast? = some d → d = ' ' :=
      fun d ends => List.eq_of_mem_replicate (List.mem_of_getLast? ends)
    rw [chars, empty, List.append_nil]
    exact ⟨fun ends => absurd (blank c ends) notBlank, nofun⟩
  | some d => rw [chars, List.getLast?_append, last, Option.some_or]

end Line

/-! ## Lines that belong together -/

/-- The lines end at the depth at which they begin. -/
def Balanced (depth : Int) (lines : List Line) : Prop :=
  ∀ rest, WellIndented depth rest → WellIndented depth (lines.map Line.chars ++ rest)

/-- A line that is not blank. -/
theorem wellIndented_cons {depth : Int} {line : Line} {rest : List (List Char)}
    (tidy : Line.IsTidy line.text) (own : lineDepth depth line.chars = line.depth)
    (others : WellIndented (depthAfter depth line.chars) rest) :
    WellIndented depth (line.chars :: rest) := by
  refine ⟨?_, .inr ?_, others⟩
  · rw [own]
    exact Int.natCast_nonneg _
  · rw [own, tidy.takeWhile_chars, List.length_replicate]
    exact Int.natCast_mul 4 line.depth

/-- A line of its own that opens and closes no block. -/
theorem Balanced.inner {depth : Nat} {text : String} (tidy : Line.IsTidy text)
    (begins : text.toList.head? ≠ some '}') (ends : text.toList.getLast? ≠ some '{') :
    Balanced depth [⟨depth, text⟩] := by
  intro rest others
  have own : lineDepth depth (Line.mk depth text).chars = depth := by
    rw [lineDepth, tidy.dropWhile_chars, if_neg begins]
  refine wellIndented_cons tidy own ?_
  rw [depthAfter, own, if_neg (mt (Line.getLast?_chars (by decide)).mp ends)]
  exact others

theorem Line.isTidy_closing : IsTidy closing := by
  constructor <;> decide

theorem Line.isTidy_otherwise : IsTidy (closing ++ " else" ++ opening) := by
  constructor <;> decide

/-- The line between the two branches of a conditional closes a block and opens another. -/
theorem Balanced.otherwise (depth : Nat) :
    Balanced ((depth + 1 : Nat) : Int) [⟨depth, closing ++ " else" ++ opening⟩] := by
  intro rest others
  have tidy := Line.isTidy_otherwise
  have begins : (closing ++ " else" ++ opening).toList.head? = some '}' := by decide
  have ends : (closing ++ " else" ++ opening).toList.getLast? = some '{' := by decide
  have own : lineDepth ((depth + 1 : Nat) : Int)
      (Line.mk depth (closing ++ " else" ++ opening)).chars = depth := by
    rw [lineDepth, tidy.dropWhile_chars, if_pos begins]
    omega
  refine wellIndented_cons tidy own ?_
  rw [depthAfter, own, if_pos ((Line.getLast?_chars (by decide)).mpr ends)]
  exact others

theorem Balanced.nil (depth : Int) : Balanced depth [] :=
  fun _ others => others

theorem Balanced.append {depth : Int} {first second : List Line} (head : Balanced depth first)
    (tail : Balanced depth second) : Balanced depth (first ++ second) := by
  intro rest others
  rw [List.map_append, List.append_assoc]
  exact head _ (tail _ others)

theorem Balanced.blank (depth : Nat) : Balanced depth [blank] :=
  fun _ others => ⟨Int.natCast_nonneg depth, .inl rfl, others⟩

/-- A block: its body stands one level deeper, and the brace behind it goes back. -/
theorem Balanced.block {depth : Nat} {text : String} {body : List Line}
    (tidy : Line.IsTidy text) (begins : text.toList.head? ≠ some '}')
    (ends : text.toList.getLast? = some '{')
    (inside : Balanced ((depth + 1 : Nat) : Int) body) :
    Balanced depth (⟨depth, text⟩ :: body ++ [⟨depth, closing⟩]) := by
  intro rest others
  have own : lineDepth depth (Line.mk depth text).chars = depth := by
    rw [lineDepth, tidy.dropWhile_chars, if_neg begins]
  have closeTidy := Line.isTidy_closing
  have closes : closing.toList.head? = some '}' ∧ closing.toList.getLast? ≠ some '{' := by decide
  have closed : lineDepth ((depth + 1 : Nat) : Int) (Line.mk depth closing).chars = depth := by
    rw [lineDepth, closeTidy.dropWhile_chars, if_pos closes.1]
    omega
  have close : WellIndented ((depth + 1 : Nat) : Int) ((Line.mk depth closing).chars :: rest) := by
    refine wellIndented_cons closeTidy closed ?_
    rw [depthAfter, closed, if_neg (mt (Line.getLast?_chars (by decide)).mp closes.2)]
    exact others
  rw [List.map_append, List.append_assoc, List.map_cons, List.cons_append]
  refine wellIndented_cons tidy own ?_
  rw [depthAfter, own, if_pos ((Line.getLast?_chars (by decide)).mpr ends)]
  exact inside _ close

/-- The texts of the lines that end in a semicolon. -/
def wholes (lines : List Line) : List String :=
  (lines.map Line.text).filter fun text => text.toList.getLast? = some ';'

theorem wholes_append (first second : List Line) :
    wholes (first ++ second) = wholes first ++ wholes second := by
  rw [wholes, List.map_append, List.filter_append]
  rfl

theorem wholes_cons_of_ne {line : Line} (ends : line.text.toList.getLast? ≠ some ';')
    (lines : List Line) : wholes (line :: lines) = wholes lines := by
  rw [wholes, List.map_cons, List.filter_cons_of_neg (by simpa using ends)]
  rfl

/-- Lines that can be told from each other and that end at the depth at which they begin; `texts`
are those of them that end in a semicolon. -/
structure Lays (depth : Nat) (lines : List Line) (texts : List String) : Prop where
  balanced : Balanced depth lines
  tidy : ∀ line ∈ lines, Line.IsTidy line.text
  wholes_eq : wholes lines = texts

/-- A tidy text that does not close a block. -/
def Line.IsPlain (text : String) : Prop :=
  Line.IsTidy text ∧ text.toList.head? ≠ some '}'

/-- A text that begins with a word. -/
theorem IsSolid.isPlain {text : String} {first : List Char} (isSolid : IsSolid first)
    (rest : List Char) (spelled : text.toList = first ++ rest) (oneLine : '\n' ∉ rest) :
    Line.IsPlain text := by
  rw [Line.IsPlain, Line.IsTidy, spelled]
  refine ⟨⟨?_, isSolid.head?_ne (by decide) rest⟩, isSolid.head?_ne (by decide) rest⟩
  rw [List.mem_append, not_or]
  exact ⟨isSolid.not_mem (by decide), oneLine⟩

theorem getLast?_semicolon (text : String) : (text ++ ";").toList.getLast? = some ';' := by
  rw [String.toList_append]
  exact List.getLast?_concat

theorem getLast?_opening (text : String) : (text ++ opening).toList.getLast? = some '{' := by
  have split : (text ++ opening).toList = text.toList ++ [' '] ++ ['{'] := by simp [opening]
  rw [split]
  exact List.getLast?_concat

/-- The head of a block that begins with a keyword. -/
theorem IsSolid.isPlain_head {keyword : String} (isSolid : IsSolid keyword.toList)
    {inside : String} (oneLine : '\n' ∉ inside.toList) :
    Line.IsPlain (keyword ++ " (" ++ inside ++ ")" ++ opening) := by
  refine isSolid.isPlain (" (".toList ++ inside.toList ++ [')', ' ', '{']) ?_ ?_
  · simp [opening]
  · simp [oneLine]

namespace Lays

variable {depth : Nat} {lines others : List Line} {texts more : List String} {text : String}

theorem nil (depth : Nat) : Lays depth [] [] :=
  ⟨.nil depth, nofun, rfl⟩

theorem append (first : Lays depth lines texts) (second : Lays depth others more) :
    Lays depth (lines ++ others) (texts ++ more) where
  balanced := first.balanced.append second.balanced
  tidy := List.forall_mem_append.mpr ⟨first.tidy, second.tidy⟩
  wholes_eq := by rw [wholes_append, first.wholes_eq, second.wholes_eq]

theorem blank (depth : Nat) : Lays depth [blank] [] where
  balanced := .blank depth
  tidy := List.forall_mem_singleton.mpr ⟨by decide, by decide⟩
  wholes_eq := by decide

/-- A whole statement. -/
theorem whole (plain : Line.IsPlain text) (ends : text.toList.getLast? = some ';') :
    Lays depth [⟨depth, text⟩] [text] where
  balanced := .inner plain.1 plain.2 (by simp [ends])
  tidy := List.forall_mem_singleton.mpr plain.1
  wholes_eq := List.filter_cons_of_pos (by simpa using ends)

/-- The line between the branches of a conditional. -/
theorem otherwise (depth : Nat) :
    Lays (depth + 1) [⟨depth, closing ++ " else" ++ opening⟩] [] where
  balanced := .otherwise depth
  tidy := List.forall_mem_singleton.mpr Line.isTidy_otherwise
  wholes_eq := wholes_cons_of_ne (by dsimp only; decide) []

/-- The head of a block, its body and the brace behind it. -/
theorem block (plain : Line.IsPlain text) (ends : text.toList.getLast? = some '{')
    (inside : Lays (depth + 1) lines texts) :
    Lays depth (⟨depth, text⟩ :: lines ++ [⟨depth, closing⟩]) texts where
  balanced := .block plain.1 plain.2 ends inside.balanced
  tidy := by
    refine List.forall_mem_append.mpr ⟨List.forall_mem_cons.mpr ⟨plain.1, inside.tidy⟩, ?_⟩
    exact List.forall_mem_singleton.mpr Line.isTidy_closing
  wholes_eq := by
    have brace : wholes [⟨depth, closing⟩] = [] := wholes_cons_of_ne (by dsimp only; decide) []
    rw [List.cons_append, wholes_cons_of_ne (by simp [ends]), wholes_append, brace,
      List.append_nil, inside.wholes_eq]

end Lays

/-! ## Lines from a text -/

/-- Every line is followed by a line end, so behind the last one there is an empty line. -/
theorem toList_join_render (lines : List Line) :
    (String.join (lines.map Line.render)).toList =
      ['\n'].intercalate (lines.map Line.chars ++ [[]]) := by
  rw [String.toList_join]
  induction lines with
  | nil => rfl
  | cons line lines ih =>
    rw [List.map_cons, List.flatMap_cons, Line.toList_render, ih, List.map_cons, List.cons_append]
    cases lines <;> simp [Line.chars, List.intercalate_cons_cons]

theorem splitOn_join_render {lines : List Line} (tidy : ∀ line ∈ lines, Line.IsTidy line.text) :
    (String.join (lines.map Line.render)).toList.splitOn '\n' = lines.map Line.chars ++ [[]] := by
  rw [toList_join_render]
  refine List.splitOn_intercalate '\n' ?_ (by simp)
  refine List.forall_mem_append.mpr ⟨?_, by simp⟩
  intro chars listed
  obtain ⟨line, member, rfl⟩ := List.mem_map.mp listed
  exact (tidy line member).newline_not_mem_chars

/-- The lines that end in a semicolon, without their indentation. -/
def clauseLines (lines : List (List Char)) : List (List Char) :=
  (lines.filter (·.getLast? = some ';')).map (·.dropWhile (· == ' '))

theorem clauseLines_chars {lines : List Line} (tidy : ∀ line ∈ lines, Line.IsTidy line.text) :
    clauseLines (lines.map Line.chars ++ [[]]) = (wholes lines).map String.toList := by
  induction lines with
  | nil => rfl
  | cons line lines ih =>
    obtain ⟨here, others⟩ := List.forall_mem_cons.mp tidy
    have rest := ih others
    unfold clauseLines at rest ⊢
    by_cases ends : line.text.toList.getLast? = some ';'
    · have written : line.chars.getLast? = some ';' := (Line.getLast?_chars (by decide)).mpr ends
      rw [List.map_cons, List.cons_append, List.filter_cons_of_pos (by simpa using written),
        List.map_cons, here.dropWhile_chars, rest, wholes, wholes, List.map_cons,
        List.filter_cons_of_pos (by simpa using ends), List.map_cons]
    · have unfinished : line.chars.getLast? ≠ some ';' :=
        mt (Line.getLast?_chars (by decide)).mp ends
      rw [List.map_cons, List.cons_append, List.filter_cons_of_neg (by simpa using unfinished),
        rest, wholes_cons_of_ne ends]

end Java

open Java

/-! ## Clauses -/

namespace Statement

/-- A declaration, an assignment, a call or a `RETURN`. -/
def IsClause : Statement → Prop
  | .declaration _ | .assignment _ _ | .result _ => True
  | .expression value => value.isCall = true
  | _ => False

mutual

/-- The statements in a statement that hold no others, in order. -/
def clauses : Statement → List Statement
  | .conditional _ thenBody elseBody => clausesAll thenBody ++ clausesAll elseBody
  | .forEach _ _ body | .loop _ body => clausesAll body
  | .expression value => [.expression value]
  | .declaration decl => [.declaration decl]
  | .assignment target value => [.assignment target value]
  | .result value => [.result value]

def clausesAll : List Statement → List Statement
  | [] => []
  | s :: ss => s.clauses ++ clausesAll ss

end

/-- Wherever it stands, the clause is written as the text, on a line of its own. -/
def IsLine (clause : Statement) (text : String) : Prop :=
  clause.IsClause ∧ ∀ depth, clause.toJava depth = .ok [⟨depth, text⟩]

/-- What the statements `parts` of a program are written as. -/
def Lays (depth : Nat) (parts : List Statement) (lines : List Line) : Prop :=
  ∃ texts, Java.Lays depth lines texts ∧ List.Forall₂ IsLine parts texts

variable {depth : Nat} {parts others : List Statement} {lines more : List Line} {text : String}

theorem Lays.append (first : Lays depth parts lines) (second : Lays depth others more) :
    Lays depth (parts ++ others) (lines ++ more) := by
  obtain ⟨texts, laid, written⟩ := first
  obtain ⟨texts', laid', written'⟩ := second
  exact ⟨texts ++ texts', laid.append laid', List.rel_append written written'⟩

theorem Lays.nil (depth : Nat) : Lays depth [] [] :=
  ⟨[], .nil depth, .nil⟩

theorem Lays.block (plain : Line.IsPlain text) (ends : text.toList.getLast? = some '{')
    (inside : Lays (depth + 1) parts lines) :
    Lays depth parts (⟨depth, text⟩ :: lines ++ [⟨depth, closing⟩]) := by
  obtain ⟨texts, laid, written⟩ := inside
  exact ⟨texts, .block plain ends laid, written⟩

theorem Lays.otherwise (inside : Lays (depth + 1) parts lines) :
    Lays (depth + 1) parts (⟨depth, closing ++ " else" ++ opening⟩ :: lines) := by
  obtain ⟨texts, laid, written⟩ := inside
  exact ⟨texts, (Java.Lays.otherwise depth).append laid, written⟩

/-- A clause on its line. -/
theorem IsLine.lays {clause : Statement} (isLine : clause.IsLine text)
    (plain : Line.IsPlain text) (ends : text.toList.getLast? = some ';') (depth : Nat) :
    clause.toJava depth = .ok [⟨depth, text⟩] ∧ Lays depth [clause] [⟨depth, text⟩] :=
  ⟨isLine.2 depth, [text], .whole plain ends, .cons isLine .nil⟩

end Statement

/-! ## Statements -/

theorem Expression.newline_not_mem_text {e : Expression}
    (settled : e.Everywhere Rules.settled.expression) : '\n' ∉ e.tree.text.toList :=
  (Tree.isPiece_text e.tree (e.lexical_tree settled)).2

/-- A declaration is written on one line. -/
theorem Declaration.isLine {decl : Declaration} (settled : decl.Everywhere .settled) :
    ∃ text, (Statement.declaration decl).IsLine text ∧ Line.IsPlain text ∧
      text.toList.getLast? = some ';' ∧ ∀ depth, decl.toJava depth = .ok ⟨depth, text⟩ := by
  obtain ⟨⟨isIdentifier, type, primitive, bound⟩, valueSettled⟩ := settled
  have oneLine : '\n' ∉ decl.name.toList := isIdentifier.isName.isSolid.not_mem (by decide)
  have isType := primitive.isSolid.1
  obtain ⟨name, typeName, value, span, binding⟩ := decl
  obtain rfl : binding = some ⟨name, name, type⟩ := bound
  -- The text behind the name is the only part that depends on there being a value.
  suffices tail : ∃ tail : String, '\n' ∉ tail.toList ∧ ∀ depth,
      Declaration.toJava depth ⟨name, typeName, value, span, some ⟨name, name, type⟩⟩ =
        .ok ⟨depth, type.javaName ++ " " ++ name ++ tail ++ ";"⟩ by
    obtain ⟨tail, plainTail, written⟩ := tail
    refine ⟨_, ⟨trivial, fun depth => ?_⟩, ?_, ?_, written⟩
    · rw [Statement.toJava, written]
      rfl
    · refine isType.isPlain (' ' :: (name.toList ++ tail.toList ++ [';'])) (by simp) ?_
      simpa [plainTail] using oneLine
    · exact getLast?_semicolon _
  cases value with
  | none => exact ⟨"", by simp, fun _ => rfl⟩
  | some value =>
    have settled := valueSettled value rfl
    refine ⟨" = " ++ value.tree.text, ?_, fun depth => ?_⟩
    · simp [Expression.newline_not_mem_text settled]
    · simp only [Declaration.toJava, value.toJava_eq_text settled]
      rfl

namespace Statement

mutual

/-- The lines of a statement are balanced, and its clauses are those that end in a semicolon. -/
theorem lays_toJava (depth : Nat) : (s : Statement) → s.Everywhere .settled →
    ∃ lines, s.toJava depth = .ok lines ∧ Lays depth s.clauses lines
  | .expression value, ⟨isCall, settled⟩ => by
    obtain ⟨name, tail, isSolid, spelled⟩ := Expression.text_of_isCall settled isCall
    have oneLine := Expression.newline_not_mem_text settled
    have isLine : IsLine (.expression value) (value.tree.text ++ ";") := by
      refine ⟨isCall, fun depth => ?_⟩
      rw [toJava, value.toJava_eq_text settled]
      rfl
    rw [spelled] at oneLine isLine
    refine ⟨_, isLine.lays ?_ (getLast?_semicolon _) depth⟩
    refine isSolid.isPlain ('(' :: tail.toList ++ [';']) (by simp) ?_
    simp only [String.toList_append, List.mem_append, not_or] at oneLine
    simp [oneLine.2]
  | .declaration decl, ⟨_, settled⟩ => by
    obtain ⟨text, isLine, plain, ends, -⟩ := Declaration.isLine settled
    exact ⟨_, isLine.lays plain ends depth⟩
  | .assignment target value, ⟨isAccess, targetSettled, settled⟩ => by
    obtain ⟨name, isSolid, spelled, -⟩ := Expression.text_of_isAccess targetSettled isAccess
    have oneLine := Expression.newline_not_mem_text settled
    have isLine : IsLine (.assignment target value) (name ++ " = " ++ value.tree.text ++ ";") := by
      refine ⟨trivial, fun depth => ?_⟩
      rw [toJava, target.toJava_eq_text targetSettled, value.toJava_eq_text settled, spelled]
      rfl
    refine ⟨_, isLine.lays ?_ (getLast?_semicolon _) depth⟩
    exact isSolid.isPlain (" = ".toList ++ value.tree.text.toList ++ [';']) (by simp)
      (by simp [oneLine])
  | .conditional condition thenBody elseBody, ⟨_, settled, thenSettled, elseSettled⟩ => by
    have oneLine := Expression.newline_not_mem_text settled
    obtain ⟨thenLines, thenWritten, thenLaid⟩ := lays_allToJava (depth + 1) thenBody thenSettled
    obtain ⟨elseLines, elseWritten, elseLaid⟩ := lays_allToJava (depth + 1) elseBody elseSettled
    -- Without an `ELSE` branch the block goes on with no lines at all.
    let otherwise : List Line :=
      if elseBody.isEmpty then [] else ⟨depth, closing ++ " else" ++ opening⟩ :: elseLines
    have laid : Lays (depth + 1) (clausesAll elseBody) otherwise := by
      cases elseBody with
      | nil => exact .nil (depth + 1)
      | cons => exact elseLaid.otherwise
    have keyword : IsSolid "if".toList := ⟨by decide, by simp⟩
    have block := (thenLaid.append laid).block (keyword.isPlain_head oneLine) (getLast?_opening _)
    refine ⟨_, ?_, block⟩
    rw [toJava, condition.toJava_eq_text settled, thenWritten, elseWritten]
    rfl
  | .forEach name range body, ⟨isIdentifier, settled, bodySettled⟩ => by
    have oneLine := Expression.newline_not_mem_text settled
    have named : '\n' ∉ name.toList := isIdentifier.isName.isSolid.not_mem (by decide)
    obtain ⟨lines, written, laid⟩ := lays_allToJava (depth + 1) body bodySettled
    have inside : '\n' ∉ ("int " ++ name ++ " : " ++ range.tree.text).toList := by
      simp [oneLine, named]
    have keyword : IsSolid "for".toList := ⟨by decide, by simp⟩
    have spelled : "for" ++ " (" ++ ("int " ++ name ++ " : " ++ range.tree.text) ++ ")" ++ opening =
        "for (int " ++ name ++ " : " ++ range.tree.text ++ ")" ++ opening := by
      rw [← String.toList_inj]
      simp
    have block := laid.block (keyword.isPlain_head inside) (getLast?_opening _)
    rw [spelled] at block
    refine ⟨_, ?_, block⟩
    rw [toJava, range.toJava_eq_text settled, written]
    rfl
  | .loop condition body, ⟨_, settled, bodySettled⟩ => by
    have oneLine := Expression.newline_not_mem_text settled
    obtain ⟨lines, written, laid⟩ := lays_allToJava (depth + 1) body bodySettled
    have keyword : IsSolid "while".toList := ⟨by decide, by simp⟩
    have block := laid.block (keyword.isPlain_head oneLine) (getLast?_opening _)
    refine ⟨_, ?_, block⟩
    rw [toJava, condition.toJava_eq_text settled, written]
    rfl
  | .result value, ⟨_, settled⟩ => by
    have oneLine := Expression.newline_not_mem_text settled
    have isLine : IsLine (.result value) ("return " ++ value.tree.text ++ ";") := by
      refine ⟨trivial, fun depth => ?_⟩
      rw [toJava, value.toJava_eq_text settled]
      rfl
    refine ⟨_, isLine.lays ?_ (getLast?_semicolon _) depth⟩
    have keyword : IsSolid "return".toList := ⟨by decide, by simp⟩
    exact keyword.isPlain (' ' :: value.tree.text.toList ++ [';']) (by simp) (by simp [oneLine])

theorem lays_allToJava (depth : Nat) : (ss : List Statement) →
    EverywhereAll .settled ss →
    ∃ lines, allToJava depth ss = .ok lines ∧ Lays depth (clausesAll ss) lines
  | [], _ => ⟨[], rfl, .nil depth⟩
  | s :: ss, ⟨settled, othersSettled⟩ => by
    obtain ⟨first, written, laid⟩ := lays_toJava depth s settled
    obtain ⟨others, othersWritten, othersLaid⟩ := lays_allToJava depth ss othersSettled
    refine ⟨first ++ others, ?_, laid.append othersLaid⟩
    rw [allToJava, written, othersWritten]
    rfl

end

end Statement

/-! ## Methods and programs -/

/-- The lines of several pieces one after the other. -/
theorem Statement.Lays.flatMap {β : Type} {depth : Nat} {pieces : List β}
    {linesOf : β → List Line} {parts : List (List Statement)}
    (laid : List.Forall₂ (fun piece part => Lays depth part (linesOf piece)) pieces parts) :
    Lays depth parts.flatten (pieces.flatMap linesOf) := by
  induction laid with
  | nil => exact .nil depth
  | cons first _ ih =>
    rw [List.flatten_cons, List.flatMap_cons]
    exact first.append ih

theorem Statement.Lays.blank (depth : Nat) : Lays depth [] [blank] :=
  ⟨[], .blank depth, .nil⟩

theorem Method.lays_toJava {method : Method} (settled : method.Everywhere .settled) :
    ∃ lines, method.toJava = .ok lines ∧
      Statement.Lays 1 (Statement.clausesAll method.body) lines := by
  obtain ⟨⟨isIdentifier, parametersNamed, signature, bound, sameName, -, primitives, returns⟩,
    bodySettled⟩ := settled
  obtain ⟨lines, written, laid⟩ := Statement.lays_allToJava 2 method.body bodySettled
  have listed := Line.newline_not_mem_parameters
    (Method.isSolid_parameters parametersNamed primitives)
  have named : '\n' ∉ method.name.toList := isIdentifier.isName.isSolid.not_mem (by decide)
  have plain : ∀ list : String, '\n' ∉ list.toList → Line.IsPlain
      (signature.returns.javaName ++ " " ++ method.name ++ "(" ++ list ++ ")" ++ opening) := by
    intro list listed
    refine returns.isSolid.1.isPlain
      (' ' :: (method.name.toList ++ '(' :: (list.toList ++ [')', ' ', '{']))) ?_ ?_
    · simp [opening]
    · simp [named, listed]
  refine ⟨_, ?_, laid.block (plain _ listed) (getLast?_opening _)⟩
  rw [Method.toJava, bound, written, List.map_map, ← sameName]
  rfl

/-- What stands in every program: the call of the program's own `main`. -/
def Java.exitText : String :=
  "System.exit(new Main().main());"

theorem Java.lays_entry : Lays 1 entry [exitText] := by
  have head : Line.IsPlain ("public static void main(String[] args)" ++ opening) :=
    ⟨⟨by decide, by decide⟩, by decide⟩
  have exit : Lays 2 [⟨2, exitText⟩] [exitText] :=
    .whole ⟨⟨by decide, by decide⟩, by decide⟩ (by decide)
  exact .block head (getLast?_opening _) exit

/-- The lines of a program: the clauses of the fields, the call of `main`, and the clauses of the
methods. -/
theorem Program.lays_javaLines {program : Program} (settled : program.Everywhere .settled) :
    ∃ lines fieldTexts bodyTexts, program.javaLines = .ok lines ∧
      Lays 0 lines (fieldTexts ++ exitText :: bodyTexts) ∧
      List.Forall₂ Statement.IsLine (program.fields.map .declaration) fieldTexts ∧
      List.Forall₂ Statement.IsLine
        (program.methods.flatMap fun method => Statement.clausesAll method.body) bodyTexts := by
  have eachField : ∀ field ∈ program.fields, ∃ line, field.toJava 1 = .ok line ∧
      Statement.Lays 1 [.declaration field] [line] := by
    intro field member
    obtain ⟨text, isLine, plain, ends, written⟩ := Declaration.isLine (settled.1 field member)
    exact ⟨_, written 1, (isLine.lays plain ends 1).2⟩
  have eachMethod : ∀ method ∈ program.methods, ∃ lines, method.toJava = .ok lines ∧
      Statement.Lays 1 (Statement.clausesAll method.body) (lines ++ [blank]) := by
    intro method member
    obtain ⟨lines, written, laid⟩ := Method.lays_toJava (settled.2 method member)
    have extended := laid.append (.blank 1)
    rw [List.append_nil] at extended
    exact ⟨lines, written, extended⟩
  obtain ⟨fields, fieldsWritten, fieldsLaid⟩ := exists_mapM (g := fun field => [.declaration field])
    (R := fun line parts => Statement.Lays 1 parts [line]) eachField
  obtain ⟨methods, methodsWritten, methodsLaid⟩ := exists_mapM
    (g := fun method : Method => Statement.clausesAll method.body)
    (R := fun lines parts => Statement.Lays 1 parts (lines ++ [blank])) eachMethod
  obtain ⟨fieldTexts, laidFields, isFields⟩ := Statement.Lays.flatMap fieldsLaid
  obtain ⟨bodyTexts, laidMethods, isBodies⟩ := Statement.Lays.flatMap methodsLaid
  rw [List.flatMap_singleton'] at laidFields
  rw [← List.flatMap_def, ← List.map_eq_flatMap] at isFields
  rw [← List.flatMap_def] at isBodies
  have afterFields : Lays 1 (if program.fields.isEmpty then [] else [blank]) [] := by
    split
    · exact .nil 1
    · exact .blank 1
  have body := ((((Lays.blank 1).append laidFields).append afterFields).append lays_entry).append
    (.blank 1) |>.append laidMethods
  have head : Line.IsPlain ("public class Main" ++ opening) :=
    ⟨⟨by decide, by decide⟩, by decide⟩
  have laid := Lays.block head (getLast?_opening _) body
  have texts : [] ++ fieldTexts ++ [] ++ [exitText] ++ [] ++ bodyTexts =
      fieldTexts ++ exitText :: bodyTexts := by
    simp
  rw [texts] at laid
  refine ⟨_, fieldTexts, bodyTexts, ?_, laid, isFields, isBodies⟩
  rw [Program.javaLines, fieldsWritten, methodsWritten]
  rfl

/-- The Java text of every source that compiles is indented by its braces alone.  Its lines that end
in a semicolon are, in order, the fields, the call of `main`, and every declaration, assignment,
call and `RETURN` of the methods, each on one line of its own. -/
theorem Environment.wellIndented_of_compile {source text : String}
    (compiled : Environment.standard.compile source = .ok text) :
    WellIndented 0 (text.toList.splitOn '\n') ∧
    ∃ program fieldTexts bodyTexts, Environment.standard.load source = .ok program ∧
      List.Forall₂ Statement.IsLine (program.fields.map .declaration) fieldTexts ∧
      List.Forall₂ Statement.IsLine
        (program.methods.flatMap fun method => Statement.clausesAll method.body) bodyTexts ∧
      clauseLines (text.toList.splitOn '\n') =
        (fieldTexts ++ exitText :: bodyTexts).map String.toList := by
  obtain ⟨program, loaded, written⟩ := Environment.compile_eq_ok.mp compiled
  obtain ⟨lines, fieldTexts, bodyTexts, lined, laid, isFields, isBodies⟩ :=
    Program.lays_javaLines (Environment.settled_of_load loaded)
  rw [Program.toJava, lined] at written
  obtain rfl : String.join (lines.map Line.render) = text := Except.ok.inj written
  rw [splitOn_join_render laid.tidy]
  refine ⟨laid.balanced _ ?_, program, fieldTexts, bodyTexts, loaded, isFields, isBodies, ?_⟩
  · -- Behind the last line end there is one empty line more.
    exact ⟨le_refl 0, .inl rfl, rfl⟩
  · rw [clauseLines_chars laid.tidy, laid.wholes_eq]

/-- A program whose constants hold braces, semicolons, quotes and line ends. -/
def bracesInConstants : String :=
  "LET f = \"\x7b\"; DEF main(): Integer DO IF TRUE DO print(\"\x7d\\n;\"); ELSE " ++
  "WHILE FALSE DO f = \"\\\"\x7b\"; END END RETURN 0; END"

/-- The program in Java. -/
def bracesInConstantsJava : String :=
  "public class Main \x7b

    String f = \"\x7b\";

    public static void main(String[] args) \x7b
        System.exit(new Main().main());
    \x7d

    int main() \x7b
        if (true) \x7b
            System.out.println(\"\x7d\\n;\");
        \x7d else \x7b
            while (false) \x7b
                f = \"\\\"\x7b\";
            \x7d
        \x7d
        return 0;
    \x7d

\x7d
"

set_option maxRecDepth 10000 in
theorem Environment.wellIndented_of_compile_bracesInConstants :
    Environment.standard.compile bracesInConstants = .ok bracesInConstantsJava ∧
      WellIndented 0 (bracesInConstantsJava.toList.splitOn '\n') ∧
      ∃ program fieldTexts bodyTexts,
        Environment.standard.load bracesInConstants = .ok program ∧
        List.Forall₂ Statement.IsLine (program.fields.map .declaration) fieldTexts ∧
        List.Forall₂ Statement.IsLine
          (program.methods.flatMap fun method => Statement.clausesAll method.body) bodyTexts ∧
        clauseLines (bracesInConstantsJava.toList.splitOn '\n') =
          (fieldTexts ++ exitText :: bodyTexts).map String.toList := by
  have compiled : Environment.standard.compile bracesInConstants = .ok bracesInConstantsJava := by
    have characters : bracesInConstants = String.ofList (_ ++ _) := String.ofList_append.symm
    have encoded : Java.bytes bracesInConstantsJava = _ := Java.bytes_ofList _
    rw [Environment.compile_eq_ok, characters, Environment.load_ofList]
    simp only [Program.toJava_eq_ok_iff, encoded]
    decide +kernel
  exact ⟨compiled, Environment.wellIndented_of_compile compiled⟩

end Primer
