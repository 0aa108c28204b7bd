import Mathlib.Data.List.DropRight
import Mathlib.Data.List.Forall2
import Primer.Proofs.Java.Recovery

/-!
# Lines of Java text

Each line of a program says one thing: a whole statement, the head of a block or its end.  The first
word of a line and its last character tell what it is, although a name may be any word of Java.

`Sentence.read` reads a line.  `Line.Says` is what has to be known about a line to read it back from
the text of a program, in which it is indented and followed by others: from that text the lines are
read one by one (`eq_of_join_render`).
-/

namespace Primer

namespace Java

/-- What a line says.  Expressions and declarations are bare. -/
inductive Sentence where
  | perform (call : Expression)
  | declare (declaration : Declaration)
  | assign (target value : Expression)
  | result (value : Expression)
  | test (condition : Expression)
  | otherwise
  | each (name : String) (range : Expression)
  | repeated (condition : Expression)
  | head (name : String) (parameters : List String)
  | close
  | other

/-- A declaration that is bare. -/
def bareDeclaration (name : String) (value : Option Expression) : Declaration where
  name := name
  typeName := none
  value := value
  span := ⟨0, 0⟩

namespace Sentence

/-! ## Reading a line -/

/-- The names in a list of parameters, each behind its type. -/
def parameterNames (cs : List Char) : List String :=
  if cs = [] then []
  else (cs.splitOn ',').map fun parameter => String.ofList (parameter.rtakeWhile (· != ' '))

/-- The head of a block, of which `first` is the first word. -/
def opened? (first rest : List Char) : Option Sentence :=
  let inside := (rest.drop 2).rdrop 3
  if first = "if".toList then
    (expression? (String.ofList inside)).map .test
  else if first = "while".toList then
    (expression? (String.ofList inside)).map .repeated
  else if first = "for".toList then
    let name := (inside.drop 4).takeWhile (· != ' ')
    (expression? (String.ofList (inside.drop (name.length + 7)))).map (.each (String.ofList name))
  else
    let name := (rest.drop 1).takeWhile (· != '(')
    some (.head (String.ofList name) (parameterNames ((rest.drop (name.length + 2)).rdrop 3)))

/-- The declaration of a name, with what stands behind the name. -/
def declared? (name : String) : (value : List Char) → Option Sentence
  | [] => some (.declare (bareDeclaration name none))
  | value => (expression? (String.ofList (value.drop 3))).map fun value =>
      .declare (bareDeclaration name (some value))

/-- A whole statement without its semicolon, of which `first` is the first word. -/
def whole? (first : List Char) : (rest : List Char) → Option Sentence
  | '(' :: rest => (expression? (String.ofList (first ++ '(' :: rest))).map .perform
  | ' ' :: '=' :: rest =>
    (expression? (String.ofList (rest.drop 1))).map
      (.assign (.access .bare (String.ofList first) none))
  | ' ' :: rest =>
    if first = "return".toList then
      (expression? (String.ofList rest)).map .result
    else
      let name := rest.takeWhile (· != ' ')
      declared? (String.ofList name) (rest.drop name.length)
  | _ => none

/-- What a line says, if it is not one of those that every program has. -/
def read? (cs : List Char) : Option Sentence :=
  match cs with
  | ['}'] => some .close
  | '}' :: _ => some .otherwise
  | cs =>
    let first := cs.takeWhile fun c => c != ' ' && c != '('
    let rest := cs.drop first.length
    if rest.getLast? = some '{' then opened? first rest else whole? first rest.dropLast

/-- What a line says. -/
def read (cs : List Char) : Sentence :=
  (read? cs).getD .other

end Sentence

/-! ## Words -/

/-- A word in which a line cannot be cut. -/
def IsSolid (text : List Char) : Prop :=
  text ≠ [] ∧ ∀ c ∈ text, c ∉ [' ', '(', ',', '=', '}', '\n']

theorem IsSolid.not_mem {text : List Char} (isSolid : IsSolid text) {c : Char}
    (separates : c ∈ [' ', '(', ',', '=', '}', '\n']) : c ∉ text :=
  fun member => isSolid.2 c member separates

theorem IsSolid.head?_ne {text : List Char} (isSolid : IsSolid text) {c : Char}
    (separates : c ∈ [' ', '(', ',', '=', '}', '\n']) (rest : List Char) :
    (text ++ rest).head? ≠ some c := by
  rcases List.exists_cons_of_ne_nil isSolid.1 with ⟨d, cs, rfl⟩
  rintro ⟨⟩
  exact isSolid.not_mem separates List.mem_cons_self

/-- A text is cut where `c` first occurs. -/
theorem takeWhile_append_of_not_mem {c : Char} {front back : List Char} (outside : c ∉ front)
    (cut : ∀ d ∈ back.head?, d = c) : (front ++ back).takeWhile (· != c) = front := by
  refine takeWhile_append_of_head ?_ ?_
  · intro d member
    rw [bne_iff_ne]
    rintro rfl
    exact outside member
  · intro d head
    rw [cut d head]
    exact bne_self_eq_false c

theorem IsJavaName.isSolid {text : List Char} (isName : IsJavaName Dialect.primer.namePart text) :
    IsSolid text := by
  rcases isName with ⟨c, cs, rfl, first, parts⟩
  refine ⟨List.cons_ne_nil _ _, ?_⟩
  intro d member separates
  have part : Dialect.primer.namePart d = true ∨ Lexeme.isIdentifierStart d = true := by
    rcases List.mem_cons.mp member with rfl | member
    · exact .inr first
    · exact .inl (parts d member)
  have none : ∀ d ∈ [' ', '(', ',', '=', '}', '\n'],
      ¬ (Dialect.primer.namePart d = true ∨ Lexeme.isIdentifierStart d = true) :=
    List.forall_iff_forall_mem.mp (by decide)
  exact none d separates part

end Java

open Java

theorem Ty.IsPrimitive.isSolid {type : Ty} (primitive : type.IsPrimitive) :
    IsSolid type.javaName.toList ∧
      type.javaName.toList ∉ ["if".toList, "while".toList, "for".toList, "return".toList] := by
  cases type
  case nominal => exact absurd primitive id
  all_goals exact ⟨⟨by decide, by simp [Ty.javaName]⟩, by decide⟩

namespace Java

/-! ## Lines -/

/-- A text on one line that is read as `e`. -/
structure Denotes (text : String) (e : Expression) : Prop where
  reads : expression? text = some e
  oneLine : '\n' ∉ text.toList
  starts : text.toList.head? ≠ some '='

/-- A line that can be told from the lines around it and from its own indentation, and that is read
as `sentence`. -/
structure Line.Says (line : Line) (sentence : Sentence) : Prop where
  oneLine : '\n' ∉ line.text.toList
  flush : line.text.toList.head? ≠ some ' '
  reads : Sentence.read line.text.toList = sentence

theorem Sentence.read?_append {first rest : List Char} (isSolid : IsSolid first)
    (cut : rest.head? = some ' ' ∨ rest.head? = some '(') :
    read? (first ++ rest) = if rest.getLast? = some '{' then opened? first rest
      else whole? first rest.dropLast := by
  have notBrace : ∀ tail, first ++ rest ≠ '}' :: tail := by
    intro tail same
    exact isSolid.head?_ne (by decide) rest (congrArg List.head? same)
  have inside : ∀ c ∈ first, (c != ' ' && c != '(') = true := by
    intro c member
    have separates := isSolid.2 c member
    simp only [List.mem_cons, not_or] at separates
    simp [separates]
  have stops : ∀ c ∈ rest.head?, (c != ' ' && c != '(') = false := by
    intro c head
    rcases cut with cut | cut
    · obtain rfl := Option.some.inj (cut.symm.trans head)
      rfl
    · obtain rfl := Option.some.inj (cut.symm.trans head)
      rfl
  unfold read?
  split
  · rename_i same
    exact absurd same (notBrace [])
  · rename_i same
    exact absurd same (notBrace _)
  · dsimp only
    rw [takeWhile_append_of_head inside stops, List.drop_left]

theorem head?_append_of_head {front back : List Char} {c : Char} (head : front.head? = some c) :
    (front ++ back).head? = some c := by
  rw [List.head?_append, head]
  rfl

namespace Line

variable (depth : Nat) {text : String} {first rest : List Char} {sentence : Sentence}

theorem says_of_append (spelled : text.toList = first ++ rest) (isSolid : IsSolid first)
    (cut : rest.head? = some ' ' ∨ rest.head? = some '(') (oneLine : '\n' ∉ rest)
    (reads : (if rest.getLast? = some '{' then Sentence.opened? first rest
      else Sentence.whole? first rest.dropLast) = some sentence) :
    Says ⟨depth, text⟩ sentence := by
  refine ⟨?_, ?_, ?_⟩
  · show '\n' ∉ text.toList
    rw [spelled, List.mem_append, not_or]
    exact ⟨isSolid.not_mem (by decide), oneLine⟩
  · show text.toList.head? ≠ some ' '
    rw [spelled]
    exact isSolid.head?_ne (by decide) rest
  · show Sentence.read text.toList = sentence
    rw [spelled, Sentence.read, Sentence.read?_append isSolid cut, reads]
    rfl

/-- The head of a block. -/
theorem says_opened (spelled : text.toList = first ++ (rest ++ [')', ' ', '{']))
    (isSolid : IsSolid first) (cut : rest.head? = some ' ') (oneLine : '\n' ∉ rest)
    (reads : Sentence.opened? first (rest ++ [')', ' ', '{']) = some sentence) :
    Says ⟨depth, text⟩ sentence := by
  refine says_of_append depth spelled isSolid (.inl (head?_append_of_head cut)) ?_ ?_
  · simp [oneLine]
  · rw [if_pos (by simp)]
    exact reads

/-- A whole statement. -/
theorem says_whole (spelled : text.toList = first ++ (rest ++ [';'])) (isSolid : IsSolid first)
    (cut : rest.head? = some ' ' ∨ rest.head? = some '(') (oneLine : '\n' ∉ rest)
    (reads : Sentence.whole? first rest = some sentence) : Says ⟨depth, text⟩ sentence := by
  refine says_of_append depth spelled isSolid ?_ ?_ ?_
  · exact cut.imp head?_append_of_head head?_append_of_head
  · simp [oneLine]
  · rw [if_neg (by simp), List.dropLast_concat]
    exact reads

/-! ### Heads of blocks -/

variable {e : Expression}

theorem drop_rdrop (x : List Char) : ((' ' :: '(' :: x ++ [')', ' ', '{']).drop 2).rdrop 3 = x := by
  simp [List.rdrop]

theorem says_test (denotes : Denotes text e) :
    Says ⟨depth, "if (" ++ text ++ ")" ++ opening⟩ (.test e) := by
  have spelled : ("if (" ++ text ++ ")" ++ opening).toList =
      "if".toList ++ (' ' :: '(' :: text.toList ++ [')', ' ', '{']) := by
    simp [opening]
  refine says_opened depth spelled ⟨by decide, by simp⟩ rfl (by simp [denotes.oneLine]) ?_
  rw [Sentence.opened?, drop_rdrop, if_pos rfl, String.ofList_toList, denotes.reads]
  rfl

theorem says_repeated (denotes : Denotes text e) :
    Says ⟨depth, "while (" ++ text ++ ")" ++ opening⟩ (.repeated e) := by
  have spelled : ("while (" ++ text ++ ")" ++ opening).toList =
      "while".toList ++ (' ' :: '(' :: text.toList ++ [')', ' ', '{']) := by
    simp [opening]
  refine says_opened depth spelled ⟨by decide, by simp⟩ rfl (by simp [denotes.oneLine]) ?_
  rw [Sentence.opened?, drop_rdrop, if_neg (by decide), if_pos rfl, String.ofList_toList,
    denotes.reads]
  rfl

theorem says_each {name : String} (isSolid : IsSolid name.toList) (denotes : Denotes text e) :
    Says ⟨depth, "for (int " ++ name ++ " : " ++ text ++ ")" ++ opening⟩ (.each name e) := by
  let inside := "int ".toList ++ (name.toList ++ ' ' :: ':' :: ' ' :: text.toList)
  have spelled : ("for (int " ++ name ++ " : " ++ text ++ ")" ++ opening).toList =
      "for".toList ++ (' ' :: '(' :: inside ++ [')', ' ', '{']) := by
    simp [opening, inside]
  have oneLine : '\n' ∉ name.toList := isSolid.not_mem (by decide)
  have named : (inside.drop 4).takeWhile (· != ' ') = name.toList :=
    takeWhile_append_of_not_mem (isSolid.not_mem (by decide)) (by simp)
  have ranged : inside.drop (name.toList.length + 7) = text.toList := by
    have split : inside = "int ".toList ++ name.toList ++ " : ".toList ++ text.toList := by
      simp [inside]
    have length : ("int ".toList ++ name.toList ++ " : ".toList).length =
        name.toList.length + 7 := by
      simp
    rw [split, ← length, List.drop_left]
  refine says_opened depth spelled ⟨by decide, by simp⟩ rfl ?_ ?_
  · simp [inside, denotes.oneLine, oneLine]
  rw [Sentence.opened?, drop_rdrop, if_neg (by decide), if_neg (by decide), if_pos rfl]
  dsimp only
  rw [named, ranged, String.ofList_toList, String.ofList_toList, denotes.reads]
  rfl

/-! ### Whole statements -/

theorem says_perform {name tail : String} (isSolid : IsSolid name.toList)
    (spelled : text = name ++ "(" ++ tail) (denotes : Denotes text e) :
    Says ⟨depth, text ++ ";"⟩ (.perform e) := by
  have letters : (text ++ ";").toList = name.toList ++ ('(' :: tail.toList ++ [';']) := by
    simp [spelled]
  have whole : String.ofList (name.toList ++ '(' :: tail.toList) = text := by
    rw [← String.toList_inj]
    simp [spelled]
  have oneLine : '\n' ∉ '(' :: tail.toList := by
    intro member
    refine denotes.oneLine ?_
    have split : text.toList = name.toList ++ '(' :: tail.toList := by simp [spelled]
    rw [split]
    exact List.mem_append_right _ member
  refine says_whole depth letters isSolid (.inr rfl) oneLine ?_
  rw [Sentence.whole?, whole, denotes.reads]
  rfl

theorem says_assign {name : String} (isSolid : IsSolid name.toList) (denotes : Denotes text e) :
    Says ⟨depth, name ++ " = " ++ text ++ ";"⟩ (.assign (.access .bare name none) e) := by
  have letters : (name ++ " = " ++ text ++ ";").toList =
      name.toList ++ (' ' :: '=' :: ' ' :: text.toList ++ [';']) := by
    simp
  refine says_whole depth letters isSolid (.inl rfl) (by simp [denotes.oneLine]) ?_
  rw [Sentence.whole?, List.drop_succ_cons, List.drop_zero, String.ofList_toList,
    String.ofList_toList, denotes.reads]
  rfl

theorem says_result (denotes : Denotes text e) :
    Says ⟨depth, "return " ++ text ++ ";"⟩ (.result e) := by
  have letters : ("return " ++ text ++ ";").toList =
      "return".toList ++ (' ' :: text.toList ++ [';']) := by
    simp
  refine says_whole depth letters ⟨by decide, by simp⟩ (.inl rfl) (by simp [denotes.oneLine]) ?_
  rw [Sentence.whole?, if_pos rfl, String.ofList_toList, denotes.reads]
  · rfl
  · intro rest same
    exact denotes.starts (same ▸ rfl)

/-- The name in a declaration and what stands behind it. -/
theorem whole?_declaration {type name rest : List Char} (notReturn : type ≠ "return".toList)
    (isSolid : IsSolid name) (cut : ∀ c ∈ rest.head?, c = ' ') :
    Sentence.whole? type (' ' :: (name ++ rest)) =
      Sentence.declared? (String.ofList name) rest := by
  have named : (name ++ rest).takeWhile (· != ' ') = name :=
    takeWhile_append_of_not_mem (isSolid.not_mem (by decide)) cut
  rw [Sentence.whole?, if_neg notReturn]
  · dsimp only
    rw [named, List.drop_left]
  · intro tail same
    exact isSolid.head?_ne (by decide) rest (congrArg List.head? same)

variable {type name : String}

theorem says_declare (isType : IsSolid type.toList) (notReturn : type.toList ≠ "return".toList)
    (isSolid : IsSolid name.toList) :
    Says ⟨depth, type ++ " " ++ name ++ "" ++ ";"⟩ (.declare (bareDeclaration name none)) := by
  have letters : (type ++ " " ++ name ++ "" ++ ";").toList =
      type.toList ++ (' ' :: (name.toList ++ []) ++ [';']) := by
    simp
  have oneLine : '\n' ∉ name.toList := isSolid.not_mem (by decide)
  refine says_whole depth letters isType (.inl rfl) (by simp [oneLine]) ?_
  rw [whole?_declaration notReturn isSolid (by simp), String.ofList_toList]
  rfl

theorem says_declare_value (isType : IsSolid type.toList)
    (notReturn : type.toList ≠ "return".toList) (isSolid : IsSolid name.toList)
    (denotes : Denotes text e) :
    Says ⟨depth, type ++ " " ++ name ++ (" = " ++ text) ++ ";"⟩
      (.declare (bareDeclaration name (some e))) := by
  have letters : (type ++ " " ++ name ++ (" = " ++ text) ++ ";").toList =
      type.toList ++ (' ' :: (name.toList ++ ' ' :: '=' :: ' ' :: text.toList) ++ [';']) := by
    simp
  have oneLine : '\n' ∉ name.toList := isSolid.not_mem (by decide)
  refine says_whole depth letters isType (.inl rfl) (by simp [oneLine, denotes.oneLine]) ?_
  have cut : ∀ c ∈ (' ' :: '=' :: ' ' :: text.toList).head?, c = ' ' := by
    rintro c ⟨⟩
    rfl
  rw [whole?_declaration notReturn isSolid cut, String.ofList_toList, Sentence.declared?]
  · rw [List.drop_succ_cons, List.drop_succ_cons, List.drop_succ_cons, List.drop_zero,
      String.ofList_toList, denotes.reads]
    rfl
  · simp

/-! ### Heads of methods -/

theorem not_mem_intercalate {c : Char} {separator : List Char} {words : List (List Char)}
    (outside : c ∉ separator) (inside : ∀ word ∈ words, c ∉ word) :
    c ∉ separator.intercalate words := by
  induction words with
  | nil => simp
  | cons word words ih =>
    have first := inside word List.mem_cons_self
    have others := ih fun other member => inside other (.tail _ member)
    cases words with
    | nil => simpa using first
    | cons next words =>
      rw [List.intercalate_cons_cons]
      simp only [List.mem_append, not_or]
      exact ⟨⟨first, outside⟩, others⟩

theorem intercalate_cons_append (c : Char) (word : List Char) (words : List (List Char)) :
    [','].intercalate ((c :: word) :: words) = c :: [','].intercalate (word :: words) := by
  cases words with
  | nil => simp
  | cons next words => rw [List.intercalate_cons_cons, List.intercalate_cons_cons]; rfl

/-- A blank behind a comma can be counted to what follows. -/
theorem intercalate_comma_blank (word : List Char) (words : List (List Char)) :
    ", ".toList.intercalate (word :: words) =
      [','].intercalate (word :: words.map (' ' :: ·)) := by
  induction words generalizing word with
  | nil => simp
  | cons next words ih =>
    rw [List.map_cons, List.intercalate_cons_cons, List.intercalate_cons_cons, ih,
      intercalate_cons_append]
    simp

theorem rtakeWhile_solid {word : List Char} (isSolid : IsSolid word) (front : List Char) :
    (front ++ ' ' :: word).rtakeWhile (· != ' ') = word := by
  have inside : ' ' ∉ word.reverse := by
    rw [List.mem_reverse]
    exact isSolid.not_mem (by decide)
  have turned : (front ++ ' ' :: word).reverse = word.reverse ++ ' ' :: front.reverse := by simp
  rw [List.rtakeWhile, turned, takeWhile_append_of_not_mem inside (by simp), List.reverse_reverse]

/-- A parameter as it is written. -/
def parameterText (parameter : String × String) : String :=
  parameter.1 ++ " " ++ parameter.2

theorem not_mem_parameterText {parameter : String × String}
    (solid : IsSolid parameter.1.toList ∧ IsSolid parameter.2.toList) {c : Char}
    (separates : c ∈ [' ', '(', ',', '=', '}', '\n']) (notBlank : c ≠ ' ') :
    c ∉ (parameterText parameter).toList := by
  simp [parameterText, solid.1.not_mem separates, solid.2.not_mem separates, notBlank]

/-- Every parameter is written with its type, so its name can be cut off. -/
theorem rtakeWhile_parameterText {parameter : String × String}
    (isSolid : IsSolid parameter.2.toList) (front : List Char) :
    String.ofList ((front ++ (parameterText parameter).toList).rtakeWhile (· != ' ')) =
      parameter.2 := by
  have split : front ++ (parameterText parameter).toList =
      front ++ parameter.1.toList ++ ' ' :: parameter.2.toList := by
    simp [parameterText]
  rw [split, rtakeWhile_solid isSolid, String.ofList_toList]

theorem parameterNames_intercalate {parameters : List (String × String)}
    (solid : ∀ p ∈ parameters, IsSolid p.1.toList ∧ IsSolid p.2.toList) :
    Sentence.parameterNames (", ".intercalate (parameters.map parameterText)).toList =
      parameters.map Prod.snd := by
  cases parameters with
  | nil => rfl
  | cons first others =>
    have noComma : ∀ p ∈ first :: others, ',' ∉ (parameterText p).toList := fun p member =>
      not_mem_parameterText (solid p member) (by decide) (by decide)
    have pieces : (", ".intercalate ((first :: others).map parameterText)).toList =
        [','].intercalate ((parameterText first).toList ::
          others.map fun p => ' ' :: (parameterText p).toList) := by
      rw [String.toList_intercalate, List.map_cons, List.map_cons, intercalate_comma_blank,
        List.map_map, List.map_map]
      rfl
    have plain : ∀ piece ∈ (parameterText first).toList ::
        others.map fun p => ' ' :: (parameterText p).toList, ',' ∉ piece := by
      refine List.forall_mem_cons.mpr ⟨noComma first List.mem_cons_self, ?_⟩
      intro piece listed
      rcases List.mem_map.mp listed with ⟨p, member, rfl⟩
      simpa using noComma p (.tail _ member)
    have split := List.splitOn_intercalate ',' plain (List.cons_ne_nil _ _)
    have nonempty : [','].intercalate ((parameterText first).toList ::
        others.map fun p => ' ' :: (parameterText p).toList) ≠ [] := by
      intro empty
      rw [empty, List.splitOn_nil] at split
      have blank := (List.cons.inj split).1
      simp [parameterText] at blank
    rw [pieces, Sentence.parameterNames, if_neg nonempty, split, List.map_cons, List.map_cons,
      List.map_map]
    refine congrArg₂ List.cons (rtakeWhile_parameterText (solid first List.mem_cons_self).2 []) ?_
    refine List.map_congr_left fun p member => ?_
    exact rtakeWhile_parameterText (solid p (.tail _ member)).2 [' ']

theorem newline_not_mem_parameters {parameters : List (String × String)}
    (solid : ∀ p ∈ parameters, IsSolid p.1.toList ∧ IsSolid p.2.toList) :
    '\n' ∉ (", ".intercalate (parameters.map parameterText)).toList := by
  rw [String.toList_intercalate]
  refine not_mem_intercalate (by decide) ?_
  simp only [List.mem_map, forall_exists_index, and_imp]
  rintro _ _ p member rfl rfl
  exact not_mem_parameterText (solid p member) (by decide) (by decide)

theorem says_head {parameters : List (String × String)} (isType : IsSolid type.toList)
    (notKeyword : type.toList ∉ ["if".toList, "while".toList, "for".toList, "return".toList])
    (isSolid : IsSolid name.toList)
    (solid : ∀ p ∈ parameters, IsSolid p.1.toList ∧ IsSolid p.2.toList) :
    Says ⟨depth, type ++ " " ++ name ++ "(" ++ ", ".intercalate (parameters.map parameterText) ++
      ")" ++ opening⟩ (.head name (parameters.map Prod.snd)) := by
  have read := parameterNames_intercalate solid
  have listed := newline_not_mem_parameters solid
  generalize ", ".intercalate (parameters.map parameterText) = list at read listed
  have letters : (type ++ " " ++ name ++ "(" ++ list ++ ")" ++ opening).toList =
      type.toList ++ (' ' :: (name.toList ++ '(' :: list.toList) ++ [')', ' ', '{']) := by
    simp [opening]
  have oneLine : '\n' ∉ name.toList := isSolid.not_mem (by decide)
  simp only [List.mem_cons, List.not_mem_nil, or_false, not_or] at notKeyword
  refine says_opened depth letters isType rfl (by simp [oneLine, listed]) ?_
  have named : ((' ' :: (name.toList ++ '(' :: list.toList) ++ [')', ' ', '{']).drop 1).takeWhile
      (· != '(') = name.toList := by
    rw [List.cons_append, List.drop_succ_cons, List.drop_zero, List.append_assoc]
    exact takeWhile_append_of_not_mem (isSolid.not_mem (by decide)) (by simp)
  rw [Sentence.opened?, if_neg notKeyword.1, if_neg notKeyword.2.1, if_neg notKeyword.2.2.1]
  dsimp only
  have inside : ((' ' :: (name.toList ++ '(' :: list.toList) ++ [')', ' ', '{']).drop
      (name.toList.length + 2)).rdrop 3 = list.toList := by
    have split : ' ' :: (name.toList ++ '(' :: list.toList) ++ [')', ' ', '{'] =
        (' ' :: name.toList ++ ['(']) ++ (list.toList ++ [')', ' ', '{']) := by simp
    have length : (' ' :: name.toList ++ ['(']).length = name.toList.length + 2 := by simp
    rw [split, ← length, List.drop_left]
    simp [List.rdrop]
  rw [named, inside, read, String.ofList_toList]

/-! ### Ends of blocks -/

/-- A fixed line. -/
theorem says_fixed (oneLine : '\n' ∉ text.toList) (flush : text.toList.head? ≠ some ' ') :
    Says ⟨depth, text⟩ (Sentence.read text.toList) :=
  ⟨oneLine, flush, rfl⟩

theorem says_close : Says ⟨depth, closing⟩ .close :=
  says_fixed depth (by decide) (by decide)

theorem says_otherwise : Says ⟨depth, closing ++ " else" ++ opening⟩ .otherwise :=
  says_fixed depth (by decide) (by decide)

end Line

/-! ## Lines from a text -/

theorem split_at_break {line line' rest rest' : List Char} (oneLine : '\n' ∉ line)
    (oneLine' : '\n' ∉ line') (same : line ++ '\n' :: rest = line' ++ '\n' :: rest') :
    line = line' ∧ rest = rest' := by
  have cut : ∀ rest : List Char, ∀ c ∈ ('\n' :: rest).head?, c = '\n' := by simp
  have sameLine : line = line' := by
    rw [← takeWhile_append_of_not_mem oneLine (cut rest), same,
      takeWhile_append_of_not_mem oneLine' (cut rest')]
  subst sameLine
  exact ⟨rfl, (List.cons.inj (List.append_cancel_left same)).2⟩

theorem Line.toList_render (line : Line) (rest : List Char) :
    line.render.toList ++ rest =
      List.replicate (4 * line.depth) ' ' ++ line.text.toList ++ '\n' :: rest := by
  simp [Line.render]

/-- The text of a line is what stands behind its indentation. -/
theorem Line.Says.dropWhile {line : Line} {sentence : Sentence} (said : line.Says sentence) :
    (List.replicate (4 * line.depth) ' ' ++ line.text.toList).dropWhile (· == ' ') =
      line.text.toList := by
  refine dropWhile_append_of_head ?_ ?_
  · intro c member
    rw [List.eq_of_mem_replicate member]
    rfl
  · intro c head
    rw [beq_eq_false_iff_ne]
    rintro rfl
    exact said.flush head

/-- A text says one thing only. -/
theorem eq_of_join_render {lines lines' : List Line} {sentences sentences' : List Sentence}
    (said : List.Forall₂ Line.Says lines sentences)
    (said' : List.Forall₂ Line.Says lines' sentences')
    (same : String.join (lines.map Line.render) = String.join (lines'.map Line.render)) :
    sentences = sentences' := by
  rw [← String.toList_inj, String.toList_join, String.toList_join] at same
  induction said generalizing lines' sentences' with
  | nil =>
    cases said' with
    | nil => rfl
    | cons => simp [Line.render] at same
  | @cons line sentence lines sentences first others ih =>
    cases said' with
    | nil => simp [Line.render] at same
    | @cons line' sentence' lines' sentences' first' others' =>
      rw [List.map_cons, List.map_cons, List.flatMap_cons, List.flatMap_cons, Line.toList_render,
        Line.toList_render] at same
      have oneLine : ∀ {line : Line} {sentence : Sentence}, line.Says sentence →
          '\n' ∉ List.replicate (4 * line.depth) ' ' ++ line.text.toList := by
        intro line sentence said
        simp [said.oneLine]
      rcases split_at_break (oneLine first) (oneLine first') same with ⟨sameLine, sameRest⟩
      have sameText : line.text.toList = line'.text.toList := by
        rw [← first.dropWhile, sameLine, first'.dropWhile]
      have sameSentence : sentence = sentence' := by
        rw [← first.reads, sameText, first'.reads]
      rw [sameSentence, ih others' sameRest]

end Java

/-! ## Blocks -/

mutual

/-- What the lines of a statement say. -/
def Statement.sentences : Statement → List Sentence
  | .expression value => [.perform value]
  | .declaration decl => [.declare decl]
  | .assignment target value => [.assign target value]
  | .conditional condition thenBody elseBody =>
    .test condition :: (Statement.allSentences thenBody ++
      ((if elseBody.isEmpty then [] else .otherwise :: Statement.allSentences elseBody) ++
        [.close]))
  | .forEach name range body => .each name range :: (Statement.allSentences body ++ [.close])
  | .loop condition body => .repeated condition :: (Statement.allSentences body ++ [.close])
  | .result value => [.result value]

def Statement.allSentences : List Statement → List Sentence
  | [] => []
  | s :: ss => s.sentences ++ Statement.allSentences ss

end

/-- Where a block ends. -/
def Java.Sentence.IsEnd : Sentence → Prop
  | .close | .otherwise => True
  | _ => False

/-- A block has ended, or begins with no statement. -/
def Java.Ended (rest : List Sentence) : Prop :=
  ∀ sentence ∈ rest.head?, sentence.IsEnd

theorem Statement.not_ended_sentences (s : Statement) (rest : List Sentence) :
    ¬ Ended (s.sentences ++ rest) := by
  intro ended
  cases s <;> exact ended _ rfl

theorem Java.ended_close (rest : List Sentence) : Ended (.close :: rest) := by
  rintro sentence ⟨⟩
  trivial

theorem Java.ended_else (elseBody : List Statement) (rest : List Sentence) :
    Ended ((if elseBody.isEmpty then [] else .otherwise :: Statement.allSentences elseBody) ++
      .close :: rest) := by
  cases elseBody with
  | nil => exact ended_close rest
  | cons =>
    rintro sentence ⟨⟩
    trivial

mutual

/-- No statement is the beginning of another. -/
theorem Statement.eq_of_sentences : (s s' : Statement) → {rest rest' : List Sentence} →
    s.sentences ++ rest = s'.sentences ++ rest' → s = s' ∧ rest = rest'
  | .expression value, s', rest, rest', same => by
    cases s' <;> simp only [Statement.sentences, List.cons_append, List.nil_append, List.cons.injEq,
      Sentence.perform.injEq, reduceCtorEq, false_and] at same
    exact ⟨congrArg _ same.1, same.2⟩
  | .declaration decl, s', rest, rest', same => by
    cases s' <;> simp only [Statement.sentences, List.cons_append, List.nil_append, List.cons.injEq,
      Sentence.declare.injEq, reduceCtorEq, false_and] at same
    exact ⟨congrArg _ same.1, same.2⟩
  | .assignment target value, s', rest, rest', same => by
    cases s' <;> simp only [Statement.sentences, List.cons_append, List.nil_append, List.cons.injEq,
      Sentence.assign.injEq, reduceCtorEq, false_and] at same
    exact ⟨congrArg₂ _ same.1.1 same.1.2, same.2⟩
  | .result value, s', rest, rest', same => by
    cases s' <;> simp only [Statement.sentences, List.cons_append, List.nil_append, List.cons.injEq,
      Sentence.result.injEq, reduceCtorEq, false_and] at same
    exact ⟨congrArg _ same.1, same.2⟩
  | .forEach name range body, s', rest, rest', same => by
    cases s' <;> simp only [Statement.sentences, List.cons_append, List.nil_append, List.cons.injEq,
      Sentence.each.injEq, reduceCtorEq, false_and, List.append_assoc] at same
    rcases same with ⟨⟨rfl, rfl⟩, same⟩
    rcases Statement.eq_of_allSentences body _ (ended_close rest) (ended_close rest') same with
      ⟨rfl, sameRest⟩
    exact ⟨rfl, (List.cons.inj sameRest).2⟩
  | .loop condition body, s', rest, rest', same => by
    cases s' <;> simp only [Statement.sentences, List.cons_append, List.nil_append, List.cons.injEq,
      Sentence.repeated.injEq, reduceCtorEq, false_and, List.append_assoc] at same
    rcases same with ⟨rfl, same⟩
    rcases Statement.eq_of_allSentences body _ (ended_close rest) (ended_close rest') same with
      ⟨rfl, sameRest⟩
    exact ⟨rfl, (List.cons.inj sameRest).2⟩
  | .conditional condition thenBody elseBody, s', rest, rest', same => by
    cases s' <;> simp only [Statement.sentences, List.cons_append, List.nil_append, List.cons.injEq,
      Sentence.test.injEq, reduceCtorEq, false_and, List.append_assoc] at same
    rename_i condition' thenBody' elseBody'
    rcases same with ⟨rfl, same⟩
    rcases Statement.eq_of_allSentences thenBody thenBody' (ended_else elseBody rest)
      (ended_else elseBody' rest') same with ⟨rfl, sameTail⟩
    cases elseBody with
    | nil =>
      cases elseBody' with
      | nil => exact ⟨rfl, (List.cons.inj sameTail).2⟩
      | cons => cases (List.cons.inj sameTail).1
    | cons first others =>
      cases elseBody' with
      | nil => cases (List.cons.inj sameTail).1
      | cons first' others' =>
        rcases Statement.eq_of_allSentences (first :: others) (first' :: others') (ended_close rest)
          (ended_close rest') (List.cons.inj sameTail).2 with ⟨sameElse, sameRest⟩
        rw [sameElse]
        exact ⟨rfl, (List.cons.inj sameRest).2⟩

/-- A block is determined by its sentences up to where it ends. -/
theorem Statement.eq_of_allSentences : (ss ss' : List Statement) → {rest rest' : List Sentence} →
    Ended rest → Ended rest' →
    Statement.allSentences ss ++ rest = Statement.allSentences ss' ++ rest' →
    ss = ss' ∧ rest = rest'
  | [], [], _, _, _, _, same => ⟨rfl, same⟩
  | [], s' :: ss', rest, rest', ended, _, same => by
    rw [Statement.allSentences, List.nil_append, Statement.allSentences, List.append_assoc] at same
    rw [same] at ended
    exact absurd ended (s'.not_ended_sentences _)
  | s :: ss, [], rest, rest', _, ended', same => by
    rw [Statement.allSentences, Statement.allSentences, List.append_assoc, List.nil_append] at same
    rw [← same] at ended'
    exact absurd ended' (s.not_ended_sentences _)
  | s :: ss, s' :: ss', rest, rest', ended, ended', same => by
    rw [Statement.allSentences, Statement.allSentences, List.append_assoc,
      List.append_assoc] at same
    rcases Statement.eq_of_sentences s s' same with ⟨rfl, sameTail⟩
    rcases Statement.eq_of_allSentences ss ss' ended ended' sameTail with ⟨rfl, sameRest⟩
    exact ⟨rfl, sameRest⟩

end

end Primer
