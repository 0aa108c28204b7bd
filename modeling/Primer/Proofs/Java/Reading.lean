import Primer.Proofs.Java.Words

/-!
# Reading back what was written

The text of a tree, with blanks around every operator and behind every comma, is read as the tree
that a reader of its operands and operators makes (`Tree.read_text`).  So it is read as the tree
itself if and only if the operators of the tree stand where the dialect puts them and its names are
names of the dialect (`Tree.read_text_eq_self_iff`).
-/

namespace Primer.Java

open Lexeme

mutual

/-- The text of an expression. -/
def Tree.text : Tree → String
  | .leaf text => text
  | .group inner => "(" ++ inner.text ++ ")"
  | .binary operator left right => left.text ++ " " ++ operator.toJava ++ " " ++ right.text
  | .call name arguments => name ++ "(" ++ Tree.listText arguments ++ ")"

/-- The texts of the arguments of a call. -/
def Tree.listText : List Tree → String
  | [] => ""
  | tree :: trees => tree.text ++ Tree.moreText trees

/-- The texts of the arguments behind the first. -/
def Tree.moreText : List Tree → String
  | [] => ""
  | tree :: trees => ", " ++ tree.text ++ Tree.moreText trees

end

mutual

/-- What holds of the operands without parts, and of the names that are called. -/
def Tree.Each (operand callee : String → Prop) : Tree → Prop
  | .leaf text => operand text
  | .group inner => inner.Each operand callee
  | .binary _ left right => left.Each operand callee ∧ right.Each operand callee
  | .call name arguments => callee name ∧ Tree.EachAll operand callee arguments

def Tree.EachAll (operand callee : String → Prop) : List Tree → Prop
  | [] => True
  | tree :: trees => tree.Each operand callee ∧ Tree.EachAll operand callee trees

end

/-- Every operand and every called name can be told from what stands around it. -/
def Tree.Lexical (namePart : Char → Bool) : Tree → Prop :=
  Tree.Each (IsOperand namePart ·.toList) (IsJavaName namePart ·.toList)

/-! ## Writing and reading -/

section

variable {dialect : Dialect}

/-- Before a bound, `text` is some words, and these take a reader from where an operand is due to
where `result` says. -/
def ReadsAs (dialect : Dialect) (text : List Char) (result : Place → Tree) : Prop :=
  ∃ found : List Word,
    (∀ rest, Bounded rest → words dialect.namePart 0 (text ++ rest) =
      (words dialect.namePart 0 rest).map (found ++ ·)) ∧
    ∀ outer place, Reading.run dialect.looseness (.lacking outer place) found =
      some (.complete outer (result place))

theorem readsAs_operand {text : String} (isOperand : IsOperand dialect.namePart text.toList) :
    ReadsAs dialect text.toList fun place => place.fill dialect.looseness (.leaf text) := by
  have same : String.ofList text.toList = text := String.ofList_toList
  generalize text.toList = cs at isOperand same
  subst same
  cases isOperand with
  | name isName =>
    exact ⟨[.name (String.ofList cs)], fun rest => words_name isName, fun _ _ => rfl⟩
  | number isNumber =>
    exact ⟨[.number (String.ofList cs)], fun rest => words_number isNumber, fun _ _ => rfl⟩
  | @negative cs isNumber =>
    refine ⟨[.operator .subtract, .number (String.ofList cs)], fun rest bounded => ?_,
      fun _ _ => ?_⟩
    · have sign : word? dialect.namePart '-' ([] ++ (cs ++ rest)) =
          some (.operator .subtract, 0) := rfl
      have split := words_cons (by decide) sign
      rw [List.nil_append] at split
      rw [List.cons_append, split, words_number isNumber bounded, Option.map_map]
      rfl
    · have spelled : "-" ++ String.ofList cs = String.ofList ('-' :: cs) := by
        rw [← String.toList_inj]
        simp
      rw [← spelled]
      rfl
  | quoted isQuoted =>
    exact ⟨[.quoted (String.ofList cs)], fun rest _ => words_quoted isQuoted rest, fun _ _ => rfl⟩

theorem ReadsAs.group {text : List Char} {result : Place → Tree}
    (reads : ReadsAs dialect text result) :
    ReadsAs dialect ('(' :: (text ++ [')'])) fun place =>
      place.fill dialect.looseness (.group (result .front)) := by
  obtain ⟨found, split, run⟩ := reads
  refine ⟨.opening :: (found ++ [.closing]), fun rest _ => ?_, fun outer place => ?_⟩
  · have bounded : Bounded (')' :: rest) := by
      rintro c ⟨⟩
      decide
    have tail : text ++ [')'] ++ rest = text ++ ')' :: rest := by simp
    rw [List.cons_append, words_opening, tail, split _ bounded, words_closing]
    simp [Option.map_map, Function.comp_def]
  · have opened : Reading.step dialect.looseness (.lacking outer place) .opening =
        some (.lacking (.group place :: outer) .front) := rfl
    rw [Reading.run_cons opened, Reading.run_append (run _ .front)]
    rfl

theorem ReadsAs.binary {left right : List Char} {first second : Place → Tree}
    (readsLeft : ReadsAs dialect left first) (operator : Operator)
    (readsRight : ReadsAs dialect right second) :
    ReadsAs dialect (left ++ ' ' :: (operator.toJava.toList ++ ' ' :: right)) fun place =>
      second (.behind (first place) operator) := by
  obtain ⟨foundLeft, splitLeft, runLeft⟩ := readsLeft
  obtain ⟨foundRight, splitRight, runRight⟩ := readsRight
  refine ⟨foundLeft ++ .operator operator :: foundRight, fun rest bounded => ?_,
    fun outer place => ?_⟩
  · have blank : Bounded (' ' :: (operator.toJava.toList ++ ' ' :: (right ++ rest))) := by
      rintro c ⟨⟩
      decide
    have text : left ++ ' ' :: (operator.toJava.toList ++ ' ' :: right) ++ rest =
        left ++ ' ' :: (operator.toJava.toList ++ ' ' :: (right ++ rest)) := by simp
    rw [text, splitLeft _ blank, words, if_pos rfl, words_operator, splitRight _ bounded]
    simp [Option.map_map, Function.comp_def]
  · rw [Reading.run_append (runLeft outer place)]
    exact runRight outer (.behind (first place) operator)

/-- The rest of an argument list and its closing parenthesis take a reader from behind an argument
to behind the call. -/
def MoreReadAs (dialect : Dialect) (text : List Char) (others : List Tree) : Prop :=
  (∀ rest, Bounded (text ++ ')' :: rest)) ∧ ∃ found : List Word,
    (∀ rest, words dialect.namePart 0 (text ++ ')' :: rest) =
      (words dialect.namePart 0 rest).map (found ++ ·)) ∧
    ∀ outer place name arguments tree,
      Reading.run dialect.looseness (.complete (.call name arguments place :: outer) tree) found =
        some (.complete outer
          (place.fill dialect.looseness (.call name (arguments ++ tree :: others))))

theorem moreReadAs_nil : MoreReadAs dialect [] [] := by
  refine ⟨fun rest => ?_, [.closing], words_closing, fun _ _ _ _ _ => rfl⟩
  rintro c ⟨⟩
  decide

theorem MoreReadAs.cons {first others : List Char} {result : Place → Tree} {trees : List Tree}
    (more : MoreReadAs dialect others trees) (reads : ReadsAs dialect first result) :
    MoreReadAs dialect (',' :: ' ' :: (first ++ others)) (result .front :: trees) := by
  obtain ⟨found, split, run⟩ := reads
  obtain ⟨bounded, foundMore, splitMore, runMore⟩ := more
  refine ⟨fun rest => ?_, .comma :: (found ++ foundMore), fun rest => ?_,
    fun outer place name args tree => ?_⟩
  · rintro c ⟨⟩
    decide
  · have text : ',' :: ' ' :: (first ++ others) ++ ')' :: rest =
        ',' :: ' ' :: (first ++ (others ++ ')' :: rest)) := by simp
    rw [text, words_comma, split _ (bounded rest), splitMore]
    simp [Option.map_map, Function.comp_def]
  · have next : Reading.step dialect.looseness (.complete (.call name args place :: outer) tree)
        .comma = some (.lacking (.call name (args ++ [tree]) place :: outer) .front) := rfl
    rw [Reading.run_cons next, Reading.run_append (run _ .front), runMore, List.append_assoc]
    rfl

theorem readsAs_call_nil {name : String} (isName : IsJavaName dialect.namePart name.toList) :
    ReadsAs dialect (name.toList ++ ['(', ')']) fun place =>
      place.fill dialect.looseness (.call name []) := by
  refine ⟨[.callee name, .closing], fun rest _ => ?_, fun _ _ => rfl⟩
  have text : name.toList ++ ['(', ')'] ++ rest = name.toList ++ '(' :: ')' :: rest := by simp
  rw [text, words_callee isName, words_closing, String.ofList_toList]
  simp [Option.map_map, Function.comp_def]

theorem MoreReadAs.call {name : String} {first others : List Char} {result : Place → Tree}
    {trees : List Tree} (more : MoreReadAs dialect others trees)
    (isName : IsJavaName dialect.namePart name.toList) (reads : ReadsAs dialect first result) :
    ReadsAs dialect (name.toList ++ '(' :: (first ++ others ++ [')'])) fun place =>
      place.fill dialect.looseness (.call name (result .front :: trees)) := by
  obtain ⟨found, split, run⟩ := reads
  obtain ⟨bounded, foundMore, splitMore, runMore⟩ := more
  refine ⟨.callee name :: (found ++ foundMore), fun rest _ => ?_, fun outer place => ?_⟩
  · have text : name.toList ++ '(' :: (first ++ others ++ [')']) ++ rest =
        name.toList ++ '(' :: (first ++ (others ++ ')' :: rest)) := by simp
    rw [text, words_callee isName, split _ (bounded rest), splitMore, String.ofList_toList]
    simp [Option.map_map, Function.comp_def]
  · have opened : Reading.step dialect.looseness (.lacking outer place) (.callee name) =
        some (.lacking (.call name [] place :: outer) .front) := rfl
    rw [Reading.run_cons opened, Reading.run_append (run _ .front), runMore]
    rfl

end

mutual

theorem Tree.readsAs_text (dialect : Dialect) :
    (tree : Tree) → tree.Lexical dialect.namePart →
      ReadsAs dialect tree.text.toList (tree.readAt dialect.looseness)
  | .leaf _, isOperand => readsAs_operand isOperand
  | .group inner, lexical => by
    have reads := (Tree.readsAs_text dialect inner lexical).group
    have text : (Tree.group inner).text.toList = '(' :: (inner.text.toList ++ [')']) := by
      simp [Tree.text]
    rw [text]
    exact reads
  | .binary operator left right, ⟨leftLexical, rightLexical⟩ => by
    have reads := (Tree.readsAs_text dialect left leftLexical).binary operator
      (Tree.readsAs_text dialect right rightLexical)
    have text : (Tree.binary operator left right).text.toList =
        left.text.toList ++ ' ' :: (operator.toJava.toList ++ ' ' :: right.text.toList) := by
      simp [Tree.text]
    rw [text]
    exact reads
  | .call name [], ⟨isName, _⟩ => by
    have text : (Tree.call name []).text.toList = name.toList ++ ['(', ')'] := by
      simp [Tree.text, Tree.listText]
    rw [text]
    exact readsAs_call_nil isName
  | .call name (first :: others), ⟨isName, firstLexical, othersLexical⟩ => by
    have reads := (Tree.moreReadAs_text dialect others othersLexical).call isName
      (Tree.readsAs_text dialect first firstLexical)
    have text : (Tree.call name (first :: others)).text.toList = name.toList ++
        '(' :: (first.text.toList ++ (Tree.moreText others).toList ++ [')']) := by
      simp [Tree.text, Tree.listText]
    rw [text]
    exact reads

theorem Tree.moreReadAs_text (dialect : Dialect) :
    (trees : List Tree) →
      Tree.EachAll (IsOperand dialect.namePart ·.toList)
        (IsJavaName dialect.namePart ·.toList) trees →
      MoreReadAs dialect (Tree.moreText trees).toList (Tree.regroupAll dialect.looseness trees)
  | [], _ => moreReadAs_nil
  | tree :: trees, ⟨lexical, others⟩ => by
    have reads := (Tree.moreReadAs_text dialect trees others).cons
      (Tree.readsAs_text dialect tree lexical)
    have text : (Tree.moreText (tree :: trees)).toList =
        ',' :: ' ' :: (tree.text.toList ++ (Tree.moreText trees).toList) := by
      simp [Tree.moreText]
    rw [text]
    exact reads

end

/-- The text of a tree is read as a reader groups its operands and operators. -/
theorem Tree.read_text {dialect : Dialect} {tree : Tree} (lexical : tree.Lexical dialect.namePart) :
    read dialect tree.text = some (tree.regroup dialect.looseness) := by
  obtain ⟨found, split, run⟩ := tree.readsAs_text dialect lexical
  have whole := split [] (fun c head => nomatch head)
  rw [List.append_nil] at whole
  rw [read, whole]
  simp [words, run, Reading.result?, Tree.regroup]

/-! ## What is read is made of names of the dialect -/

/-- A text that starts like a name is a name of the dialect. -/
def FitsName (namePart : Char → Bool) (text : String) : Prop :=
  ∀ c cs, text.toList = c :: cs → isIdentifierStart c = true → ∀ d ∈ cs, namePart d = true

/-- The names in a tree are names of the dialect. -/
def Tree.NamesFit (namePart : Char → Bool) : Tree → Prop :=
  Tree.Each (FitsName namePart) (FitsName namePart)

theorem fitsName_of_head {namePart : Char → Bool} {c : Char} {cs : List Char}
    (notFirst : isIdentifierStart c = false) : FitsName namePart (String.ofList (c :: cs)) := by
  intro d ds spelled first
  rw [String.toList_ofList] at spelled
  obtain ⟨rfl, rfl⟩ := List.cons.inj spelled
  rw [notFirst] at first
  cases first

def Word.Fits (namePart : Char → Bool) : Word → Prop
  | .name text | .callee text | .number text | .quoted text => FitsName namePart text
  | _ => True

theorem word?_fits {namePart : Char → Bool} {c : Char} {rest : List Char} {word : Word} {n : Nat}
    (found : word? namePart c rest = some (word, n)) : word.Fits namePart := by
  have named : FitsName namePart (String.ofList (c :: rest.takeWhile namePart)) := by
    intro d ds spelled _ e member
    rw [String.toList_ofList] at spelled
    obtain ⟨rfl, rfl⟩ := List.cons.inj spelled
    exact List.mem_takeWhile_imp member
  unfold word? at found
  split at found
  · dsimp only at found
    split at found <;> cases found <;> exact named
  rename_i notFirst
  have notFirst : isIdentifierStart c = false := by simpa using notFirst
  split at found
  · cases found
    exact fitsName_of_head notFirst
  split at found
  · obtain ⟨length, _, same⟩ := Option.map_eq_some_iff.mp found
    cases same
    exact fitsName_of_head notFirst
  iterate 3
    split at found
    · cases found
      trivial
  obtain ⟨⟨operator, length⟩, _, same⟩ := Option.map_eq_some_iff.mp found
  cases same
  trivial

theorem words_fit {namePart : Char → Bool} {skip : Nat} {text : List Char} {found : List Word}
    (split : words namePart skip text = some found) : ∀ word ∈ found, word.Fits namePart := by
  fun_induction words namePart skip text generalizing found with
  | case1 =>
    cases split
    exact fun _ member => nomatch member
  | case2 skip c rest ih => exact ih split
  | case3 rest ih => exact ih split
  | case4 c rest notBlank ih =>
    obtain ⟨⟨word, length⟩, first, behind⟩ := Option.bind_eq_some_iff.mp split
    obtain ⟨others, othersFound, same⟩ := Option.bind_eq_some_iff.mp behind
    cases same
    rintro other (_ | ⟨_, member⟩)
    · exact word?_fits first
    · exact ih length othersFound other member

section

variable {P : String → Prop} {looseness : Operator → Nat}

theorem Tree.Each.extend {before operand : Tree} {operator : Operator} (old : before.Each P P)
    (new : operand.Each P P) : (before.extend looseness operator operand).Each P P := by
  fun_induction Tree.extend looseness before operator operand with
  | case1 top left right _ ih => exact ⟨old.1, ih old.2⟩
  | case2 => exact ⟨old, new⟩
  | case3 => exact ⟨old, new⟩

theorem Tree.eachAll_append {first second : List Tree} :
    Tree.EachAll P P (first ++ second) ↔ Tree.EachAll P P first ∧ Tree.EachAll P P second := by
  induction first with
  | nil => simp [Tree.EachAll]
  | cons tree trees ih => simp [Tree.EachAll, ih, and_assoc]

def Place.Each (P : String → Prop) : Place → Prop
  | .front => True
  | .behind before _ => before.Each P P

theorem Place.Each.fill {place : Place} {operand : Tree} (old : place.Each P)
    (new : operand.Each P P) : (place.fill looseness operand).Each P P := by
  cases place with
  | front => exact new
  | behind before operator => exact Tree.Each.extend old new

def Opened.Each (P : String → Prop) : Opened → Prop
  | .group place => place.Each P
  | .call name arguments place => P name ∧ Tree.EachAll P P arguments ∧ place.Each P

def Reading.Each (P : String → Prop) : Reading → Prop
  | .lacking outer place | .signed outer place => (∀ opened ∈ outer, opened.Each P) ∧ place.Each P
  | .complete outer tree => (∀ opened ∈ outer, opened.Each P) ∧ tree.Each P P

end

/-- One word keeps names in order. -/
theorem Reading.Each.step {namePart : Char → Bool} {looseness : Operator → Nat}
    {reading next : Reading} {word : Word} (old : reading.Each (FitsName namePart))
    (fits : word.Fits namePart) (stepped : reading.step looseness word = some next) :
    next.Each (FitsName namePart) := by
  unfold Reading.step at stepped
  split at stepped <;> cases stepped
  case h_1 | h_2 | h_3 => exact ⟨old.1, old.2.fill fits⟩
  case h_4 => exact old
  case h_5 outer place text =>
    have signed : FitsName namePart ("-" ++ text) := by
      intro c cs spelled first
      rw [String.toList_append] at spelled
      obtain ⟨rfl, _⟩ := List.cons.inj spelled
      exact absurd first (by decide)
    exact ⟨old.1, old.2.fill signed⟩
  case h_6 => exact ⟨List.forall_mem_cons.mpr ⟨old.2, old.1⟩, trivial⟩
  case h_7 => exact ⟨List.forall_mem_cons.mpr ⟨⟨fits, trivial, old.2⟩, old.1⟩, trivial⟩
  case h_8 =>
    obtain ⟨⟨named, _, at'⟩, others⟩ := List.forall_mem_cons.mp old.1
    exact ⟨others, at'.fill ⟨named, trivial⟩⟩
  case h_9 => exact old
  case h_10 =>
    obtain ⟨place, others⟩ := List.forall_mem_cons.mp old.1
    exact ⟨others, Place.Each.fill place old.2⟩
  case h_11 =>
    obtain ⟨⟨named, arguments, place⟩, others⟩ := List.forall_mem_cons.mp old.1
    exact ⟨others, place.fill ⟨named, Tree.eachAll_append.mpr ⟨arguments, old.2, trivial⟩⟩⟩
  case h_12 =>
    obtain ⟨⟨named, arguments, place⟩, others⟩ := List.forall_mem_cons.mp old.1
    exact ⟨List.forall_mem_cons.mpr
      ⟨⟨named, Tree.eachAll_append.mpr ⟨arguments, old.2, trivial⟩, place⟩, others⟩, trivial⟩

theorem Reading.Each.run {namePart : Char → Bool} {looseness : Operator → Nat}
    {reading last : Reading} {found : List Word} (old : reading.Each (FitsName namePart))
    (fit : ∀ word ∈ found, word.Fits namePart) (ran : reading.run looseness found = some last) :
    last.Each (FitsName namePart) := by
  induction found generalizing reading with
  | nil =>
    cases ran
    exact old
  | cons word found ih =>
    obtain ⟨next, stepped, ran⟩ := Option.bind_eq_some_iff.mp ran
    exact ih (old.step (fit word List.mem_cons_self) stepped)
      (fun other member => fit other (.tail _ member)) ran

theorem Tree.namesFit_of_read {dialect : Dialect} {text : String} {tree : Tree}
    (found : read dialect text = some tree) : tree.NamesFit dialect.namePart := by
  obtain ⟨words, split, found⟩ := Option.bind_eq_some_iff.mp found
  obtain ⟨reading, ran, result⟩ := Option.bind_eq_some_iff.mp found
  have start : (Reading.lacking [] .front).Each (FitsName dialect.namePart) :=
    ⟨fun _ member => absurd member List.not_mem_nil, trivial⟩
  have each := start.run (words_fit split) ran
  unfold Reading.result? at result
  split at result <;> cases result
  exact each.2

/-! ## Reading back the same tree -/

mutual

theorem Tree.Each.combine {P Q P' Q' R S : String → Prop}
    (operand : ∀ text, P text → Q text → R text)
    (callee : ∀ text, P' text → Q' text → S text) :
    (tree : Tree) → tree.Each P P' → tree.Each Q Q' → tree.Each R S
  | .leaf text, first, second => operand text first second
  | .group inner, first, second => Tree.Each.combine operand callee inner first second
  | .binary _ left right, first, second =>
    ⟨Tree.Each.combine operand callee left first.1 second.1,
      Tree.Each.combine operand callee right first.2 second.2⟩
  | .call name arguments, first, second =>
    ⟨callee name first.1 second.1,
      Tree.EachAll.combine operand callee arguments first.2 second.2⟩

theorem Tree.EachAll.combine {P Q P' Q' R S : String → Prop}
    (operand : ∀ text, P text → Q text → R text) (callee : ∀ text, P' text → Q' text → S text) :
    (trees : List Tree) → Tree.EachAll P P' trees → Tree.EachAll Q Q' trees →
      Tree.EachAll R S trees
  | [], _, _ => trivial
  | tree :: trees, first, second =>
    ⟨Tree.Each.combine operand callee tree first.1 second.1,
      Tree.EachAll.combine operand callee trees first.2 second.2⟩

end

/-- A tree whose names fit a dialect can be told apart there, if it can be told apart at all. -/
theorem Tree.Lexical.of_namesFit {wide narrow : Char → Bool} {tree : Tree}
    (lexical : tree.Lexical wide) (fit : tree.NamesFit narrow) : tree.Lexical narrow := by
  have name : ∀ text : String, IsJavaName wide text.toList → FitsName narrow text →
      IsJavaName narrow text.toList := by
    rintro text ⟨c, cs, spelled, first, _⟩ fits
    exact ⟨c, cs, spelled, first, fits c cs spelled first⟩
  refine Tree.Each.combine ?_ name tree lexical fit
  intro text isOperand fits
  generalize spelled : text.toList = cs at isOperand
  cases isOperand with
  | name isName => exact spelled ▸ .name (name text (spelled ▸ isName) fits)
  | number isNumber => exact .number isNumber
  | negative isNumber => exact .negative isNumber
  | quoted isQuoted => exact .quoted isQuoted

/-- A dialect reads the text of a tree as that tree exactly if the operators of the tree stand where
the dialect puts them and its names are names there. -/
theorem Tree.read_text_eq_self_iff {dialect : Dialect} {wide : Char → Bool} {tree : Tree}
    (lexical : tree.Lexical wide) :
    read dialect tree.text = some tree ↔
      tree.Canonical dialect.looseness ∧ tree.NamesFit dialect.namePart := by
  constructor
  · intro found
    have fit := Tree.namesFit_of_read found
    rw [Tree.read_text (lexical.of_namesFit fit)] at found
    exact ⟨Tree.regroup_eq_self_iff.mp (Option.some.inj found), fit⟩
  · rintro ⟨canonical, fit⟩
    rw [Tree.read_text (lexical.of_namesFit fit), Tree.regroup_eq_self_iff.mpr canonical]

end Primer.Java
