import Primer.Proofs.Grammar.Reading
import Primer.Proofs.Syntax.Canonical

/-!
# What is written is read

The readers of the grammar find every canonical tree in the tokens that are a writing of it, and
give it back up to places.

An operator belongs to the loosest level that it can belong to, so an expression is read from the
level of its own operator up: `Ready` goes from one level to the next.  The induction is on the
number of pieces, which also bounds how deep expressions and statements nest.
-/

namespace Primer

variable {alike : Literal → Literal → Prop}

/-! ## Names -/

/-- The words that are no names. -/
def reservedWords : List String :=
  ["LET", "DEF", "IF", "ELSE", "END", "FOR", "IN", "DO", "WHILE", "RETURN", "AND", "OR", "NIL",
    "TRUE", "FALSE"]

/-- A name that can be written: an identifier that is not reserved. -/
def IsName (name : String) : Prop :=
  Lexeme.isIdentifier name.toList = true ∧ name ∉ reservedWords

instance : DecidablePred IsName :=
  fun _ => inferInstanceAs (Decidable (_ ∧ _))

theorem IsName.not_nonStarter {name : String} (named : IsName name) : name ∉ nonStarters := by
  have words : ∀ text ∈ nonStarters,
      text ∈ reservedWords ∨ Lexeme.isIdentifier text.toList = false := by
    decide
  intro member
  obtain reserved | other := words name member
  · exact named.2 reserved
  · exact absurd named.1 (by simp [other])

/-- A name begins an operand of its own. -/
theorem IsName.ofToken? {name : String} (named : IsName name) {token : Token}
    (fits : (Piece.word name).Fits alike token) :
    Reader.OperandStart.ofToken? token = some (.name token.span name) := by
  obtain ⟨rfl, kind⟩ := fits
  rw [wordKind, if_pos named.1] at kind
  have noLiteral : Literal.ofWord? token.text = none := by
    unfold Literal.ofWord?
    split
    case h_4 => rfl
    all_goals exact absurd named.2 (by simp_all [reservedWords])
  have noParenthesis : token.text ≠ "(" := by
    intro same
    rw [same] at named
    exact absurd named.1 (by decide)
  simp [Reader.OperandStart.ofToken?, Token.literal?, noLiteral, kind, Token.Kind.literal?,
    noParenthesis]

/-! ## Where an expression ends -/

/-- How loosely that binds which a token goes on with. -/
def Token.continues? (token : Token) : Option Nat :=
  if token.text = "(" then some 0
  else if token.text = "." then some 1
  else (Operator.ofSymbol? token.text).map Operator.looseness

/-- The token goes on with nothing that binds as tightly as `looseness`. -/
def Token.Stops (looseness : Nat) (token : Token) : Prop :=
  ∀ k, token.continues? = some k → looseness < k

namespace Token

variable {token : Token} {j k : Nat}

theorem continues?_of_symbol {operator : Operator} (text : token.text = operator.symbol) :
    token.continues? = some operator.looseness := by
  rw [continues?, text]
  cases operator <;> rfl

/-- The words behind an expression. -/
theorem stops_of_text {text : String} (same : token.text = text)
    (ending : text ∈ [")", ",", ";", "=", "DO"]) : token.Stops k := by
  have nothing : ∀ text ∈ [")", ",", ";", "=", "DO"],
      text ≠ "(" ∧ text ≠ "." ∧ Operator.ofSymbol? text = none := by
    decide
  obtain ⟨noCall, noMember, noOperator⟩ := nothing text ending
  intro j continues
  simp [continues?, same, noCall, noMember, noOperator] at continues

theorem Stops.mono (stops : token.Stops k) (tighter : j ≤ k) : token.Stops j :=
  fun i continues => Nat.lt_of_le_of_lt tighter (stops i continues)

theorem Stops.not_call (stops : token.Stops k) : token.text ≠ "(" := by
  intro same
  exact absurd (stops 0 (by simp [continues?, same])) (Nat.not_lt_zero k)

theorem Stops.not_member (stops : token.Stops k) (loose : 1 ≤ k) : token.text ≠ "." := by
  intro same
  have tight := stops 1 (by simp [continues?, same])
  omega

theorem Stops.not_operator (stops : token.Stops k) {precedence : Precedence}
    (loose : precedence.looseness ≤ k) : Reader.operatorAt precedence token = none := by
  rw [Reader.operatorAt, Option.filter_eq_none_iff]
  intro operator found same
  have tight := stops _ (continues?_of_symbol (Operator.ofSymbol?_eq_some.mp found))
  rw [Operator.looseness, of_decide_eq_true same] at tight
  omega

end Token

/-! ## Expressions -/

theorem Expression.pieces_ne_nil (e : Expression) : e.pieces ≠ [] := by
  cases e <;> simp [pieces]

theorem Operator.looseness_bounds (operator : Operator) :
    2 ≤ operator.looseness ∧ operator.looseness ≤ 5 := by
  cases operator <;> decide

theorem Expression.looseness_le (e : Expression) : e.looseness ≤ 5 := by
  cases e with
  | binary note operator => exact operator.looseness_bounds.2
  | _ => simp [looseness]

theorem Expression.length_pieces_le {e : Expression} {es : List Expression} (member : e ∈ es) :
    e.pieces.length ≤ (listPieces es).length := by
  have more : ∀ es, e ∈ es → e.pieces.length ≤ (morePieces es).length := by
    intro es member
    induction es with
    | nil => cases member
    | cons first es ih =>
      rw [morePieces, List.length_cons, List.length_append]
      obtain rfl | member := List.mem_cons.mp member
      · omega
      · have shorter := ih member
        omega
  cases es with
  | nil => cases member
  | cons first es =>
    rw [listPieces, List.length_append]
    obtain rfl | member := List.mem_cons.mp member
    · omega
    · have shorter := more es member
      omega

/-- How an expression begins. -/
theorem Expression.leads {e : Expression} (canonical : e.Canonical IsName)
    {follow before : Token → Prop}
    (starts : ∀ token : Token, token.text ∉ nonStarters → before token) (qs : List Piece) :
    Leads alike (e.pieces ++ qs) follow before := by
  have word : ∀ {text ps}, text ∉ nonStarters → Leads alike (.word text :: ps) follow before :=
    fun free => .word fun token same => starts token (same ▸ free)
  match e, canonical with
  | .literal _ _, _ => exact .cons fun token fits => starts token fits.2
  | .group _ _, _ => exact word (by decide)
  | .access _ _ _, named => exact word (IsName.not_nonStarter named)
  | .call _ _ _ _, ⟨named, _⟩ => exact word (IsName.not_nonStarter named)
  | .binary _ _ left _, ⟨_, _, canonical, _⟩ =>
    rw [pieces, List.append_assoc]
    exact leads canonical starts _
  | .memberAccess _ receiver _ _, ⟨_, canonical, _⟩ =>
    rw [pieces, List.append_assoc]
    exact leads canonical starts _
  | .memberCall _ receiver _ _ _, ⟨_, canonical, _⟩ =>
    rw [pieces, List.append_assoc]
    exact leads canonical starts _

namespace Reader

section Operand

variable {inner : Reader Expression} {note : Note} {name : String} {follow : Token → Prop}

/-- Arguments and the closing parenthesis. -/
theorem arguments_reads {args : List Expression} (canonical : ∀ e ∈ args, e.Canonical IsName)
    (reads : ∀ e ∈ args, Reads alike inner e.pieces (e.ReadAs alike) (Token.Stops 5)) :
    Reads alike (commaSeparated inner) (Expression.listPieces args ++ [.word ")"])
      (List.Forall₂ (Expression.ReadAs alike) args) follow := by
  rw [Expression.listPieces_eq]
  refine commaSeparated_reads
    (fun e member qs => Expression.leads (canonical e member) (fun token free => ?_) qs) reads
    (fun token text => Token.stops_of_text text (by decide))
    fun token text => Token.stops_of_text text (by decide)
  rintro same
  exact free (same ▸ by decide)

theorem literal_reads {value : Literal} :
    Reads alike (operand inner) [.constant value] (Expression.ReadAs alike (.literal note value))
      follow := by
  refine .expect fun token ⟨⟨read, literal, same⟩, _⟩ => ⟨.literal token.span (.ok read), ?_, ?_⟩
  · simp [OperandStart.ofToken?, literal]
  · intro c rest front _
    exact ⟨.literal { span := token.span } read, c, rfl, front_nil.mp front, .literal same⟩

theorem group_reads {e : Expression}
    (reads : Reads alike inner e.pieces (e.ReadAs alike) (Token.Stops 5)) :
    Reads alike (operand inner) (Expression.pieces (.group note e))
      (Expression.ReadAs alike (.group note e)) follow := by
  rw [Expression.pieces]
  refine .expect fun token fits => ⟨.parenthesis token.span.start, ?_, ?_⟩
  · obtain ⟨text, kind⟩ := fits
    rw [show wordKind "(" = .operator by decide] at kind
    simp [OperandStart.ofToken?, Token.literal?, Literal.ofWord?, Token.Kind.literal?, text, kind]
  · refine .bind reads (.word fun _ text => Token.stops_of_text text (by decide))
      fun read same => ?_
    exact .word fun _ => .skip (fun _ => ⟨_, rfl⟩) fun span => .pure (.group same)

theorem access_reads {binding : Option Variable} (named : IsName name) :
    Reads alike (operand inner) (Expression.pieces (.access note name binding))
      (Expression.ReadAs alike (.access note name binding)) (Token.Stops 0) := by
  rw [Expression.pieces]
  refine .expect fun token fits => ⟨_, named.ofToken? fits, ?_⟩
  exact .without (.nil fun _ => Token.Stops.not_call) (.pure .access)

theorem call_reads {args : List Expression} {binding : Option Signature} (named : IsName name)
    (canonical : ∀ e ∈ args, e.Canonical IsName)
    (reads : ∀ e ∈ args, Reads alike inner e.pieces (e.ReadAs alike) (Token.Stops 5)) :
    Reads alike (operand inner) (Expression.pieces (.call note name args binding))
      (Expression.ReadAs alike (.call note name args binding)) follow := by
  rw [Expression.pieces]
  refine .expect fun token fits => ⟨_, named.ofToken? fits, ?_⟩
  refine .regroup (.behind (arguments_reads canonical reads) (.nil fun _ => id) fun read same => ?_)
    (by simp)
  exact .skip (fun _ => ⟨_, rfl⟩) fun span => .pure (.call same)

variable (alike) in
/-- The suffix is read as the name and the arguments of a member. -/
def Suffix.ReadAs (name : String) (args : Option (List Expression)) (suffix : Suffix) : Prop :=
  suffix.name = name ∧ Option.Rel (List.Forall₂ (Expression.ReadAs alike)) args suffix.arguments

theorem suffix_access_reads (named : IsName name) :
    Reads alike (suffix inner) [.word name] (Suffix.ReadAs alike name none) (Token.Stops 0) :=
  .identifier named.1 <| .without (.nil fun _ => Token.Stops.not_call) <|
    .skip (fun _ => ⟨_, rfl⟩) fun _ => .pure ⟨rfl, .none⟩

theorem suffix_call_reads {args : List Expression} (named : IsName name)
    (canonical : ∀ e ∈ args, e.Canonical IsName)
    (reads : ∀ e ∈ args, Reads alike inner e.pieces (e.ReadAs alike) (Token.Stops 5)) :
    Reads alike (suffix inner)
      (.word name :: .word "(" :: (Expression.listPieces args ++ [.word ")"]))
      (Suffix.ReadAs alike name (some args)) follow := by
  refine .identifier named.1 ?_
  refine .regroup (.behind (arguments_reads canonical reads) (.nil fun _ => id) fun read same => ?_)
    (by simp)
  exact .skip (fun _ => ⟨_, rfl⟩) fun _ => .pure ⟨rfl, .some same⟩

end Operand

/-! ### From level to level -/

/-- The precedence of the operators that bind as loosely as `looseness`. -/
def precedenceAt : Nat → Precedence
  | 2 => .multiplicative
  | 3 => .additive
  | 4 => .comparison
  | _ => .logical

theorem precedenceAt_looseness (precedence : Precedence) :
    precedenceAt precedence.looseness = precedence := by
  cases precedence <;> rfl

theorem looseness_precedenceAt_le (k : Nat) : (precedenceAt (k + 2)).looseness ≤ k + 2 := by
  match k with
  | 0 | 1 | 2 => decide
  | k + 3 => exact Nat.le_add_left 5 k

/-- The reader of expressions that bind no looser than `looseness`, given how to read those in
parentheses. -/
def upTo (inner : Reader Expression) : (looseness : Nat) → Reader Expression
  | 0 => operand inner
  | 1 => selection inner
  | k + 2 => level (precedenceAt (k + 2)) (upTo inner (k + 1))

variable (alike) in
/-- The expression is found on a level, up to what may go on behind it there. -/
def Ready (inner : Reader Expression) (e : Expression) : (looseness : Nat) → Prop
  | 0 => Reads alike (operand inner) e.pieces (e.ReadAs alike) (Token.Stops 0)
  | 1 =>
    Spine alike (operand inner) (Cursor.take? (hasText ".")) (fun _ => suffix inner) Suffix.attach
      e.pieces (e.ReadAs alike) (Token.Stops 0)
  | k + 2 =>
    Spine alike (upTo inner (k + 1)) (Cursor.take? (operatorAt (precedenceAt (k + 2))))
      (fun operator => do return (operator, ← upTo inner (k + 1)))
      (fun left (operator, right) => .combine operator left right)
      e.pieces (e.ReadAs alike) (Token.Stops (k + 1))

section Ready

variable {inner : Reader Expression} {e : Expression} {j k : Nat}

theorem Ready.reads (ready : Ready alike inner e k) :
    Reads alike (upTo inner k) e.pieces (e.ReadAs alike) (Token.Stops k) := by
  match k, ready with
  | 0, ready => exact ready
  | 1, ready =>
    refine Spine.reads ready (fun _ stops => stops.mono (Nat.zero_le 1)) fun c next => ?_
    exact take?_of_next fun token member =>
      hasText_of_ne ((next token member).not_member (Nat.le_refl 1))
  | k + 2, ready =>
    refine Spine.reads ready (fun _ stops => stops.mono (Nat.le_succ (k + 1))) fun c next => ?_
    exact take?_of_next fun token member =>
      (next token member).not_operator (looseness_precedenceAt_le k)

theorem Ready.succ (ready : Ready alike inner e k) : Ready alike inner e (k + 1) := by
  have reads := ready.reads
  match k with
  | 0 => exact .of_reads reads
  | k + 1 => exact .of_reads reads

theorem Ready.up (ready : Ready alike inner e j) (looser : j ≤ k) : Ready alike inner e k := by
  induction looser with
  | refl => exact ready
  | step _ ih => exact ih.succ

/-- One more member. -/
theorem Ready.attach {name : String} {args : Option (List Expression)}
    {receiver : Expression} {ps : List Piece} (ready : Ready alike inner receiver 1)
    (reads : Reads alike (suffix inner) ps (Suffix.ReadAs alike name args) (Token.Stops 0))
    (pieces : e.pieces = receiver.pieces ++ .word "." :: ps)
    (attached : ∀ read found, receiver.ReadAs alike read → Suffix.ReadAs alike name args found →
      e.ReadAs alike (Suffix.attach read found)) : Ready alike inner e 1 := by
  rw [Ready, pieces]
  refine Spine.snoc ready (.word fun token text k continues => ?_)
    (.of_reads fun token fits => ⟨token, hasText_of_eq fits.1, reads⟩) (List.cons_ne_nil _ _)
    attached
  rw [Token.continues?, text] at continues
  cases continues
  decide

theorem Ready.combine {note : Note} {operator : Operator} {left right : Expression}
    (left_ready : Ready alike inner left operator.looseness)
    (right_reads : Reads alike (upTo inner (operator.looseness - 1)) right.pieces
      (right.ReadAs alike) (Token.Stops (operator.looseness - 1))) :
    Ready alike inner (.binary note operator left right) operator.looseness := by
  obtain ⟨k, same⟩ := Nat.exists_eq_add_of_le' operator.looseness_bounds.1
  have level : precedenceAt (k + 2) = operator.precedence := by
    rw [← same]
    exact precedenceAt_looseness _
  rw [same] at left_ready right_reads ⊢
  rw [Ready, Expression.pieces]
  have item : Steps alike (Cursor.take? (operatorAt (precedenceAt (k + 2))))
      (fun operator => do return (operator, ← upTo inner (k + 1)))
      (.word operator.symbol :: right.pieces)
      (fun item : Operator × Expression => item.1 = operator ∧ right.ReadAs alike item.2)
      (Token.Stops (k + 1)) := by
    refine .of_reads fun token fits => ⟨operator, ?_, ?_⟩
    · rw [operatorAt, Operator.ofSymbol?_eq_some.mpr fits.1, level]
      simp
    · exact .last right_reads fun read same => .pure ⟨rfl, same⟩
  refine Spine.snoc left_ready (.word fun token text j continues => ?_) item
    (List.cons_ne_nil _ _) ?_
  · rw [Token.continues?_of_symbol text, same] at continues
    cases continues
    omega
  · rintro read ⟨_, right_read⟩ left_same ⟨rfl, right_same⟩
    exact .binary left_same right_same

/-- An expression that is ready on its own level is read, if it may nest that deep. -/
theorem expressionWithin_reads
    (ready : ∀ bound, e.pieces.length ≤ bound + 1 →
      Ready alike (expressionWithin bound) e e.looseness)
    (bound : Nat) (enough : e.pieces.length ≤ bound) :
    Reads alike (expressionWithin bound) e.pieces (e.ReadAs alike) (Token.Stops 5) := by
  cases bound with
  | zero => exact absurd (List.eq_nil_of_length_eq_zero (Nat.le_zero.mp enough)) e.pieces_ne_nil
  | succ bound => exact ((ready bound enough).up e.looseness_le).reads

end Ready

/-- An expression is ready on its own level. -/
theorem ready_of_canonical (size : Nat) : ∀ e : Expression, e.pieces.length ≤ size →
    e.Canonical IsName → ∀ bound, e.pieces.length ≤ bound + 1 →
    Ready alike (expressionWithin bound) e e.looseness := by
  induction size with
  | zero =>
    intro e small
    exact absurd (List.eq_nil_of_length_eq_zero (Nat.le_zero.mp small)) e.pieces_ne_nil
  | succ size ih =>
    intro e small canonical bound enough
    -- what stands in parentheses is shorter
    have inner : ∀ e' : Expression, e'.pieces.length ≤ size → e'.Canonical IsName →
        e'.pieces.length ≤ bound →
        Reads alike (expressionWithin bound) e'.pieces (e'.ReadAs alike) (Token.Stops 5) :=
      fun e' small' canonical' => expressionWithin_reads (ih e' small' canonical') bound
    have arguments : ∀ args : List Expression, (Expression.listPieces args).length ≤ size →
        (Expression.listPieces args).length ≤ bound → Expression.CanonicalAll IsName args →
        ∀ e' ∈ args,
          Reads alike (expressionWithin bound) e'.pieces (e'.ReadAs alike) (Token.Stops 5) := by
      intro args small' enough' canonical' e' member
      have shorter := Expression.length_pieces_le member
      exact inner e' (by omega) (Expression.canonicalAll_iff.mp canonical' e' member) (by omega)
    cases e with
    | literal => exact literal_reads
    | group note e' =>
      simp only [Expression.pieces, List.length_cons, List.length_append, List.length_nil]
        at small enough
      exact group_reads (inner e' (by omega) canonical (by omega))
    | access => exact access_reads canonical
    | call note name args =>
      obtain ⟨named, canonical⟩ := canonical
      simp only [Expression.pieces, List.length_cons, List.length_append, List.length_nil]
        at small enough
      exact call_reads named (Expression.canonicalAll_iff.mp canonical)
        (arguments args (by omega) (by omega) canonical)
    | memberAccess note receiver name =>
      obtain ⟨tight, canonical, named⟩ := canonical
      simp only [Expression.pieces, List.length_cons, List.length_append, List.length_nil]
        at small enough
      have ready := (ih receiver (by omega) canonical bound (by omega)).up tight
      refine ready.attach (suffix_access_reads named) rfl ?_
      rintro read ⟨_, _, stop⟩ same ⟨rfl, ⟨⟩⟩
      exact .memberAccess same
    | memberCall note receiver name args =>
      obtain ⟨tight, canonical, named, canonical'⟩ := canonical
      simp only [Expression.pieces, List.length_cons, List.length_append, List.length_nil]
        at small enough
      have ready := (ih receiver (by omega) canonical bound (by omega)).up tight
      refine ready.attach (suffix_call_reads named (Expression.canonicalAll_iff.mp canonical')
        (arguments args (by omega) (by omega) canonical')) rfl ?_
      rintro read ⟨_, _, stop⟩ same ⟨rfl, ⟨found_same⟩⟩
      exact .memberCall same found_same
    | binary note operator left right =>
      obtain ⟨leftTight, rightTight, leftCanonical, rightCanonical⟩ := canonical
      simp only [Expression.pieces, List.length_cons, List.length_append] at small enough
      have left_ready := (ih left (by omega) leftCanonical bound (by omega)).up leftTight
      have right_ready := ih right (by omega) rightCanonical bound (by omega)
      exact left_ready.combine (right_ready.up (Nat.le_sub_one_of_lt rightTight)).reads

theorem expression_reads {e : Expression} (canonical : e.Canonical IsName) :
    Reads alike expression e.pieces (e.ReadAs alike) (Token.Stops 5) :=
  .within (expressionWithin_reads (ready_of_canonical _ e (Nat.le_refl _) canonical))

end Reader

/-! ## Declarations -/

namespace Reader

section Declaration

variable {α : Type} {qs : List Piece} {good : α → Prop} {follow : Token → Prop}

/-- An optional type. -/
theorem annotation_reads {typeName : Option String} {next : Option String → Reader α}
    (named : ∀ type ∈ typeName, IsName type)
    (leads : Leads alike qs follow fun token => token.text ≠ ":")
    (then_reads : Reads alike (next typeName) qs good follow) :
    Reads alike (after ":" identifier >>= next) (annotationPieces typeName ++ qs) good follow := by
  cases typeName with
  | none => exact .without leads then_reads
  | some type =>
    have name : Reads alike identifier [.word type] (· = type) fun _ => True := by
      rw [← bind_pure identifier]
      exact .identifier (named type rfl).1 (.pure rfl)
    refine .behind name .always ?_
    rintro _ rfl
    exact then_reads

/-- An optional value in front of a semicolon. -/
theorem value_reads {value : Option Expression} {next : Option Expression → Reader α}
    (canonical : ∀ e ∈ value, e.Canonical IsName)
    (then_reads : ∀ read, Option.Rel (Expression.ReadAs alike) value read →
      Reads alike (next read) [.word ";"] good follow) :
    Reads alike (after "=" expression >>= next) (valuePieces value ++ [.word ";"]) good follow := by
  cases value with
  | none => exact .without (.word fun _ text => text ▸ by decide) (then_reads none .none)
  | some e =>
    refine .behind (expression_reads (canonical e rfl))
      (.word fun _ text => Token.stops_of_text text (by decide)) fun read same => ?_
    exact then_reads (some read) (.some same)

theorem declarationAfter_reads {decl : Declaration} (canonical : decl.Canonical IsName)
    (opening : Token) :
    Reads alike (declarationAfter opening) decl.pieces.tail (decl.ReadAs alike) follow := by
  obtain ⟨named, typed, valued⟩ := canonical
  refine .identifier named.1 (annotation_reads typed ?_ (value_reads valued fun read same => ?_))
  · cases decl.value with
    | none => exact .word fun _ text => text ▸ by decide
    | some => exact .word fun _ text => text ▸ by decide
  · exact .word fun _ => .skip (fun _ => ⟨_, rfl⟩) fun _ => .pure (.mk same)

end Declaration

end Reader

/-! ## Statements -/

namespace Statement

theorem pieces_ne_nil (s : Statement) : s.pieces ≠ [] := by
  cases s <;> simp [pieces, Declaration.pieces]

theorem length_pieces_le {s : Statement} {ss : List Statement} (member : s ∈ ss) :
    s.pieces.length ≤ (blockPieces ss).length := by
  induction ss with
  | nil => cases member
  | cons first ss ih =>
    rw [blockPieces, List.length_append]
    obtain rfl | member := List.mem_cons.mp member
    · omega
    · have shorter := ih member
      omega

/-- A statement does not begin with a word that ends a block. -/
theorem leads {s : Statement} (canonical : s.Canonical IsName) {follow : Token → Prop} :
    Leads alike s.pieces follow fun token => token.text ∉ ["ELSE", "END"] := by
  have endings : ["ELSE", "END"] ⊆ nonStarters := by decide
  have starts : ∀ token : Token, token.text ∉ nonStarters → token.text ∉ ["ELSE", "END"] :=
    fun token free ending => free (endings ending)
  cases s with
  | expression value => exact Expression.leads canonical starts _
  | assignment target value => exact Expression.leads canonical.1 starts _
  | _ => exact .word fun token text => text ▸ by decide

end Statement

namespace Reader

section Statement

variable {inner : Reader Statement} {ss : List Statement} {follow : Token → Prop}

theorem block_reads {terminators : List String} (endings : terminators ⊆ ["ELSE", "END"])
    (canonical : Statement.CanonicalAll IsName ss)
    (reads : ∀ s ∈ ss, Reads alike inner s.pieces (s.ReadAs alike) fun _ => True) :
    Reads alike (block terminators inner) (Statement.blockPieces ss)
      (List.Forall₂ (Statement.ReadAs alike) ss) fun token => token.text ∈ terminators := by
  rw [Statement.blockPieces_eq]
  refine many_reads (fun s _ => s.pieces_ne_nil) (fun _ _ _ => .always)
    (fun s member c rest front follows => ?_) (fun _ _ => trivial) fun c next => ?_
  · obtain ⟨a, d, read, rest_eq, holds⟩ := reads s member c rest front follows
    refine ⟨(), c, a, d, ?_, read, rest_eq, holds⟩
    have begins :=
      Statement.leads (Statement.canonicalAll_iff.mp canonical s member) _ _ front follows
    cases tokens : c.rest with
    | nil =>
      have length := front.length
      have positive := List.length_pos_iff.mpr s.pieces_ne_nil
      simp only [tokens, List.length_nil] at length
      omega
    | cons token others =>
      have free : token.text ∉ terminators := fun ending =>
        begins token (by rw [tokens]; rfl) (endings ending)
      simp [blockContinues, tokens, free]
  · cases tokens : c.rest with
    | nil => simp [blockContinues, tokens]
    | cons token others =>
      have ending : token.text ∈ terminators := next token (by rw [tokens]; rfl)
      simp [blockContinues, tokens, ending]

theorem body_reads (canonical : Statement.CanonicalAll IsName ss)
    (reads : ∀ s ∈ ss, Reads alike inner s.pieces (s.ReadAs alike) fun _ => True) :
    Reads alike (body inner) (.word "DO" :: (Statement.blockPieces ss ++ [.word "END"]))
      (List.Forall₂ (Statement.ReadAs alike) ss) follow := by
  refine .word fun _ => .bind (block_reads (by decide) canonical reads)
    (.word fun _ text => List.mem_singleton.mpr text) fun read same => ?_
  exact .word fun _ => .pure same

/-- An `ELSE` is there only if it has statements. -/
theorem else_reads {α : Type} {good : α → Prop} {next : Option (List Statement) → Reader α}
    (canonical : Statement.CanonicalAll IsName ss)
    (reads : ∀ s ∈ ss, Reads alike inner s.pieces (s.ReadAs alike) fun _ => True)
    (then_reads : ∀ read, List.Forall₂ (Statement.ReadAs alike) ss (read.getD []) →
      Reads alike (next read) [.word "END"] good follow) :
    Reads alike (after "ELSE" (block ["END"] inner) >>= next)
      ((if ss.isEmpty then [] else .word "ELSE" :: Statement.blockPieces ss) ++ [.word "END"])
      good follow := by
  cases ss with
  | nil => exact .without (.word fun _ text => text ▸ by decide) (then_reads none .nil)
  | cons s ss =>
    refine .behind (block_reads (by decide) canonical reads)
      (.word fun _ text => List.mem_singleton.mpr text) fun read same => ?_
    exact then_reads (some read) same

/-- A word that begins a statement of its own kind. -/
theorem opened_reads {α : Type} {opening : StatementWord} {text : String} {qs : List Piece}
    {good : α → Prop} {next : Option (StatementWord × Token) → Reader α}
    (opens : StatementWord.ofText? text = some opening)
    (reads : ∀ token, Reads alike (next (some (opening, token))) qs good follow) :
    Reads alike (optional statementWord? >>= next) (.word text :: qs) good follow := by
  refine .opened fun token fits => ⟨(opening, token), ?_, reads token⟩
  rw [statementWord?, fits.1, opens]
  rfl

/-- An expression or an assignment. -/
theorem simple_reads {s : Statement} {target : Expression} (value : Option Expression)
    (canonical : target.Canonical IsName) (valued : ∀ e ∈ value, e.Canonical IsName)
    (same : ∀ read found, target.ReadAs alike read →
      Option.Rel (Expression.ReadAs alike) value found → s.ReadAs alike (match found with
        | some found => .assignment read found
        | none => .expression read)) :
    Reads alike (statementUsing inner) (target.pieces ++ (valuePieces value ++ [.word ";"]))
      (s.ReadAs alike) follow := by
  have noWord : ∀ token : Token, token.text ∉ nonStarters → statementWord? token = none := by
    intro token free
    rw [statementWord?, Option.map_eq_none_iff]
    unfold StatementWord.ofText?
    split
    case h_6 => rfl
    all_goals simp_all [nonStarters]
  refine .unopened (Expression.leads canonical noWord _) ?_
  refine .bind (expression_reads canonical) ?_ fun read read_same => ?_
  · cases value with
    | none => exact .word fun _ text => Token.stops_of_text text (by decide)
    | some => exact .word fun _ text => Token.stops_of_text text (by decide)
  · refine value_reads valued fun found found_same => .word fun _ => ?_
    have holds := same read found read_same found_same
    cases found with
    | none => exact .pure holds
    | some => exact .pure holds

theorem conditional_reads {condition : Expression} {thenBody elseBody : List Statement}
    (canonical : condition.Canonical IsName)
    (canonicalThen : Statement.CanonicalAll IsName thenBody)
    (canonicalElse : Statement.CanonicalAll IsName elseBody)
    (thenReads : ∀ s ∈ thenBody, Reads alike inner s.pieces (s.ReadAs alike) fun _ => True)
    (elseReads : ∀ s ∈ elseBody, Reads alike inner s.pieces (s.ReadAs alike) fun _ => True) :
    Reads alike (statementUsing inner)
      (Statement.pieces (.conditional condition thenBody elseBody))
      (Statement.ReadAs alike (.conditional condition thenBody elseBody)) follow := by
  refine opened_reads rfl fun _ => .bind (expression_reads canonical)
    (.word fun _ text => Token.stops_of_text text (by decide)) fun read same => .word fun _ => ?_
  refine .bind (block_reads (List.Subset.refl _) canonicalThen thenReads) ?_
    fun read_then then_same => ?_
  · cases elseBody with
    | nil => exact .word fun _ text => by simp [text]
    | cons => exact .word fun _ text => by simp [text]
  · refine else_reads canonicalElse elseReads fun read_else else_same => ?_
    exact .word fun _ => .pure (.conditional same then_same else_same)

/-- A statement is read, if it may nest as deep as it has pieces. -/
theorem statementWithin_reads (bound : Nat) (s : Statement) (canonical : s.Canonical IsName)
    (enough : s.pieces.length ≤ bound) :
    Reads alike (statementWithin bound) s.pieces (s.ReadAs alike) follow := by
  induction bound generalizing s follow with
  | zero => exact absurd (List.eq_nil_of_length_eq_zero (Nat.le_zero.mp enough)) s.pieces_ne_nil
  | succ bound ih =>
    -- the bound is one on pieces, and a statement inside this one has fewer of them
    have nested : ∀ ss, Statement.CanonicalAll IsName ss →
        (Statement.blockPieces ss).length ≤ bound →
        ∀ s ∈ ss, Reads alike (statementWithin bound) s.pieces (s.ReadAs alike) fun _ => True := by
      intro ss canonical enough s member
      exact ih s (Statement.canonicalAll_iff.mp canonical s member)
        (Nat.le_trans (Statement.length_pieces_le member) enough)
    have stops : ∀ {token : Token}, token.text = "DO" → token.Stops 5 :=
      fun text => Token.stops_of_text text (by decide)
    cases s with
    | expression value =>
      refine simple_reads none canonical nofun ?_
      rintro read _ same ⟨⟩
      exact .expression same
    | declaration decl =>
      exact opened_reads rfl fun opening => .last (declarationAfter_reads canonical opening)
        fun read same => .pure (.declaration same)
    | assignment target value =>
      obtain ⟨canonical, valued⟩ := canonical
      refine simple_reads (some value) canonical (by rintro _ ⟨⟩; exact valued) ?_
      rintro read _ same ⟨value_same⟩
      exact .assignment same value_same
    | conditional condition thenBody elseBody =>
      obtain ⟨canonical, canonicalThen, canonicalElse⟩ := canonical
      simp only [Statement.pieces, List.length_cons, List.length_append, List.length_nil] at enough
      refine conditional_reads canonical canonicalThen canonicalElse
        (nested thenBody canonicalThen (by omega)) (nested elseBody canonicalElse ?_)
      cases elseBody with
      | nil => exact Nat.zero_le bound
      | cons =>
        simp only [List.isEmpty_cons, Bool.false_eq_true, if_false, List.length_cons] at enough
        omega
    | forEach name range statements =>
      obtain ⟨named, canonical, canonicals⟩ := canonical
      simp only [Statement.pieces, List.length_cons, List.length_append, List.length_nil] at enough
      refine opened_reads rfl fun _ => .identifier named.1 <| .word fun _ =>
        .bind (expression_reads canonical) (.word fun _ => stops) fun read same =>
          .last (body_reads canonicals (nested statements canonicals (by omega)))
            fun read_body body_same => .pure (.forEach same body_same)
    | loop condition statements =>
      obtain ⟨canonical, canonicals⟩ := canonical
      simp only [Statement.pieces, List.length_cons, List.length_append, List.length_nil] at enough
      refine opened_reads rfl fun _ =>
        .bind (expression_reads canonical) (.word fun _ => stops) fun read same =>
          .last (body_reads canonicals (nested statements canonicals (by omega)))
            fun read_body body_same => .pure (.loop same body_same)
    | result value =>
      refine opened_reads rfl fun _ => .bind (expression_reads canonical)
        (.word fun _ text => Token.stops_of_text text (by decide)) fun read same => ?_
      exact .word fun _ => .pure (.result same)

theorem statement_reads {s : Statement} (canonical : s.Canonical IsName) :
    Reads alike statement s.pieces (s.ReadAs alike) follow :=
  .within fun bound enough => statementWithin_reads bound s canonical enough

end Statement

end Reader

/-! ## Methods and programs -/

namespace Reader

section Program

variable {follow : Token → Prop}

theorem parameter_reads {param : Parameter} (canonical : param.Canonical IsName) :
    Reads alike parameter param.pieces (param = ·) follow :=
  .identifier canonical.1.1 <| .word fun _ => .identifier canonical.2.1 <| .pure rfl

theorem methodAfter_reads {m : Method} (canonical : m.Canonical IsName) (opening : Token) :
    Reads alike (methodAfter opening) m.pieces.tail (m.ReadAs alike) follow := by
  obtain ⟨named, parameters, typed, canonical⟩ := canonical
  have listed : Reads alike (commaSeparated parameter)
      (commaPieces Parameter.pieces m.parameters ++ [.word ")"])
      (List.Forall₂ Eq m.parameters) fun _ => True := by
    refine commaSeparated_reads (fun param member qs => .word fun token text closing => ?_)
      (fun param member => parameter_reads (parameters param member))
      (fun _ _ => trivial) fun _ _ => trivial
    have named := (parameters param member).1.not_nonStarter
    rw [← text, closing] at named
    exact named (by decide)
  refine .identifier named.1 <| .word fun _ => ?_
  refine .regroup (.bind listed .always fun read same => ?_) (List.append_cons _ _ _)
  rw [List.forall₂_eq_eq_eq] at same
  subst same
  refine annotation_reads typed (.word fun _ text => text ▸ by decide) ?_
  refine .last (body_reads canonical fun s member => statement_reads
    (Statement.canonicalAll_iff.mp canonical s member)) fun read_body body_same => ?_
  exact .skip (fun _ => ⟨_, rfl⟩) fun _ => .pure (.mk body_same)

theorem atEnd_reads : Reads alike atEnd [] (fun _ => True) fun _ => False := by
  intro c rest front follows
  rw [front_nil] at front
  subst front
  cases tokens : c.rest with
  | nil => exact ⟨(), c, by rw [atEnd, tokens], tokens, trivial⟩
  | cons token others => exact (follows token (by rw [tokens]; rfl)).elim

theorem program_reads {p : Program} (canonical : p.Canonical IsName) :
    Reads alike program p.pieces (p.ReadAs alike) fun _ => False := by
  obtain ⟨fields, methods⟩ := canonical
  have readFields : Reads alike (many (Cursor.take? (hasText "LET")) declarationAfter)
      (p.fields.flatMap Declaration.pieces) (List.Forall₂ (Declaration.ReadAs alike) p.fields)
      fun token => token.text = "DEF" := by
    refine many_reads (fun _ _ => List.cons_ne_nil _ _) (fun _ _ _ => .always)
      (fun decl member => .of_reads fun token fits =>
        ⟨token, hasText_of_eq fits.1, declarationAfter_reads (fields decl member) token⟩)
      (fun _ _ => trivial) fun c next => take?_of_next fun token member => hasText_of_ne ?_
    rw [next token member]
    decide
  have readMethods : Reads alike (many (Cursor.take? (hasText "DEF")) methodAfter)
      (p.methods.flatMap Method.pieces) (List.Forall₂ (Method.ReadAs alike) p.methods)
      fun _ => False := by
    refine many_reads (fun _ _ => List.cons_ne_nil _ _) (fun _ _ _ => .always)
      (fun m member => .of_reads fun token fits =>
        ⟨token, hasText_of_eq fits.1, methodAfter_reads (methods m member) token⟩)
      (fun _ _ => trivial) fun c next => take?_of_next fun token member => (next token member).elim
  refine .bind readFields ?_ fun read_fields fields_same => ?_
  · cases p.methods with
    | nil => exact .nil fun _ => False.elim
    | cons => exact .word fun _ text => text
  · refine .last readMethods fun read_methods methods_same => .last atEnd_reads fun _ _ => ?_
    exact .pure ⟨fields_same, methods_same⟩

end Program

end Reader

/-- The tokens of a canonical program are read as that program. -/
theorem Program.ofTokens_of_fits {p : Program} {tokens : List Token}
    (canonical : p.Canonical IsName) (fits : List.Forall₂ (Piece.Fits alike) p.pieces tokens) :
    ∃ read, Program.ofTokens tokens = .ok read ∧ p.ReadAs alike read := by
  obtain ⟨read, d, read_eq, -, same⟩ := Reader.program_reads canonical { rest := tokens } []
    ⟨tokens, (List.append_nil tokens).symm, fits⟩ nofun
  refine ⟨read, ?_, same⟩
  rw [Program.ofTokens, StateT.run, read_eq]
  rfl

end Primer
