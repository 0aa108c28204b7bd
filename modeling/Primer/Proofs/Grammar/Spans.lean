import Primer.Proofs.Grammar.Earliest
import Primer.Proofs.Grammar.Spelling
import Primer.Proofs.Syntax.Everywhere

/-!
# Spans delimit the tokens of a node

The span of an expression, a declaration or a method runs from the start of a token to the end of a
token.  The tokens from the one to the other are the node's own (`SourceNode.Delimits`): read by
themselves, they give the node and nothing is left.  The tokens of the nodes inside it are among
them, each range behind the one before (`SourceNode.Placed`).

For expressions this comes from `Spells`, for declarations and methods from the readers being
prompt.  Nothing is asked of the tokens, whose own spans may be anything.
-/

namespace Primer

open Reader

/-! ## Nodes with a span -/

inductive SourceNode where
  | expression (e : Expression)
  | declaration (decl : Declaration)
  | method (m : Method)

/-- The expressions right inside an expression, in the order of the source. -/
def Expression.children : Expression → List Expression
  | .literal .. | .access .. => []
  | .group _ inner => [inner]
  | .binary _ _ left right => [left, right]
  | .memberAccess _ receiver _ _ => [receiver]
  | .call _ _ args _ => args
  | .memberCall _ receiver _ args _ => receiver :: args

namespace Statement

mutual

/-- The outermost nodes of a statement, in the order of the source. -/
def nodes : Statement → List SourceNode
  | .expression value | .result value => [.expression value]
  | .declaration decl => [.declaration decl]
  | .assignment target value => [.expression target, .expression value]
  | .conditional condition thenBody elseBody =>
    .expression condition :: (allNodes thenBody ++ allNodes elseBody)
  | .forEach _ head body | .loop head body => .expression head :: allNodes body

def allNodes : List Statement → List SourceNode
  | [] => []
  | s :: ss => s.nodes ++ allNodes ss

end

end Statement

namespace SourceNode

def span : SourceNode → Span
  | .expression e => e.span
  | .declaration decl => decl.span
  | .method m => m.span

/-- The outermost nodes inside a node, in the order of the source. -/
def children : SourceNode → List SourceNode
  | .expression e => e.children.map .expression
  | .declaration decl => decl.value.toList.map .expression
  | .method m => Statement.allNodes m.body

/-- Between two words, reading gives the result and leaves nothing. -/
def Bracketed {α : Type} (opening closing : String) (item : Token → Reader α) (ts : List Token)
    (a : α) : Prop :=
  ∃ first inside last, ts = first :: (inside ++ [last]) ∧ first.text = opening ∧
    last.text = closing ∧
    item first ⟨inside ++ [last], first.span.stop⟩ = .ok (a, ⟨[], last.span.stop⟩)

/-- Reading just these tokens gives the node. -/
def IsReadFrom (ts : List Token) : SourceNode → Prop
  | .expression e => ∀ last, Reader.expression ⟨ts, last⟩ = .ok (e, ⟨[], e.span.stop⟩)
  | .declaration decl => Bracketed "LET" ";" declarationAfter ts decl
  | .method m => Bracketed "DEF" "END" methodAfter ts m

/-- The tokens are those of the node, and its span runs from the first of them to the last. -/
structure Delimits (ts : List Token) (node : SourceNode) : Prop where
  ends : ∃ first last, ts.head? = some first ∧ ts.getLast? = some last ∧
    node.span = ⟨first.span.start, last.span.stop⟩
  read : node.IsReadFrom ts

/-- The ranges lie in the tokens, each behind the one before. -/
inductive InOrder : List Token → List (List Token) → Prop
  | nil {ts : List Token} : InOrder ts []
  | cons {gap ts us : List Token} {ranges : List (List Token)} :
    InOrder us ranges → InOrder (gap ++ ts ++ us) (ts :: ranges)

/-- The tokens delimit the node, and in order among them are ranges that do so for the nodes
inside. -/
inductive Placed : List Token → SourceNode → Prop
  | mk {ts : List Token} {node : SourceNode} {parts : List (List Token × SourceNode)} :
    Delimits ts node → parts.map Prod.snd = node.children → InOrder ts (parts.map Prod.fst) →
    (∀ part ∈ parts, Placed part.1 part.2) → Placed ts node

/-- The nodes are placed in the tokens in this order. -/
def Laid (ts : List Token) (nodes : List SourceNode) : Prop :=
  ∃ parts : List (List Token × SourceNode), parts.map Prod.snd = nodes ∧
    InOrder ts (parts.map Prod.fst) ∧ ∀ part ∈ parts, Placed part.1 part.2

/-! ## Ranges in order -/

section

variable {ts us : List Token} {ranges others : List (List Token)} {node : SourceNode}
  {nodes more : List SourceNode}

theorem InOrder.pad (before : List Token) (inOrder : InOrder ts ranges) :
    InOrder (before ++ ts) ranges := by
  cases inOrder with
  | nil => exact .nil
  | @cons gap range rest _ others =>
    rw [← List.append_assoc, ← List.append_assoc]
    exact .cons others

theorem InOrder.append (first : InOrder ts ranges) (second : InOrder us others) :
    InOrder (ts ++ us) (ranges ++ others) := by
  induction first with
  | nil => exact second.pad _
  | cons _ ih =>
    rw [List.append_assoc]
    exact .cons ih

theorem Laid.nil : Laid ts [] :=
  ⟨[], rfl, .nil, nofun⟩

theorem Laid.append (first : Laid ts nodes) (second : Laid us more) :
    Laid (ts ++ us) (nodes ++ more) := by
  obtain ⟨parts, rfl, inOrder, placed⟩ := first
  obtain ⟨parts', rfl, inOrder', placed'⟩ := second
  refine ⟨parts ++ parts', List.map_append, ?_, List.forall_mem_append.mpr ⟨placed, placed'⟩⟩
  rw [List.map_append]
  exact inOrder.append inOrder'

theorem Laid.behind (before : List Token) (laid : Laid ts nodes) : Laid (before ++ ts) nodes := by
  have front : Laid before [] := .nil
  exact front.append laid

theorem Laid.before (behind : List Token) (laid : Laid ts nodes) : Laid (ts ++ behind) nodes := by
  have back : Laid behind [] := .nil
  have padded := laid.append back
  rwa [List.append_nil] at padded

theorem Placed.laid (placed : Placed ts node) : Laid ts [node] := by
  have whole : InOrder ([] ++ ts ++ []) [ts] := .cons .nil
  rw [List.append_nil] at whole
  exact ⟨[(ts, node)], rfl, whole, List.forall_mem_singleton.mpr placed⟩

theorem Placed.of_laid (delimits : Delimits ts node) (laid : Laid ts node.children) :
    Placed ts node := by
  obtain ⟨parts, same, inOrder, placed⟩ := laid
  exact .mk delimits same inOrder placed

end

end SourceNode

open SourceNode

/-! ## Expressions -/

theorem BehindCommas.inOrder {us : List Token} {ranges : List (List Token)}
    (commas : BehindCommas us ranges) : InOrder us ranges := by
  induction commas with
  | nil => exact .nil
  | @cons comma ts us ranges _ _ ih =>
    have first : InOrder ([comma] ++ ts ++ us) (ts :: ranges) := .cons ih
    exact first

theorem Enclosed.inOrder {us : List Token} {ranges : List (List Token)}
    (enclosed : Enclosed us ranges) : InOrder us ranges := by
  cases enclosed with
  | empty => exact .nil
  | @listed opening closing ts us ranges _ _ commas =>
    have others : InOrder (us ++ [closing]) (ranges ++ []) := commas.inOrder.append .nil
    have first : InOrder ([opening] ++ ts ++ (us ++ [closing])) (ts :: ranges ++ []) := .cons others
    rw [List.append_nil] at first
    simpa using first

theorem Enclosed.laid {us : List Token} {parts : Parts}
    (enclosed : Enclosed us (parts.map Prod.fst))
    (placed : ∀ part ∈ parts, Placed part.1 (.expression part.2)) :
    Laid us ((parts.map Prod.snd).map .expression) := by
  refine ⟨parts.map fun part => (part.1, .expression part.2), ?_, ?_, ?_⟩
  · rw [List.map_map, List.map_map]
    rfl
  · rw [List.map_map]
    exact enclosed.inOrder
  · intro part member
    obtain ⟨part, listed, rfl⟩ := List.mem_map.mp member
    exact placed part listed

namespace Spells

variable {k : Nat} {ts : List Token} {e : Expression}

theorem up {j : Nat} (spells : Spells j ts e) (looser : j ≤ k) : Spells k ts e := by
  induction looser with
  | refl => exact spells
  | step _ ih => exact ih.tighter

theorem starts (spells : Spells k ts e) :
    ∃ first, ts.head? = some first ∧ e.span.start = first.span.start := by
  induction spells with
  | tighter _ ih => exact ih
  | memberAccess _ _ _ ih | memberCall _ _ _ _ _ ih | binary _ _ _ ih =>
    obtain ⟨first, head, start⟩ := ih
    refine ⟨first, ?_, start⟩
    rw [List.head?_append, head]
    rfl
  | _ => exact ⟨_, rfl, rfl⟩

theorem stops (spells : Spells k ts e) (start : Nat) : endOf start ts = e.span.stop := by
  induction spells generalizing start with
  | tighter _ ih => exact ih start
  | literal | access => rfl
  | group => exact endOf_concat
  | call => exact endOf_cons
  | memberAccess =>
    rw [endOf_append]
    rfl
  | memberCall =>
    rw [endOf_append, endOf_cons, endOf_cons]
    rfl
  | binary _ _ _ _ ih =>
    rw [endOf_append, endOf_cons, ih]
    rfl

theorem delimits (spells : Spells 5 ts e) : Delimits ts (.expression e) where
  ends := by
    obtain ⟨first, head, start⟩ := spells.starts
    have nonempty : ts ≠ [] := by
      intro none_left
      rw [none_left] at head
      cases head
    have stop := spells.stops 0
    rw [endOf, List.getLast?_eq_some_getLast nonempty] at stop
    refine ⟨first, ts.getLast nonempty, head, List.getLast?_eq_some_getLast nonempty, ?_⟩
    rw [SourceNode.span, ← start]
    exact congrArg (Span.mk e.span.start) stop.symm
  read := by
    intro last
    have nothing : Next (Token.Stops 5) [] := nofun
    have read := spells.readFrom.expression_eq_ok last nothing
    rwa [List.append_nil, spells.stops] at read

/-- An expression is placed in the tokens that spell it. -/
theorem placed (spells : Spells k ts e) (loosest : k ≤ 5) : Placed ts (.expression e) := by
  have delimits := (spells.up loosest).delimits
  induction spells with
  | tighter _ ih => exact ih (Nat.le_of_succ_le loosest) delimits
  | literal | access => exact .of_laid delimits .nil
  | @group opening closing ts inner _ inside _ ih =>
    refine .of_laid delimits ?_
    exact ((ih (Nat.le_refl 5) inside.delimits).laid.behind [opening]).before [closing]
  | @call token _ us _ _ enclosed inside ih =>
    refine .of_laid delimits ?_
    have arguments := enclosed.laid fun part member =>
      ih part member (Nat.le_refl 5) (inside part member).delimits
    exact arguments.behind [token]
  | @memberAccess point name ts _ receiver _ _ ih =>
    refine .of_laid delimits ?_
    exact (ih (by decide) (receiver.up (by decide)).delimits).laid.before [point, name]
  | @memberCall point name ts us _ _ receiver _ _ enclosed inside ih ihParts =>
    refine .of_laid delimits ?_
    have arguments := enclosed.laid fun part member =>
      ihParts part member (Nat.le_refl 5) (inside part member).delimits
    have first := ih (by decide) (receiver.up (by decide)).delimits
    exact first.laid.append (arguments.behind [point, name])
  | @binary operator token ts us _ _ left _ right ih ihRight =>
    refine .of_laid delimits ?_
    have tight : operator.looseness - 1 ≤ 5 := Nat.le_trans (Nat.sub_le _ _) loosest
    have first := ih loosest (left.up loosest).delimits
    have second := ihRight tight (right.up tight).delimits
    exact first.laid.append (second.laid.behind [token])

end Spells

/-! ## Statements -/

namespace Reader

variable {α β : Type} {c d : Cursor} {earlier : List SourceNode} {nodes : α → List SourceNode}

/-- The reader takes tokens in which the nodes of its result are placed, but for the earlier ones,
which come first. -/
def Lays (earlier : List SourceNode) (reader : Reader α) (nodes : α → List SourceNode) : Prop :=
  ∀ c d a, reader c = .ok (a, d) →
    ∃ ts added, c.rest = ts ++ d.rest ∧ nodes a = earlier ++ added ∧ Laid ts added

namespace Lays

theorem pure {a : α} (same : nodes a = earlier) : Lays earlier (pure a) nodes := by
  intro c d b read
  obtain ⟨rfl, rfl⟩ := pure_eq_ok.mp read
  exact ⟨[], [], rfl, by rw [same, List.append_nil], .nil⟩

theorem bind {first : Reader β} {next : β → Reader α} {inside : β → List SourceNode}
    (lays : Lays [] first inside) (then_lays : ∀ b, Lays (earlier ++ inside b) (next b) nodes) :
    Lays earlier (first >>= next) nodes := by
  intro c d a read
  obtain ⟨b, m, front, back⟩ := bind_eq_ok.mp read
  obtain ⟨ts, added, taken, same, laid⟩ := lays c m b front
  obtain ⟨us, added', taken', same', laid'⟩ := then_lays b m d a back
  refine ⟨ts ++ us, added ++ added', ?_, ?_, laid.append laid'⟩
  · rw [taken, taken', List.append_assoc]
  · rw [same', same, List.nil_append, List.append_assoc]

/-- A step that reads no node. -/
theorem skip {first : Reader β} {next : β → Reader α} {derives : List Token → β → Prop}
    (sound : Sound first derives) (then_lays : ∀ b, Lays earlier (next b) nodes) :
    Lays earlier (first >>= next) nodes := by
  intro c d a read
  obtain ⟨b, m, front, back⟩ := bind_eq_ok.mp read
  obtain ⟨ts, taken, -⟩ := sound c m b front
  obtain ⟨us, added, taken', same, laid⟩ := then_lays b m d a back
  refine ⟨ts ++ us, added, ?_, same, laid.behind ts⟩
  rw [taken, taken', List.append_assoc]

theorem word {text : String} {next : Token → Reader α}
    (then_lays : ∀ token, Lays earlier (next token) nodes) :
    Lays earlier (word text >>= next) nodes := by
  have sound : Sound (Reader.word text) fun ts token => ts = [token] := by
    intro c d token read
    exact ⟨[token], (word_eq_ok read).1, rfl⟩
  exact .skip sound then_lays

/-- The nodes come behind a token that has been taken before. -/
theorem behind {token : Token} {reader : Reader α} {a : α} (lays : Lays [] reader nodes)
    (head : c.rest = token :: d.rest) {e : Cursor} (read : reader d = .ok (a, e)) :
    ∃ ts added, c.rest = ts ++ e.rest ∧ nodes a = [] ++ added ∧ Laid ts added := by
  obtain ⟨ts, added, taken, same, laid⟩ := lays d e a read
  exact ⟨[token] ++ ts, added, by rw [head, taken]; rfl, same, laid.behind [token]⟩

theorem after {text : String} {item : Reader α} (lays : Lays [] item nodes) :
    Lays [] (after text item) fun found => (found.map nodes).getD [] := by
  intro c d found read
  obtain ⟨rfl, rfl⟩ | ⟨token, m, a, head, -, inside, rfl⟩ := after_eq_ok read
  · exact ⟨[], [], rfl, rfl, .nil⟩
  · exact lays.behind head inside

end Lays

theorem expression_lays : Lays [] expression fun e => [.expression e] := by
  intro c d e read
  obtain ⟨ts, taken, spells⟩ := expression_spells c d e read
  exact ⟨ts, [.expression e], taken, rfl, (spells.placed (Nat.le_refl 5)).laid⟩

theorem spanFrom_sound {start : Nat} : Sound (spanFrom start) fun ts _ => ts = [] := by
  intro c d span read
  cases read
  exact ⟨[], rfl, rfl⟩

/-- What is read up to a closing word is also read by itself, and its nodes are placed there. -/
theorem bracketed {item : Token → Reader α} {opening closing : Token} {before : List Token} {a : α}
    {text text' : String} (prompt : Prompt (c.rest.length + 1) Anything Anything (item opening))
    (lays : Lays [] (item opening) nodes) (opens : opening.text = text)
    (start : c.last = opening.span.stop) (read : item opening c = .ok (a, d))
    (taken : c.rest = before ++ closing :: d.rest) (closes : closing.text = text')
    (stop : d.last = closing.span.stop) :
    Bracketed text text' item (opening :: (before ++ [closing])) a ∧
      Laid (opening :: (before ++ [closing])) (nodes a) := by
  have whole : c.rest = (before ++ [closing]) ++ d.rest := by
    rw [taken]
    simp
  constructor
  · refine ⟨opening, before, closing, rfl, opens, closes, ?_⟩
    obtain ⟨used, tokens, -, others⟩ := (prompt.prompt c (Nat.lt_succ_self _)).finds a d read
    have alone := others [] (.inr .always)
    rw [List.append_nil, List.append_cancel_right (tokens.symm.trans whole), start, stop] at alone
    exact alone
  · obtain ⟨ts, added, tokens, same, laid⟩ := lays c d a read
    rw [List.append_cancel_right (tokens.symm.trans whole)] at laid
    rw [same]
    exact laid.behind [opening]

theorem delimits_of_bracketed {node : SourceNode} {opening closing : Token} {before : List Token}
    (span : node.span = ⟨opening.span.start, closing.span.stop⟩)
    (read : node.IsReadFrom (opening :: (before ++ [closing]))) :
    Delimits (opening :: (before ++ [closing])) node where
  ends := by
    refine ⟨opening, closing, rfl, ?_, span⟩
    rw [← List.cons_append, List.getLast?_concat]
  read := read

/-! ### Declarations -/

theorem declarationAfter_lays (opening : Token) :
    Lays [] (declarationAfter opening) fun decl => decl.value.toList.map .expression := by
  refine .skip identifier_sound fun name => ?_
  refine .skip (after_sound .name ":" identifier_sound) fun typeName => ?_
  refine .bind (.after expression_lays) fun value => ?_
  refine .word fun _ => .skip spanFrom_sound fun span => .pure ?_
  cases value <;> rfl

theorem declarationAfter_ends {opening : Token} {decl : Declaration}
    (read : declarationAfter opening c = .ok (decl, d)) :
    ∃ before closing, c.rest = before ++ closing :: d.rest ∧ closing.text = ";" ∧
      d.last = closing.span.stop ∧ decl.span = ⟨opening.span.start, closing.span.stop⟩ := by
  obtain ⟨name, m, named, rest⟩ := bind_eq_ok.mp read
  obtain ⟨typeName, m₁, typed, rest⟩ := bind_eq_ok.mp rest
  obtain ⟨value, m₂, valued, rest⟩ := bind_eq_ok.mp rest
  obtain ⟨closing, m₃, closed, rest⟩ := bind_eq_ok.mp rest
  obtain ⟨span, m₄, placed, done⟩ := bind_eq_ok.mp rest
  obtain ⟨rfl, rfl⟩ := pure_eq_ok.mp done
  cases placed
  obtain ⟨ts, taken, -⟩ := identifier_sound _ _ _ named
  obtain ⟨us, taken', -⟩ := after_sound .name ":" identifier_sound _ _ _ typed
  obtain ⟨vs, taken'', -⟩ := after_sound (.expression 5) "=" expression_sound _ _ _ valued
  obtain ⟨behind, closes⟩ := word_eq_ok closed
  refine ⟨ts ++ us ++ vs, closing, ?_, closes, word_last closed, ?_⟩
  · simp [taken, taken', taken'', behind]
  · rw [word_last closed]

theorem declarationAfter_placed {opening : Token} {decl : Declaration}
    (opens : opening.text = "LET") (start : c.last = opening.span.stop)
    (read : declarationAfter opening c = .ok (decl, d)) :
    ∃ ts, c.rest = ts ++ d.rest ∧ Placed (opening :: ts) (.declaration decl) := by
  obtain ⟨before, closing, taken, closes, stop, span⟩ := declarationAfter_ends read
  obtain ⟨alone, laid⟩ := bracketed (declarationAfter_prompt opening)
    (declarationAfter_lays opening) opens start read taken closes stop
  refine ⟨before ++ [closing], by simp [taken], ?_⟩
  exact .of_laid (delimits_of_bracketed span alone) laid

/-! ### Blocks -/

section

variable {inner : Reader Statement} (lays : Lays [] inner Statement.nodes)

include lays

theorem block_lays (terminators : List String) :
    Lays [] (block terminators inner) Statement.allNodes := by
  intro c d statements read
  have step : ∀ (c m d : Cursor) (opening : Unit) s,
      blockContinues terminators c = some (opening, m) → inner m = .ok (s, d) →
      ∃ ts, c.rest = ts ++ d.rest ∧ Laid ts s.nodes := by
    intro c m d opening s continues inside
    rw [blockContinues_eq_some continues] at inside
    obtain ⟨ts, added, taken, same, laid⟩ := lays c d s inside
    rw [List.nil_append] at same
    exact ⟨ts, taken, same ▸ laid⟩
  obtain ⟨ts, taken, repeats⟩ := many_sound step _ _ _ read
  refine ⟨ts, Statement.allNodes statements, taken, rfl, ?_⟩
  clear read taken
  induction repeats with
  | nil => exact .nil
  | cons first _ ih => exact first.append ih

theorem body_lays : Lays [] (body inner) Statement.allNodes := by
  refine .word fun _ => .bind (block_lays lays ["END"]) fun statements => ?_
  exact .word fun _ => .pure rfl

theorem guarded_lays {build : Expression → List Statement → Statement}
    (same : ∀ head ss, (build head ss).nodes = .expression head :: Statement.allNodes ss) :
    Lays [] (do
      let head ← expression
      return build head (← body inner)) Statement.nodes := by
  refine .bind expression_lays fun head => .bind (body_lays lays) fun statements => ?_
  exact .pure (same head statements)

theorem conditional_lays : Lays [] (do
    let condition ← expression
    let _ ← word "DO"
    let thenBody ← block ["ELSE", "END"] inner
    let elseBody ← after "ELSE" (block ["END"] inner)
    let _ ← word "END"
    return Statement.conditional condition thenBody (elseBody.getD [])) Statement.nodes := by
  refine .bind expression_lays fun condition => .word fun _ => ?_
  refine .bind (block_lays lays _) fun thenBody => ?_
  refine .bind (.after (block_lays lays _)) fun elseBody => .word fun _ => .pure ?_
  cases elseBody <;> rfl

theorem statementUsing_lays : Lays [] (statementUsing inner) Statement.nodes := by
  intro c d s read
  obtain ⟨found, m, opened, rest⟩ := bind_eq_ok.mp read
  cases found with
  | none =>
    cases optional_eq_none opened
    refine (?_ : Lays [] _ Statement.nodes) _ _ _ rest
    refine .bind expression_lays fun target => .bind (.after expression_lays) fun value => ?_
    refine .word fun _ => ?_
    cases value <;> exact .pure rfl
  | some found =>
    obtain ⟨word, opening⟩ := found
    obtain ⟨token, head, last, test⟩ := take?_eq_some.mp (optional_eq_some opened)
    obtain ⟨rfl, text⟩ := statementWord?_eq_some test
    cases word with
    | declaration =>
      obtain ⟨decl, m₁, inside, done⟩ := bind_eq_ok.mp rest
      obtain ⟨rfl, rfl⟩ := pure_eq_ok.mp done
      obtain ⟨ts, taken, placed⟩ := declarationAfter_placed text last inside
      exact ⟨opening :: ts, [.declaration decl], by rw [head, taken]; rfl, rfl, placed.laid⟩
    | conditional => exact (conditional_lays lays).behind head rest
    | forEach =>
      have forEach : Lays [] (do
          let name ← identifier
          let _ ← word "IN"
          let range ← expression
          return Statement.forEach name range (← body inner)) Statement.nodes := by
        refine .skip identifier_sound fun name => .word fun _ => ?_
        exact guarded_lays lays fun _ _ => rfl
      exact forEach.behind head rest
    | loop =>
      have loop : Lays [] (do
          let condition ← expression
          return Statement.loop condition (← body inner)) Statement.nodes :=
        guarded_lays lays fun _ _ => rfl
      exact loop.behind head rest
    | result =>
      have result : Lays [] (do
          let value ← expression
          let _ ← word ";"
          return Statement.result value) Statement.nodes :=
        .bind expression_lays fun value => .word fun _ => .pure rfl
      exact result.behind head rest

end

theorem statement_lays : Lays [] statement Statement.nodes := by
  have within : ∀ bound, Lays [] (statementWithin bound) Statement.nodes := by
    intro bound
    induction bound with
    | zero =>
      intro c d s read
      cases read
    | succ bound ih => exact statementUsing_lays ih
  exact fun c => within c.rest.length c

/-! ### Methods -/

theorem methodAfter_lays (opening : Token) :
    Lays [] (methodAfter opening) fun m => Statement.allNodes m.body := by
  have parameters : Sound (commaSeparated parameter) fun _ _ => True := by
    intro c d found read
    obtain ⟨ts, closing, taken, -, -⟩ := commaSeparated_sound .parameter parameter_sound read
    exact ⟨ts ++ [closing], by simp [taken], trivial⟩
  refine .skip identifier_sound fun name => .word fun _ => .skip parameters fun _ => ?_
  refine .skip (after_sound .name ":" identifier_sound) fun typeName => ?_
  refine .bind (body_lays statement_lays) fun statements => ?_
  exact .skip spanFrom_sound fun span => .pure rfl

theorem body_last {inner : Reader Statement} {statements : List Statement}
    (sound : Sound inner (Derives .statement)) (read : body inner c = .ok (statements, d)) :
    ∃ before closing, c.rest = before ++ closing :: d.rest ∧ closing.text = "END" ∧
      d.last = closing.span.stop := by
  obtain ⟨start, m, started, rest⟩ := bind_eq_ok.mp read
  obtain ⟨_, m₁, inside, rest⟩ := bind_eq_ok.mp rest
  obtain ⟨closing, m₂, closed, done⟩ := bind_eq_ok.mp rest
  obtain ⟨rfl, rfl⟩ := pure_eq_ok.mp done
  obtain ⟨first, -⟩ := word_eq_ok started
  obtain ⟨ts, taken, -⟩ := block_sound _ sound _ _ _ inside
  obtain ⟨behind, closes⟩ := word_eq_ok closed
  exact ⟨start :: ts, closing, by simp [first, taken, behind], closes, word_last closed⟩

theorem methodAfter_ends {opening : Token} {found : Method}
    (read : methodAfter opening c = .ok (found, d)) :
    ∃ before closing, c.rest = before ++ closing :: d.rest ∧ closing.text = "END" ∧
      d.last = closing.span.stop ∧ found.span = ⟨opening.span.start, closing.span.stop⟩ := by
  obtain ⟨name, m, named, rest⟩ := bind_eq_ok.mp read
  obtain ⟨left, m₁, opened, rest⟩ := bind_eq_ok.mp rest
  obtain ⟨parameters, m₂, listed, rest⟩ := bind_eq_ok.mp rest
  obtain ⟨returns, m₃, typed, rest⟩ := bind_eq_ok.mp rest
  obtain ⟨statements, m₄, inside, rest⟩ := bind_eq_ok.mp rest
  obtain ⟨span, m₅, placed, done⟩ := bind_eq_ok.mp rest
  obtain ⟨rfl, rfl⟩ := pure_eq_ok.mp done
  cases placed
  obtain ⟨ts, taken, -⟩ := identifier_sound _ _ _ named
  obtain ⟨taken₁, -⟩ := word_eq_ok opened
  obtain ⟨us, right, taken₂, -, -⟩ := commaSeparated_sound .parameter parameter_sound listed
  obtain ⟨vs, taken₃, -⟩ := after_sound .name ":" identifier_sound _ _ _ typed
  obtain ⟨ws, closing, taken₄, closes, stop⟩ := body_last statement_sound inside
  refine ⟨ts ++ left :: us ++ right :: vs ++ ws, closing, ?_, closes, stop, ?_⟩
  · simp [taken, taken₁, taken₂, taken₃, taken₄]
  · rw [stop]

theorem methodAfter_placed {opening : Token} {found : Method} (opens : opening.text = "DEF")
    (start : c.last = opening.span.stop) (read : methodAfter opening c = .ok (found, d)) :
    ∃ ts, c.rest = ts ++ d.rest ∧ Placed (opening :: ts) (.method found) := by
  obtain ⟨before, closing, taken, closes, stop, span⟩ := methodAfter_ends read
  obtain ⟨alone, laid⟩ := bracketed (methodAfter_prompt opening) (methodAfter_lays opening) opens
    start read taken closes stop
  refine ⟨before ++ [closing], by simp [taken], ?_⟩
  exact .of_laid (delimits_of_bracketed span alone) laid

/-! ## Programs -/

/-- Items that each begin with a word of their own. -/
theorem many_lays {text : String} {item : Token → Reader α} {node : α → SourceNode}
    (placed : ∀ (opening : Token) (c d : Cursor) (a : α), opening.text = text →
      c.last = opening.span.stop → item opening c = .ok (a, d) →
      ∃ ts, c.rest = ts ++ d.rest ∧ Placed (opening :: ts) (node a)) :
    Lays [] (many (Cursor.take? (hasText text)) item) fun items => items.map node := by
  intro c d items read
  have step : ∀ (c m d : Cursor) opening a, c.take? (hasText text) = some (opening, m) →
      item opening m = .ok (a, d) → ∃ ts, c.rest = ts ++ d.rest ∧ Placed ts (node a) := by
    intro c m d opening a opened inside
    obtain ⟨_, head, last, test⟩ := take?_eq_some.mp opened
    obtain ⟨opens, rfl⟩ := hasText_eq_some.mp test
    obtain ⟨ts, taken, whole⟩ := placed opening m d a opens last inside
    exact ⟨opening :: ts, by rw [head, taken]; rfl, whole⟩
  obtain ⟨ts, taken, repeats⟩ := many_sound step _ _ _ read
  refine ⟨ts, items.map node, taken, rfl, ?_⟩
  clear read taken
  induction repeats with
  | nil => exact .nil
  | cons first _ ih => exact first.laid.append ih

end Reader

/-- The outermost nodes of a program, in the order of the source. -/
def Program.nodes (program : Program) : List SourceNode :=
  program.fields.map .declaration ++ program.methods.map .method

/-- A node of the program, at any depth. -/
inductive Program.Has (program : Program) : SourceNode → Prop
  | outermost {node : SourceNode} : node ∈ program.nodes → Has program node
  | inside {parent node : SourceNode} : Has program parent → node ∈ parent.children →
    Has program node

theorem Reader.program_lays : Lays [] Reader.program Program.nodes := by
  have ended : Sound atEnd fun ts _ => ts = [] := by
    intro c d _ read
    unfold atEnd at read
    split at read <;> cases read
    exact ⟨[], rfl, rfl⟩
  refine .bind (many_lays fun opening c d decl => declarationAfter_placed) fun fields => ?_
  refine .bind (many_lays fun opening c d found => methodAfter_placed) fun methods => ?_
  exact .skip ended fun _ => .pure rfl

namespace SourceNode

variable {ts range : List Token} {ranges : List (List Token)} {node child : SourceNode}
  {nodes : List SourceNode}

theorem InOrder.exists_append (inOrder : InOrder ts ranges) (member : range ∈ ranges) :
    ∃ before behind, ts = before ++ range ++ behind := by
  induction inOrder with
  | nil => cases member
  | @cons gap first us ranges _ ih =>
    obtain rfl | member := List.mem_cons.mp member
    · exact ⟨gap, us, rfl⟩
    · obtain ⟨before, behind, rfl⟩ := ih member
      exact ⟨gap ++ first ++ before, behind, by simp⟩

theorem Laid.exists_range (laid : Laid ts nodes) (member : node ∈ nodes) :
    ∃ before range behind, ts = before ++ range ++ behind ∧ Placed range node := by
  obtain ⟨parts, rfl, inOrder, placed⟩ := laid
  obtain ⟨part, listed, rfl⟩ := List.mem_map.mp member
  obtain ⟨before, behind, tokens⟩ := inOrder.exists_append (List.mem_map_of_mem listed)
  exact ⟨before, part.1, behind, tokens, placed part listed⟩

theorem Placed.laid_children (placed : Placed ts node) : Laid ts node.children := by
  cases placed with
  | mk _ same inOrder all => exact ⟨_, same, inOrder, all⟩

end SourceNode

theorem Program.Has.exists_range {program : Program} {tokens : List Token} {node : SourceNode}
    (laid : Laid tokens program.nodes) (has : program.Has node) :
    ∃ before range behind, tokens = before ++ range ++ behind ∧ Placed range node := by
  induction has with
  | outermost member => exact laid.exists_range member
  | inside _ member ih =>
    obtain ⟨before, range, behind, rfl, placed⟩ := ih
    obtain ⟨before', range', behind', rfl, placed'⟩ := placed.laid_children.exists_range member
    exact ⟨before ++ before', range', behind' ++ behind, by simp, placed'⟩

/-! ### All expressions are such nodes -/

namespace Program.Has

variable {program : Program}

mutual

theorem of_mem_parts : (e : Expression) → program.Has (.expression e) →
    ∀ part ∈ e.parts, program.Has (.expression part)
  | .literal .., has, part, member | .access .., has, part, member => by
    obtain rfl := List.mem_singleton.mp member
    exact has
  | .group _ inner, has, part, member | .memberAccess _ inner _ _, has, part, member => by
    obtain rfl | member := List.mem_cons.mp member
    · exact has
    · exact of_mem_parts inner (.inside has List.mem_cons_self) part member
  | .binary _ _ left right, has, part, member => by
    obtain rfl | member := List.mem_cons.mp member
    · exact has
    obtain member | member := List.mem_append.mp member
    · exact of_mem_parts left (.inside has List.mem_cons_self) part member
    · exact of_mem_parts right (.inside has (.tail _ List.mem_cons_self)) part member
  | .call _ _ args _, has, part, member => by
    obtain rfl | member := List.mem_cons.mp member
    · exact has
    · exact of_mem_allParts args (fun arg listed => .inside has (List.mem_map_of_mem listed)) part
        member
  | .memberCall _ receiver _ args _, has, part, member => by
    obtain rfl | member := List.mem_cons.mp member
    · exact has
    obtain member | member := List.mem_append.mp member
    · exact of_mem_parts receiver (.inside has List.mem_cons_self) part member
    · exact of_mem_allParts args
        (fun arg listed => .inside has (.tail _ (List.mem_map_of_mem listed))) part member

theorem of_mem_allParts : (es : List Expression) → (∀ e ∈ es, program.Has (.expression e)) →
    ∀ part ∈ Expression.allParts es, program.Has (.expression part)
  | e :: es, has, part, member => by
    obtain ⟨first, others⟩ := List.forall_mem_cons.mp has
    obtain member | member := List.mem_append.mp member
    · exact of_mem_parts e first part member
    · exact of_mem_allParts es others part member

end

theorem of_mem_declaration {decl : Declaration} (has : program.Has (.declaration decl)) :
    ∀ e ∈ decl.expressions, program.Has (.expression e) := by
  intro e member
  obtain ⟨value, found, member⟩ := List.mem_flatMap.mp member
  exact of_mem_parts value (.inside has (List.mem_map_of_mem found)) e member

mutual

theorem of_mem_statement : (s : Statement) → (∀ node ∈ s.nodes, program.Has node) →
    ∀ e ∈ s.expressions, program.Has (.expression e)
  | .expression value, has, e, member | .result value, has, e, member =>
    of_mem_parts value (has _ List.mem_cons_self) e member
  | .declaration decl, has, e, member => of_mem_declaration (has _ List.mem_cons_self) e member
  | .assignment target value, has, e, member => by
    obtain member | member := List.mem_append.mp member
    · exact of_mem_parts target (has _ List.mem_cons_self) e member
    · exact of_mem_parts value (has _ (.tail _ List.mem_cons_self)) e member
  | .conditional condition thenBody elseBody, has, e, member => by
    obtain ⟨first, others⟩ := List.forall_mem_cons.mp has
    obtain ⟨inThen, inElse⟩ := List.forall_mem_append.mp others
    obtain member | member := List.mem_append.mp member
    · exact of_mem_parts condition first e member
    obtain member | member := List.mem_append.mp member
    · exact of_mem_allExpressions thenBody inThen e member
    · exact of_mem_allExpressions elseBody inElse e member
  | .forEach _ head body, has, e, member | .loop head body, has, e, member => by
    obtain ⟨first, others⟩ := List.forall_mem_cons.mp has
    obtain member | member := List.mem_append.mp member
    · exact of_mem_parts head first e member
    · exact of_mem_allExpressions body others e member

theorem of_mem_allExpressions : (ss : List Statement) →
    (∀ node ∈ Statement.allNodes ss, program.Has node) →
    ∀ e ∈ Statement.allExpressions ss, program.Has (.expression e)
  | s :: ss, has, e, member => by
    obtain ⟨first, others⟩ := List.forall_mem_append.mp has
    obtain member | member := List.mem_append.mp member
    · exact of_mem_statement s first e member
    · exact of_mem_allExpressions ss others e member

end

theorem of_mem_expressions {e : Expression} (member : e ∈ program.expressions) :
    program.Has (.expression e) := by
  obtain member | member := List.mem_append.mp member
  · obtain ⟨field, found, member⟩ := List.mem_flatMap.mp member
    have has : program.Has (.declaration field) :=
      .outermost (List.mem_append_left _ (List.mem_map_of_mem found))
    exact of_mem_declaration has e member
  · obtain ⟨method, found, member⟩ := List.mem_flatMap.mp member
    have has : program.Has (.method method) :=
      .outermost (List.mem_append_right _ (List.mem_map_of_mem found))
    exact of_mem_allExpressions method.body (fun node listed => .inside has listed) e member

end Program.Has

/-! ### Every span -/

namespace Program

/-- In the tokens that a program is read from, its fields and methods are placed in order.  So every
node of it, each of its expressions among them, has a range of the tokens to itself that its span
delimits. -/
theorem spans_delimit_tokens {tokens : List Token} {program : Program}
    (read : ofTokens tokens = .ok program) :
    Laid tokens program.nodes ∧
    (∀ node, program.Has node → ∃ before range behind,
      tokens = before ++ range ++ behind ∧ Placed range node) ∧
    ∀ e ∈ program.expressions, program.Has (.expression e) := by
  obtain ⟨d, read⟩ := ofTokens_eq_ok.mp read
  obtain ⟨ts, added, taken, same, laid⟩ := Reader.program_lays _ _ _ read
  rw [List.nil_append] at same
  have whole : Laid tokens program.nodes := by
    have all : tokens = ts ++ d.rest := taken
    rw [all, same]
    exact laid.before d.rest
  exact ⟨whole, fun node has => has.exists_range whole, fun e => Has.of_mem_expressions⟩

/-- The tokens of `LET x = a.b(c) - d * e - f;`. -/
def chainTokens : List Token :=
  [⟨.identifier, "LET", ⟨0, 3⟩⟩, ⟨.identifier, "x", ⟨4, 5⟩⟩, ⟨.operator, "=", ⟨6, 7⟩⟩,
    ⟨.identifier, "a", ⟨8, 9⟩⟩, ⟨.operator, ".", ⟨9, 10⟩⟩, ⟨.identifier, "b", ⟨10, 11⟩⟩,
    ⟨.operator, "(", ⟨11, 12⟩⟩, ⟨.identifier, "c", ⟨12, 13⟩⟩, ⟨.operator, ")", ⟨13, 14⟩⟩,
    ⟨.operator, "-", ⟨15, 16⟩⟩, ⟨.identifier, "d", ⟨17, 18⟩⟩, ⟨.operator, "*", ⟨19, 20⟩⟩,
    ⟨.identifier, "e", ⟨21, 22⟩⟩, ⟨.operator, "-", ⟨23, 24⟩⟩, ⟨.identifier, "f", ⟨25, 26⟩⟩,
    ⟨.operator, ";", ⟨26, 27⟩⟩]

/-- The first difference.  It is the left operand of the second, so it was not read by itself. -/
def chainFront : Expression :=
  let named := fun name start => Expression.access { span := ⟨start, start + 1⟩ } name none
  .binary { span := ⟨8, 22⟩ } .subtract
    (.memberCall { span := ⟨8, 14⟩ } (named "a" 8) "b" [named "c" 12] none)
    (.binary { span := ⟨17, 22⟩ } .multiply (named "d" 17) (named "e" 21))

def chainProgram : Program :=
  let value : Expression :=
    .binary { span := ⟨8, 26⟩ } .subtract chainFront (.access { span := ⟨25, 26⟩ } "f" none)
  ⟨[{ name := "x", typeName := none, value := some value, span := ⟨0, 27⟩ }], []⟩

theorem spans_delimit_tokens_chain :
    ofTokens chainTokens = .ok chainProgram ∧ ∃ before range behind,
      chainTokens = before ++ range ++ behind ∧ Placed range (.expression chainFront) := by
  have read : ofTokens chainTokens = .ok chainProgram := rfl
  refine ⟨read, (spans_delimit_tokens read).2.1 (.expression chainFront) ?_⟩
  -- The declaration, its value and the value's left operand.
  apply Has.inside (.inside (.outermost List.mem_cons_self) List.mem_cons_self)
  exact List.mem_cons_self

end Program

end Primer
