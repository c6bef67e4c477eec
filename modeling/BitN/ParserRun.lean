import BitN.Parser

/-! What holds of the parser along any run, finished or cut: the tokens are consumed in
order, the flag and the messages stay, and more fuel never changes a result. -/
namespace BitN.ParserRun

open Run LexerPartition

theorem windowEnd {current peek : Token} {l : Lexer} (first : current.type = .tokEof) :
    windowAhead current peek l = [] := if_pos first

theorem windowToken {current : Token} {l : Lexer} (more : current.type ≠ .tokEof) :
    windowAhead current (lexerNextToken l).1 (lexerNextToken l).2 = current :: l.ahead := by
  rw [windowAhead, if_neg more]
  split_ifs with second
  · rw [aheadEnd second]
  · rw [aheadToken second]

theorem aheadWindow (l : Lexer) : (parserWindow l).ahead = l.ahead := by
  simp only [Parser.ahead, parserWindow]
  by_cases first : (lexerNextToken l).1.type = .tokEof
  · rw [windowEnd first, aheadEnd first]
  · rw [windowToken first, aheadToken first]

@[simp] theorem noteAhead (e : Event) (p : Parser) : (p.note e).ahead = p.ahead := rfl
@[simp] theorem failAhead (m : String) (p : Parser) : (p.fail m).ahead = p.ahead := rfl
@[simp] theorem noteError (e : Event) (p : Parser) : (p.note e).error = p.error := rfl
@[simp] theorem failError (m : String) (p : Parser) : (p.fail m).error = true := rfl
@[simp] theorem advanceError (p : Parser) : p.advance.error = p.error := rfl
@[simp] theorem noteTrace (e : Event) (p : Parser) : (p.note e).trace = e :: p.trace := rfl
@[simp] theorem advanceTrace (p : Parser) : p.advance.trace = p.trace := rfl

theorem aheadEof {p : Parser} : p.ahead = [] ↔ p.current.type = .tokEof := by
  simp [Parser.ahead, windowAhead]

theorem advanceAhead (p : Parser) : p.advance.ahead = p.ahead.tail := by
  by_cases first : p.current.type = .tokEof
  · rw [aheadEof.mpr first]
    exact aheadEof.mpr (p.currentEnd first)
  · have here : p.ahead.tail = if p.peek.type = .tokEof then [] else p.peek :: p.lexer.ahead := by
      rw [Parser.ahead, windowAhead, if_neg first, List.tail_cons]
    rw [here]
    simp only [Parser.ahead, Parser.advance]
    split_ifs with second
    · rw [windowEnd second]
    · rw [windowToken second]

theorem aheadCons {p : Parser} (more : p.current.type ≠ .tokEof) : p.ahead = p.current :: p.advance.ahead := by
  rw [advanceAhead]
  simp [Parser.ahead, windowAhead, more]

/-! One spec for each elementary routine -/

theorem bindCheck {β : Type} (type : TokenType) (f : Bool → Parse β) (p : Parser) :
    (parserCheck type >>= f) p = f (decide (p.current.type = type)) p := rfl

theorem matchTaken {type : TokenType} {p : Parser} (here : p.current.type = type) :
    parserMatch type p = (some true, p.advance) := by
  simp [parserMatch, parserCheck, parserAdvance, here]

theorem matchSkipped {type : TokenType} {p : Parser} (other : p.current.type ≠ type) :
    parserMatch type p = (some false, p) := by
  simp [parserMatch, parserCheck, other]

theorem expectTaken {type : TokenType} {p : Parser} (message : String) (here : p.current.type = type) :
    parserExpect type message p = (some (), p.advance) := by
  rw [parserExpect, bindStep (matchTaken here)]
  rfl

theorem expectFailed {type : TokenType} {p : Parser} (message : String) (other : p.current.type ≠ type) :
    parserExpect type message p = (some (), p.fail message) := by
  rw [parserExpect, bindStep (matchSkipped other)]
  rfl

theorem matchOfApply {β : Type} (table : List (TokenType × β)) (p : Parser) :
    parserMatchOf table p =
      match table.find? (fun entry => p.current.type = entry.1) with
      | some entry => (some (some entry.2), p.advance)
      | none => (some none, p) := by
  induction table with
  | nil => rfl
  | cons entry others ih =>
    rw [parserMatchOf, List.find?_cons]
    by_cases here : p.current.type = entry.1
    · rw [bindStep (matchTaken here)]
      simp [here]
    · rw [bindStep (matchSkipped here)]
      simpa [here] using ih

section items
variable {α : Type} {loop : Loop} {item : Parse α} {items : List α} {p next : Parser}

theorem turnReturns {a : α} (ran : item (p.note (.enter loop p.current.type)) = (some a, next)) :
    parserTurn loop item p = (some a, next.note (.again loop p.ahead.length next.ahead.length)) := by
  simp only [parserTurn, bindRead, bindModify]
  rw [bindStep ran]
  rfl

theorem turnCut (ran : item (p.note (.enter loop p.current.type)) = (none, next)) :
    parserTurn loop item p = (none, next) := by
  simp only [parserTurn, bindRead, bindModify]
  rw [bindCut ran]

theorem itemLeaves (closed : p.current.type = .tokRbrace ∨ p.current.type = .tokEof) :
    parserItem loop item items p = (some (.inr items), p) := by
  rcases closed with here | here
  · simp [parserItem, bindCheck, here]
  · simp [parserItem, bindCheck, here]

theorem itemTurns (more : p.current.type ≠ .tokRbrace) (more' : p.current.type ≠ .tokEof) :
    parserItem loop item items p = (parserTurn loop item >>= fun a => pure (.inl (items ++ [a]))) p := by
  simp [parserItem, bindCheck, more, more']

end items

/-! Steps -/

inductive Noted (p : Parser) : Event → Prop where
  | enter (loop : Loop) : Noted p (.enter loop p.current.type)
  | again (loop : Loop) (before : Nat) : Noted p (.again loop before p.ahead.length)
  | store {width : Nat} (number : p.current.type = .tokNumber) (field : width = 32 ∨ width = 64) :
      Noted p (.store p.current.value width ((strtoull p.current.value).toNat % 2 ^ width))

/-- A relation every elementary step of the parser respects. -/
class Stepped (R : Parser → Parser → Prop) : Prop extends IsPreorder Parser R where
  advance : ∀ p, R p p.advance
  fail : ∀ message p, R p (p.fail message)
  note : ∀ e p, Noted p e → R p (p.note e)

section steps
variable {R : Parser → Parser → Prop} [Stepped R] {α β : Type}

theorem movesAdvance : Moves R parserAdvance := fun p => Stepped.advance p
theorem movesError (message : String) : Moves R (parserError message) := fun p => Stepped.fail message p
theorem movesCheck (type : TokenType) : Moves R (parserCheck type) := movesRead _
theorem movesValue : Moves R parserValue := movesRead _

theorem movesMatch (type : TokenType) : Moves R (parserMatch type) :=
  movesBind (movesCheck type) fun _ =>
    movesIte (fun _ => movesBind movesAdvance fun _ => movesPure _) fun _ => movesPure _

theorem movesExpect (type : TokenType) (message : String) : Moves R (parserExpect type message) :=
  movesBind (movesMatch type) fun _ => movesIte (fun _ => movesPure _) fun _ => movesError message

theorem movesMatchOf (table : List (TokenType × β)) : Moves R (parserMatchOf table) := by
  induction table with
  | nil => exact movesPure _
  | cons entry others ih =>
    exact movesBind (movesMatch entry.1) fun _ => movesIte (fun _ => movesPure _) fun _ => ih

theorem movesNumeral {width : Nat} (field : width = 32 ∨ width = 64) : Moves R (parserNumeral width) := by
  intro p
  unfold parserNumeral
  split_ifs with number
  · exact Stepped.note _ p (.store number field)
  · exact refl_of R p

theorem movesExpectNumber (message : String) : Moves R (parserExpectNumber message) :=
  movesBind (movesNumeral (.inl rfl)) fun _ => movesBind (movesExpect _ _) fun _ => movesPure _

theorem movesTurn (loop : Loop) {body : Parse α} (inner : Moves R body) : Moves R (parserTurn loop body) :=
  movesBind (movesRead _) fun before => movesBind (fun p => Stepped.note _ p (.enter loop)) fun _ =>
    movesBind inner fun _ => movesBind (fun p => Stepped.note _ p (.again loop before)) fun _ => movesPure _

theorem movesItem (loop : Loop) {item : Parse α} (inner : Moves R item) (items : List α) :
    Moves R (parserItem loop item items) := by
  refine movesBind (movesCheck _) fun _ => movesIte (fun _ => movesPure _) fun _ => ?_
  refine movesBind (movesCheck _) fun _ => movesIte (fun _ => movesPure _) fun _ => ?_
  exact movesBind (movesTurn loop inner) fun _ => movesPure _

theorem movesItems (loop : Loop) {item : Parse α} (inner : Moves R item) (n : Nat) :
    Moves R (parserItems loop item n) :=
  movesLoop (movesItem loop inner) n []

theorem movesType : Moves R parserParseType := by
  refine movesBind (movesMatchOf types) fun kind => ?_
  cases kind with
  | none => exact movesBind (movesError _) fun _ => movesPure _
  | some kind => exact movesPure _

theorem movesArguments {expression : Parse ASTExpr} (inner : Moves R expression) (n : Nat) :
    Moves R (parserParseArguments expression n) := by
  refine movesBind (movesCheck _) fun _ => movesIte (fun _ => movesPure _) fun _ => movesLoop (fun args => ?_) n []
  exact movesBind inner fun _ => movesBind (movesMatch _) fun _ =>
    movesIte (fun _ => movesPure _) fun _ => movesPure _

theorem movesPrimary {expression : Parse ASTExpr} (inner : Moves R expression) (n : Nat) :
    Moves R (parserParsePrimary expression n) := by
  refine movesBind (movesCheck _) fun _ => movesIte (fun _ => ?_) fun _ => ?_
  · exact movesBind (movesNumeral (.inr rfl)) fun _ => movesBind movesAdvance fun _ => movesPure _
  refine movesBind (movesCheck _) fun _ => movesIte (fun _ => ?_) fun _ => ?_
  · refine movesBind movesValue fun _ => movesBind movesAdvance fun _ => movesBind (movesCheck _) fun _ => ?_
    refine movesIte (fun _ => ?_) fun _ => movesPure _
    exact movesBind movesAdvance fun _ => movesBind (movesArguments inner n) fun _ =>
      movesBind (movesExpect _ _) fun _ => movesPure _
  refine movesBind (movesMatch _) fun _ => movesIte (fun _ => movesPure _) fun _ => ?_
  refine movesBind (movesMatch _) fun _ => movesIte (fun _ => movesPure _) fun _ => ?_
  refine movesBind (movesCheck _) fun _ => movesIte (fun _ => ?_) fun _ => ?_
  · exact movesBind movesAdvance fun _ => movesBind inner fun _ => movesBind (movesExpect _ _) fun _ => movesPure _
  · exact movesBind (movesError _) fun _ => movesPure _

theorem movesUnary {expression : Parse ASTExpr} (inner : Moves R expression) (n : Nat) :
    Moves R (parserParseUnary expression n) := by
  induction n with
  | zero => exact movesCut
  | succ n ih =>
    refine movesBind (movesMatchOf unaryOps) fun op => ?_
    cases op with
    | some op => exact movesBind ih fun _ => movesPure _
    | none => exact movesPrimary inner n

theorem movesBinary (ops : List (TokenType × BinaryOp)) {next : Parse ASTExpr} (inner : Moves R next) (n : Nat) :
    Moves R (parserParseBinary ops next n) := by
  refine movesBind inner fun left => movesLoop (fun left => ?_) n left
  refine movesBind (movesMatchOf ops) fun op => ?_
  cases op with
  | some op => exact movesBind inner fun _ => movesPure _
  | none => exact movesPure _

theorem movesExpression (n : Nat) : Moves R (parserParseExpression n) := by
  induction n with
  | zero => exact movesCut
  | succ n ih =>
    have unary := movesUnary ih n
    exact movesBinary _ (movesBinary _ (movesBinary _ (movesBinary _ (movesBinary _ (movesBinary _ (movesBinary _
      (movesBinary _ unary n) n) n) n) n) n) n) n

theorem movesBlock {statement : Parse ASTStmt} (inner : Moves R statement) (n : Nat) :
    Moves R (parserParseBlock statement n) := by
  refine movesBind (movesMatch _) fun _ => movesIte (fun _ => ?_) fun _ => ?_
  · exact movesBind (movesItems _ inner n) fun _ => movesBind (movesExpect _ _) fun _ => movesPure _
  · exact movesBind (movesError _) fun _ => movesPure _

theorem movesDeclaration {expression : Parse ASTExpr} (inner : Moves R expression) (isMut : Bool) :
    Moves R (parserParseDeclaration expression isMut) := by
  refine movesBind movesAdvance fun _ => movesBind movesValue fun _ => movesBind (movesExpect _ _) fun _ => ?_
  refine movesBind (movesExpect _ _) fun _ => movesBind movesType fun declType => ?_
  cases declType with
  | none => exact movesPure _
  | some declType =>
    refine movesBind (movesCheck _) fun _ => movesBind (movesCheck _) fun _ => movesIte (fun _ => ?_) fun _ => ?_
    · exact movesBind movesAdvance fun _ => movesBind inner fun _ => movesBind (movesMatch _) fun _ => movesPure _
    · exact movesBind (movesError _) fun _ => movesPure _

theorem movesReturn {expression : Parse ASTExpr} (inner : Moves R expression) :
    Moves R (parserParseReturn expression) := by
  refine movesBind (movesCheck _) fun _ => movesBind (movesCheck _) fun _ => movesBind (movesCheck _) fun _ => ?_
  refine movesIte (fun _ => movesBind (movesMatch _) fun _ => movesPure _) fun _ => ?_
  exact movesBind inner fun _ => movesBind (movesMatch _) fun _ => movesPure _

theorem movesStatement (n : Nat) : Moves R (parserParseStatement n) := by
  induction n with
  | zero => exact movesCut
  | succ n ih =>
    have expression := movesExpression (R := R) n
    refine movesBind (movesCheck _) fun _ => movesBind (movesCheck _) fun _ => movesIte (fun _ => ?_) fun _ => ?_
    · exact movesBind (movesCheck _) fun _ => movesDeclaration expression _
    refine movesBind (movesMatch _) fun _ => movesIte (fun _ => movesReturn expression) fun _ => ?_
    refine movesBind (movesCheck _) fun _ => movesIte (fun _ => movesBlock ih n) fun _ => ?_
    exact movesBind expression fun _ => movesBind (movesMatch _) fun _ => movesPure _

theorem movesBody (n : Nat) : Moves R (parserParseBody n) := by
  have statement := movesStatement (R := R) n
  refine movesBind (movesMatch _) fun _ => movesIte (fun _ => movesBind statement fun _ => movesPure _) fun _ => ?_
  refine movesBind (movesCheck _) fun _ => movesIte (fun _ => movesBlock statement n) fun _ => ?_
  exact movesBind (movesError _) fun _ => movesPure _

theorem movesSignature (isNimStyle : Bool) (n : Nat) : Moves R (parserParseSignature isNimStyle n) := by
  refine movesBind movesValue fun _ => movesBind (movesExpect _ _) fun _ => movesBind (movesExpect _ _) fun _ => ?_
  refine movesBind (movesExpect _ _) fun _ => movesBind ?_ fun _ => ?_
  · exact movesIte (fun _ => movesExpect _ _) fun _ => movesExpect _ _
  · exact movesBind movesType fun _ => movesBind (movesBody n) fun _ => movesPure _

theorem movesFunction (n : Nat) : Moves R (parserParseFunction n) := by
  refine movesBind (movesMatchOf _) fun isNimStyle => ?_
  cases isNimStyle with
  | none => exact movesBind (movesError _) fun _ => movesPure _
  | some isNimStyle => exact movesBind (movesSignature isNimStyle n) fun _ => movesPure _

theorem movesField : Moves R parserParseField := by
  refine movesBind (movesExpect _ _) fun _ => movesBind movesValue fun _ => movesBind (movesExpect _ _) fun _ => ?_
  refine movesBind (movesExpect _ _) fun _ => movesBind (movesExpect _ _) fun _ => ?_
  refine movesBind (movesExpectNumber _) fun _ => movesBind (movesExpect _ _) fun _ => ?_
  refine movesBind (movesExpectNumber _) fun _ => movesBind (movesExpect _ _) fun _ => ?_
  exact movesBind (movesMatchOf _) fun _ => movesBind (movesMatch _) fun _ => movesPure _

theorem movesRegister (n : Nat) : Moves R (parserParseRegister n) := by
  refine movesBind (movesExpect _ _) fun _ => movesBind movesValue fun _ => movesBind (movesExpect _ _) fun _ => ?_
  refine movesBind (movesExpect _ _) fun _ => movesBind (movesMatchOf _) fun _ => movesBind (movesExpect _ _) fun _ =>
    ?_
  refine movesBind (movesExpectNumber _) fun _ => movesBind (movesExpect _ _) fun _ => ?_
  exact movesBind (movesItems _ movesField n) fun _ => movesBind (movesExpect _ _) fun _ => movesPure _

theorem movesPeripheral (n : Nat) : Moves R (parserParsePeripheral n) := by
  refine movesBind (movesExpect _ _) fun _ => movesBind movesValue fun _ => movesBind (movesExpect _ _) fun _ => ?_
  refine movesBind (movesExpect _ _) fun _ => movesBind (movesExpectNumber _) fun _ => movesBind (movesExpect _ _)
    fun _ => ?_
  exact movesBind (movesItems _ (movesRegister n) n) fun _ => movesBind (movesExpect _ _) fun _ => movesPure _

theorem movesProgram (n : Nat) : Moves R (parserParseProgram n) := by
  refine movesLoop (fun program => ?_) n _
  refine movesBind (movesCheck _) fun _ => movesIte (fun _ => movesPure _) fun _ => ?_
  refine movesBind (movesCheck _) fun _ => movesBind (movesCheck _) fun _ => movesBind (movesCheck _) fun _ => ?_
  refine movesIte (fun _ => movesBind (movesTurn _ (movesFunction n)) fun func => ?_) fun _ => ?_
  · cases func with
    | some func => exact movesPure _
    | none => exact movesPure _
  refine movesBind (movesCheck _) fun _ => movesIte (fun _ => ?_) fun _ => ?_
  · exact movesBind (movesTurn _ (movesPeripheral n)) fun _ => movesPure _
  · exact movesBind (movesError _) fun _ => movesPure _

end steps

/-! More fuel -/

section fuel
variable {R : Parser → Parser → Prop} [Stepped R] {n m : Nat} {α β : Type}

class Moving {α : Type} (x : Parse α) : Prop where
  moves : ∀ {R : Parser → Parser → Prop} [Stepped R], Moves R x

instance (a : α) : Moving (pure a) := ⟨movesPure a⟩
instance (f : Parser → α) : Moving (Run.read f) := ⟨movesRead f⟩
instance : Moving parserAdvance := ⟨movesAdvance⟩
instance (message : String) : Moving (parserError message) := ⟨movesError message⟩
instance (type : TokenType) : Moving (parserCheck type) := ⟨movesCheck type⟩
instance (type : TokenType) : Moving (parserMatch type) := ⟨movesMatch type⟩
instance : Moving parserValue := ⟨movesValue⟩
instance (type : TokenType) (message : String) : Moving (parserExpect type message) := ⟨movesExpect type message⟩
instance (table : List (TokenType × β)) : Moving (parserMatchOf table) := ⟨movesMatchOf table⟩
instance : Moving (parserNumeral 64) := ⟨movesNumeral (.inr rfl)⟩
instance (message : String) : Moving (parserExpectNumber message) := ⟨movesExpectNumber message⟩
instance : Moving parserParseType := ⟨movesType⟩
instance : Moving parserParseField := ⟨movesField⟩
instance (isNimStyle : Bool) : Moving (parserExpectArrow isNimStyle) :=
  ⟨movesIte (fun _ => movesExpect _ _) fun _ => movesExpect _ _⟩
instance {x : Parse α} {f : α → Parse β} [first : Moving x] [then_ : ∀ a, Moving (f a)] : Moving (x >>= f) :=
  ⟨movesBind first.moves fun a => (then_ a).moves⟩
instance {c : Prop} [Decidable c] {x y : Parse α} [yes : Moving x] [no : Moving y] : Moving (if c then x else y) :=
  ⟨movesIte (fun _ => yes.moves) fun _ => no.moves⟩

theorem belowSame {x : Parse α} [moving : Moving x] : Below R x x := belowRfl moving.moves

theorem belowTurn (loop : Loop) {body body' : Parse α} (inner : Below R body body') :
    Below R (parserTurn loop body) (parserTurn loop body') :=
  belowBind belowSame fun before => belowBind (belowRfl fun p => Stepped.note _ p (.enter loop)) fun _ =>
    belowBind inner fun _ => belowBind (belowRfl fun p => Stepped.note _ p (.again loop before)) fun _ => belowSame

theorem belowItems (loop : Loop) {item item' : Parse α} (inner : Below R item item') (more : n ≤ m) :
    Below R (parserItems loop item n) (parserItems loop item' m) := by
  refine belowLoop (fun items => ?_) more []
  refine belowBind belowSame fun _ => belowIte belowSame ?_
  refine belowBind belowSame fun _ => belowIte belowSame ?_
  exact belowBind (belowTurn loop inner) fun _ => belowSame

theorem belowArguments {e e' : Parse ASTExpr} (inner : Below R e e') (more : n ≤ m) :
    Below R (parserParseArguments e n) (parserParseArguments e' m) :=
  belowBind belowSame fun _ => belowIte belowSame
    (belowLoop (fun _ => belowBind inner fun _ => belowSame) more [])

theorem belowPrimary {e e' : Parse ASTExpr} (inner : Below R e e') (more : n ≤ m) :
    Below R (parserParsePrimary e n) (parserParsePrimary e' m) := by
  refine belowBind belowSame fun _ => belowIte belowSame ?_
  refine belowBind belowSame fun _ => belowIte ?_ ?_
  · refine belowBind belowSame fun _ => belowBind belowSame fun _ => belowBind belowSame fun _ => belowIte ?_ belowSame
    exact belowBind belowSame fun _ => belowBind (belowArguments inner more) fun _ => belowSame
  refine belowBind belowSame fun _ => belowIte belowSame ?_
  refine belowBind belowSame fun _ => belowIte belowSame ?_
  refine belowBind belowSame fun _ => belowIte ?_ belowSame
  exact belowBind belowSame fun _ => belowBind inner fun _ => belowSame

theorem belowUnary {e e' : Parse ASTExpr} (inner : Below R e e') (more : n ≤ m) :
    Below R (parserParseUnary e n) (parserParseUnary e' m) := by
  induction n generalizing m with
  | zero => exact belowCut (movesUnary inner.moves m)
  | succ n ih =>
    obtain ⟨m, rfl⟩ := Nat.exists_eq_succ_of_ne_zero (by omega : m ≠ 0)
    refine belowBind belowSame fun op => ?_
    cases op with
    | some op => exact belowBind (ih (by omega)) fun _ => belowSame
    | none => exact belowPrimary inner (by omega)

theorem belowBinary (ops : List (TokenType × BinaryOp)) {next next' : Parse ASTExpr} (inner : Below R next next')
    (more : n ≤ m) : Below R (parserParseBinary ops next n) (parserParseBinary ops next' m) := by
  refine belowBind inner fun left => belowLoop (fun left => ?_) more left
  refine belowBind belowSame fun op => ?_
  cases op with
  | some op => exact belowBind inner fun _ => belowSame
  | none => exact belowSame

theorem belowExpression (n : Nat) : Below R (parserParseExpression n) (parserParseExpression (n + 1)) := by
  induction n with
  | zero => exact belowCut (movesExpression 1)
  | succ n ih =>
    have more : n ≤ n + 1 := by omega
    have unary := belowUnary ih more
    exact belowBinary _ (belowBinary _ (belowBinary _ (belowBinary _ (belowBinary _ (belowBinary _ (belowBinary _
      (belowBinary _ unary more) more) more) more) more) more) more) more

theorem belowBlock {s s' : Parse ASTStmt} (inner : Below R s s') (more : n ≤ m) :
    Below R (parserParseBlock s n) (parserParseBlock s' m) :=
  belowBind belowSame fun _ => belowIte (belowBind (belowItems _ inner more) fun _ => belowSame) belowSame

theorem belowDeclaration {e e' : Parse ASTExpr} (inner : Below R e e') (isMut : Bool) :
    Below R (parserParseDeclaration e isMut) (parserParseDeclaration e' isMut) := by
  refine belowBind belowSame fun _ => belowBind belowSame fun _ => belowBind belowSame fun _ => ?_
  refine belowBind belowSame fun _ => belowBind belowSame fun declType => ?_
  cases declType with
  | none => exact belowSame
  | some declType =>
    refine belowBind belowSame fun _ => belowBind belowSame fun _ => belowIte ?_ belowSame
    exact belowBind belowSame fun _ => belowBind inner fun _ => belowSame

theorem belowReturn {e e' : Parse ASTExpr} (inner : Below R e e') :
    Below R (parserParseReturn e) (parserParseReturn e') := by
  refine belowBind belowSame fun _ => belowBind belowSame fun _ => belowBind belowSame fun _ => belowIte belowSame ?_
  exact belowBind inner fun _ => belowSame

theorem belowStatement (n : Nat) : Below R (parserParseStatement n) (parserParseStatement (n + 1)) := by
  induction n with
  | zero => exact belowCut (movesStatement 1)
  | succ n ih =>
    have expression := belowExpression (R := R) n
    refine belowBind belowSame fun _ => belowBind belowSame fun _ => belowIte ?_ ?_
    · exact belowBind belowSame fun _ => belowDeclaration expression _
    refine belowBind belowSame fun _ => belowIte (belowReturn expression) ?_
    refine belowBind belowSame fun _ => belowIte (belowBlock ih (by omega)) ?_
    exact belowBind expression fun _ => belowSame

theorem belowFunction (n : Nat) : Below R (parserParseFunction n) (parserParseFunction (n + 1)) := by
  have body : Below R (parserParseBody n) (parserParseBody (n + 1)) := by
    refine belowBind belowSame fun _ => belowIte (belowBind (belowStatement n) fun _ => belowSame) ?_
    exact belowBind belowSame fun _ => belowIte (belowBlock (belowStatement n) (by omega)) belowSame
  refine belowBind belowSame fun isNimStyle => ?_
  cases isNimStyle with
  | none => exact belowSame
  | some isNimStyle =>
    refine belowBind ?_ fun _ => belowSame
    refine belowBind belowSame fun _ => belowBind belowSame fun _ => belowBind belowSame fun _ => belowBind belowSame
      fun _ => ?_
    exact belowBind belowSame fun _ => belowBind belowSame fun _ => belowBind body fun _ => belowSame

theorem belowRegister (n : Nat) : Below R (parserParseRegister n) (parserParseRegister (n + 1)) := by
  refine belowBind belowSame fun _ => belowBind belowSame fun _ => belowBind belowSame fun _ => belowBind belowSame
    fun _ => ?_
  refine belowBind belowSame fun _ => belowBind belowSame fun _ => belowBind belowSame fun _ => belowBind belowSame
    fun _ => ?_
  exact belowBind (belowItems _ belowSame (by omega)) fun _ => belowSame

theorem belowPeripheral (n : Nat) : Below R (parserParsePeripheral n) (parserParsePeripheral (n + 1)) := by
  refine belowBind belowSame fun _ => belowBind belowSame fun _ => belowBind belowSame fun _ => belowBind belowSame
    fun _ => ?_
  refine belowBind belowSame fun _ => belowBind belowSame fun _ => ?_
  exact belowBind (belowItems _ (belowRegister n) (by omega)) fun _ => belowSame

theorem belowProgram (n : Nat) : Below R (parserParseProgram n) (parserParseProgram (n + 1)) := by
  refine belowLoop (fun program => ?_) (by omega) _
  refine belowBind belowSame fun _ => belowIte belowSame ?_
  refine belowBind belowSame fun _ => belowBind belowSame fun _ => belowBind belowSame fun _ => belowIte ?_ ?_
  · refine belowBind (belowTurn _ (belowFunction n)) fun func => ?_
    cases func with
    | none => exact belowSame
    | some func => exact belowSame
  refine belowBind belowSame fun _ => belowIte ?_ belowSame
  exact belowBind (belowTurn _ (belowPeripheral n)) fun _ => belowSame

end fuel

/-! Instances -/

instance : Stepped fun p last => p.error = true → last.error = true where
  refl _ set := set
  trans _ _ _ first second set := second (first set)
  advance _ set := set
  fail _ _ _ := rfl
  note _ _ _ set := set

instance : Stepped fun p last => last.ahead <:+ p.ahead where
  refl _ := List.suffix_rfl
  trans _ _ _ first second := second.trans first
  advance p := advanceAhead p ▸ List.tail_suffix _
  fail _ _ := List.suffix_rfl
  note _ _ _ := List.suffix_rfl

instance : Stepped fun p last => p.trace <:+ last.trace where
  refl _ := List.suffix_rfl
  trans _ _ _ first second := first.trans second
  advance _ := List.suffix_rfl
  fail _ _ := List.suffix_cons _ _
  note _ _ _ := List.suffix_cons _ _

theorem parsesUnique {input : Source} {program program' : ASTProgram} {p p' : Parser}
    (one : Parses input program p) (two : Parses input program' p') : program = program' ∧ p = p' := by
  obtain ⟨n, ran⟩ := one
  obtain ⟨m, ran'⟩ := two
  exact chainUnique (R := fun p last => p.trace <:+ last.trace) belowProgram movesProgram ran ran'

theorem traceMore {input : Source} {n m : Nat} (more : n ≤ m) :
    (parseSource n input).2.trace <:+ (parseSource m input).2.trace :=
  belowState (belowChain (R := fun p last => p.trace <:+ last.trace) belowProgram more (movesProgram n))
    (parserCreate input)

theorem returnsMore {input : Source} {n m : Nat} {program : ASTProgram} {p : Parser} (more : n ≤ m)
    (ran : parseSource n input = (some program, p)) : parseSource m input = (some program, p) :=
  (belowChain (R := fun p last => p.trace <:+ last.trace) belowProgram more (movesProgram n)).returns _ _ _ ran

end BitN.ParserRun
