import BitN.AstAllocation
import BitN.ParserMemory
import BitN.ParserRun

/-! The parser in memory follows the parser: it says and reads the same, and the tree that it makes is the
one that is parsed. What it loses are the types of declarations without an initial value. -/
namespace BitN.ParserMemory
open Heap AstMemory Routine

/-! Losses -/

def uninitialized : String := "Expected '=' in variable declaration"

def Event.losesType : Event → Bool
  | .message _ _ text => text = uninitialized
  | _ => false

def lostTypes (p : Parser) : Nat := p.trace.countP Event.losesType

def TypesOnly (lost : Bag) : Prop := ∀ cell ∈ lost, ∃ kind, cell.2 = .type kind

theorem noTypes : TypesOnly 0 := nofun

theorem TypesOnly.both {m m' : Bag} (first : TypesOnly m) (second : TypesOnly m') : TypesOnly (m + m') :=
  fun cell member => (Multiset.mem_add.mp member).elim (first cell) (second cell)

def parserLosses : Losses Parser Block where
  Lost p last lost := lostTypes last = lostTypes p + lost.card ∧ TypesOnly lost
  none _ := ⟨rfl, noTypes⟩
  both first second := ⟨by rw [second.1, first.1, Multiset.card_add, add_assoc], first.2.both second.2⟩

/-- Nothing is lost. -/
def Keeps (p last : Parser) : Prop := lostTypes last = lostTypes p

instance : IsPreorder Parser Keeps where
  refl _ := rfl
  trans _ _ _ first second := second.trans first

section keeps
open Run

theorem keepsAdvance : Moves Keeps parserAdvance := fun _ => rfl

theorem keepsNote {e : Parser → Event} (other : ∀ p, Event.losesType (e p) = false) :
    Moves Keeps (modify fun p => p.note (e p)) :=
  fun p => List.countP_cons_of_neg (by simp [other p])

theorem keepsError {message : String} (other : message ≠ uninitialized) : Moves Keeps (parserError message) :=
  fun p => List.countP_cons_of_neg (by simp [Event.losesType, other])

theorem keepsMatch (type : TokenType) : Moves Keeps (parserMatch type) :=
  movesBind (movesRead _) fun _ =>
    movesIte (fun _ => movesBind keepsAdvance fun _ => movesPure _) fun _ => movesPure _

theorem keepsExpect (type : TokenType) {message : String} (other : message ≠ uninitialized) :
    Moves Keeps (parserExpect type message) :=
  movesBind (keepsMatch type) fun _ => movesIte (fun _ => movesPure _) fun _ => keepsError other

theorem keepsMatchOf {β : Type} (table : List (TokenType × β)) : Moves Keeps (parserMatchOf table) := by
  induction table with
  | nil => exact movesPure _
  | cons entry others ih =>
    exact movesBind (keepsMatch entry.1) fun _ => movesIte (fun _ => movesPure _) fun _ => ih

theorem keepsNumeral (width : Nat) : Moves Keeps (parserNumeral width) := by
  intro p
  unfold parserNumeral
  split_ifs
  · exact List.countP_cons_of_neg (by simp [Event.losesType])
  · rfl

theorem keepsExpectNumber {message : String} (other : message ≠ uninitialized) :
    Moves Keeps (parserExpectNumber message) :=
  movesBind (keepsNumeral 32) fun _ => movesBind (keepsExpect _ other) fun _ => movesPure _

theorem keepsField : Moves Keeps BitN.parserParseField := by
  unfold BitN.parserParseField
  refine movesBind (keepsExpect _ (by decide)) fun _ => movesBind (movesRead _) fun _ => ?_
  refine movesBind (keepsExpect _ (by decide)) fun _ => movesBind (keepsExpect _ (by decide)) fun _ => ?_
  refine movesBind (keepsExpect _ (by decide)) fun _ => movesBind (keepsExpectNumber (by decide)) fun _ => ?_
  refine movesBind (keepsExpect _ (by decide)) fun _ => movesBind (keepsExpectNumber (by decide)) fun _ => ?_
  refine movesBind (keepsExpect _ (by decide)) fun _ => movesBind (keepsMatchOf _) fun _ => ?_
  exact movesBind (keepsMatch _) fun _ => movesPure _

end keeps

section follow
variable {α γ δ ε : Type} {owned : Bag} {x : Parse α} {f : α → Parse δ} {h : α → Parsing ε} {Q : δ → ε → Bag → Prop}

abbrev Parsed (owned : Bag) (x : Parse α) (y : Parsing γ) (P : α → γ → Bag → Prop) : Prop :=
  Follows parserLosses owned x y P

/-- A step of the window alone. -/
theorem parsedStep (keeps : Run.Moves Keeps x) (then_ : ∀ a, Parsed owned (f a) (h a) Q) :
    Parsed owned (x >>= f) (run x >>= h) Q :=
  followsRun (fun s => ⟨keeps s, noTypes⟩) then_

theorem parsedCheck {type : TokenType} {f : Bool → Parse δ} {h : Bool → Parsing ε}
    (then_ : ∀ b, Parsed owned (f b) (h b) Q) :
    Parsed owned (parserCheck type >>= f) (run (parserCheck type) >>= h) Q :=
  parsedStep (Run.movesRead _) then_

end follow

section made
variable (allocator : Allocator Block)

/-- What is made stands for what is parsed. -/
def Made {τ : Type} (At : τ → Pointer → Bag → Prop) (x : Parse τ) (y : Parsing Pointer) : Prop := Parsed 0 x y At

theorem typeMade : Made TypeAt BitN.parserParseType (parserParseType allocator) := by
  refine parsedStep (keepsMatchOf _) fun kind => ?_
  cases kind with
  | none => exact parsedStep (keepsError (by decide)) fun _ => followsPure .null
  | some kind =>
    refine followsReturn (runsMap (runsWeaken (runsAlloc allocator _) ?_))
    rintro p _ rfl
    exact .some

/-! Expressions -/

section expressions
variable {expression : Parse ASTExpr} {expression' : Parsing Pointer}

inductive ArgumentsAt : List ASTExpr → Arguments → Bag → Prop where
  | held {args p capacity slots ms} (room : slots.length ≤ capacity) (positive : 0 < capacity)
      (each : EachAt ExprAt args slots ms) :
      ArgumentsAt args ⟨some p, capacity, slots.length⟩ ({⟨p, .pointers capacity slots⟩} + ms)

theorem argumentsGrown {args : List ASTExpr} {a : Arguments} {m : Bag} (held : ArgumentsAt args a m) :
    Runs m (growArguments allocator a) fun a left => ArgumentsAt args a left ∧ a.argCount < a.argCapacity := by
  cases held with
  | @held p capacity slots ms room positive each =>
    unfold growArguments
    split
    · refine runsCall rfl (reallocated allocator (.some room) (show slots.length ≤ capacity * 2 by omega)) ?_
      rintro _ _ ⟨q, rfl, rfl⟩
      have grown : ArgumentsAt args ⟨some q, capacity * 2, slots.length⟩ _ :=
        .held (Nat.le_trans room (by omega)) (by omega) each
      exact runsPure ⟨grown, show slots.length < capacity * 2 by omega⟩
    · rename_i full
      exact runsPure ⟨.held room positive each, show slots.length < capacity by simpa using full⟩

theorem argumentMade (inner : Made ExprAt expression expression') {args : List ASTExpr} {a : Arguments} {m : Bag}
    (held : ArgumentsAt args a m) : Parsed m (BitN.parserParseArgument expression args)
      (parserParseArgument allocator expression' a) (Onward ArgumentsAt ArgumentsAt) := by
  refine followsHeap (argumentsGrown allocator held) ?_
  rintro a m ⟨held, less⟩
  refine followsNew inner fun e p m' made => ?_
  cases held with
  | @held q capacity slots ms room positive each =>
    refine followsHeap (runsFrame (slotWritten less p) (m' + ms) |> fun ran => by rwa [add_left_comm]) ?_
    rintro _ _ ⟨_, rfl, rfl⟩
    have grown : ArgumentsAt (args ++ [e]) ⟨some q, capacity, slots.length + 1⟩
        ({⟨q, .pointers capacity (slots ++ [p])⟩} + (m' + ms)) := by
      have fits : (slots ++ [p]).length ≤ capacity := by
        rw [List.length_append, List.length_singleton]
        exact less
      have written : ArgumentsAt (args ++ [e]) ⟨some q, capacity, (slots ++ [p]).length⟩ _ :=
        .held fits positive (each.snoc made)
      rwa [List.length_append, List.length_singleton, add_comm ms] at written
    refine parsedStep (keepsMatch _) fun more => followsIte (fun _ => ?_) fun _ => ?_
    · exact followsPure (.on grown)
    · exact followsPure (.off grown)

theorem argumentsMade (inner : Made ExprAt expression expression') (n : Nat) :
    Parsed 0 (BitN.parserParseArguments expression n) (parserParseArguments allocator expression' n) ArgumentsAt := by
  refine followsHeap (runsAlloc allocator _) ?_
  rintro p _ rfl
  have empty : ArgumentsAt [] ⟨some p, 10, ([] : List Pointer).length⟩ ({⟨p, .pointers 10 []⟩} + 0) :=
    .held (Nat.zero_le 10) (by omega) .nil
  refine parsedCheck fun closed => followsIte (fun _ => followsPure empty) fun _ => ?_
  exact followsLoop ArgumentsAt (fun _ _ _ held => argumentMade allocator inner held) n empty

theorem nodeMade {e : ASTExpr} {node : ExprNode} {owned : Bag}
    (made : ∀ p, ExprAt e (some p) (exprCell p node + owned)) :
    Parsed owned (pure e) (heap (newExpr allocator node)) ExprAt := by
  refine followsReturn (runsWeaken (exprNew allocator node owned) ?_)
  rintro _ _ ⟨q, rfl, rfl⟩
  exact made q

theorem callMade (inner : Made ExprAt expression expression') (name : CString) (n : Nat) :
    Parsed 0 (do
        let args ← BitN.parserParseArguments expression n
        parserExpect .tokRparen "Expected ')' after arguments"
        return ASTExpr.call (.identifier name) args)
      (do
        let a ← parserParseArguments allocator expression' n
        run (parserExpect .tokRparen "Expected ')' after arguments")
        let func ← heap (newExpr allocator (.identifier name))
        heap (newExpr allocator (.call func a.args a.argCount))) ExprAt := by
  refine followsBind (argumentsMade allocator inner n) fun args a left held => ?_
  refine parsedStep (keepsExpect _ (by decide)) fun _ => ?_
  refine followsHeap (exprNew allocator _ left) ?_
  rintro _ _ ⟨q, rfl, rfl⟩
  cases held with
  | held room positive each =>
    refine nodeMade allocator fun p => ?_
    rw [each.length]
    exact .call .identifier (.some room) each

theorem primaryMade (inner : Made ExprAt expression expression') (n : Nat) :
    Made ExprAt (BitN.parserParsePrimary expression n) (parserParsePrimary allocator expression' n) := by
  refine parsedCheck fun number => followsIte (fun _ => ?_) fun _ => ?_
  · refine parsedStep (keepsNumeral 64) fun value => parsedStep keepsAdvance fun _ => ?_
    exact nodeMade allocator fun p => .number
  refine parsedCheck fun identifier => followsIte (fun _ => ?_) fun _ => ?_
  · refine parsedStep (Run.movesRead _) fun name => parsedStep keepsAdvance fun _ => ?_
    refine parsedCheck fun call => followsIte (fun _ => ?_) fun _ => ?_
    · exact parsedStep keepsAdvance fun _ => callMade allocator inner name n
    · exact nodeMade allocator fun p => .identifier
  refine parsedStep (keepsMatch _) fun isTrue => followsIte (fun _ => ?_) fun _ => ?_
  · exact nodeMade allocator fun p => .boolean
  refine parsedStep (keepsMatch _) fun isFalse => followsIte (fun _ => ?_) fun _ => ?_
  · exact nodeMade allocator fun p => .boolean
  refine parsedCheck fun group => followsIte (fun _ => ?_) fun _ => ?_
  · refine parsedStep keepsAdvance fun _ => followsBind inner fun e p left made => ?_
    exact parsedStep (keepsExpect _ (by decide)) fun _ => followsPure made
  · exact parsedStep (keepsError (by decide)) fun _ => followsPure .null

theorem unaryMade (inner : Made ExprAt expression expression') (n : Nat) :
    Made ExprAt (BitN.parserParseUnary expression n) (parserParseUnary allocator expression' n) := by
  induction n with
  | zero => exact followsCut
  | succ n ih =>
    refine parsedStep (keepsMatchOf _) fun op => ?_
    cases op with
    | some op =>
      refine followsBind ih fun operand p left made => ?_
      exact nodeMade allocator fun p => .unaryOp made
    | none => exact primaryMade allocator inner n

theorem binaryMade (ops : List (TokenType × BinaryOp)) {next : Parse ASTExpr} {next' : Parsing Pointer}
    (inner : Made ExprAt next next') (n : Nat) :
    Made ExprAt (BitN.parserParseBinary ops next n) (parserParseBinary allocator ops next' n) := by
  refine followsBind inner fun left p m made => ?_
  refine followsLoop ExprAt (fun left p m held => ?_) n made
  refine parsedStep (keepsMatchOf _) fun op => ?_
  cases op with
  | none => exact followsPure (.off held)
  | some op =>
    refine followsNew inner fun right q m' made => ?_
    refine followsHeap (exprNew allocator _ _) ?_
    rintro _ _ ⟨r, rfl, rfl⟩
    rw [add_comm m']
    exact followsPure (.on (.binaryOp held made))

theorem expressionMade (n : Nat) :
    Made ExprAt (BitN.parserParseExpression n) (parserParseExpression allocator n) := by
  induction n with
  | zero => exact followsCut
  | succ n ih =>
    have additive := binaryMade allocator additiveOps
      (binaryMade allocator multiplicativeOps (unaryMade allocator ih n) n) n
    have comparison := binaryMade allocator comparisonOps (binaryMade allocator shiftOps additive n) n
    have equality := binaryMade allocator equalityOps comparison n
    have bitwise := binaryMade allocator bitwiseXorOps (binaryMade allocator bitwiseAndOps equality n) n
    exact binaryMade allocator bitwiseOrOps bitwise n

end expressions

/-! Statements and functions -/

theorem turnMade {α β : Type} {body : Parse α} {body' : Parsing β} {owned : Bag} {Q : α → β → Bag → Prop} (loop : Loop)
    (inner : Parsed owned body body' Q) : Parsed owned (BitN.parserTurn loop body) (parserTurn loop body') Q := by
  refine parsedStep (Run.movesRead _) fun before => parsedStep (keepsNote fun _ => rfl) fun _ => ?_
  refine followsBind inner fun a b left made => ?_
  exact parsedStep (keepsNote fun _ => rfl) fun _ => followsPure made

theorem itemMade {τ ι : Type} {I : List τ → ι → Bag → Prop} {item : Parse τ} {add : ι → Parsing ι} (loop : Loop)
    (added : ∀ before items m, I before items m →
      Parsed m item (add items) fun t items' left => I (before ++ [t]) items' left)
    {before : List τ} {items : ι} {m : Bag} (held : I before items m) :
    Parsed m (BitN.parserItem loop item before) (parserItem loop add items) (Onward I I) := by
  refine parsedCheck fun brace => followsIte (fun _ => followsPure (.off held)) fun _ => ?_
  refine parsedCheck fun ended => followsIte (fun _ => followsPure (.off held)) fun _ => ?_
  refine followsBind (turnMade loop (added before items m held)) fun t items' left held' => ?_
  exact followsPure (.on held')

theorem itemsMade {τ ι : Type} {I : List τ → ι → Bag → Prop} {item : Parse τ} {add : ι → Parsing ι} (loop : Loop)
    (added : ∀ before items m, I before items m →
      Parsed m item (add items) fun t items' left => I (before ++ [t]) items' left)
    (n : Nat) {items : ι} {m : Bag} (start : I [] items m) :
    Parsed m (BitN.parserItems loop item n) (Routine.loop (parserItem loop add) n items) I :=
  followsLoop I (fun _ _ _ held => itemMade loop added held) n start

inductive StatementsAt : List ASTStmt → Items → Bag → Prop where
  | held {statements array slots cells ms} (room : ArrayAt array slots cells)
      (each : EachAt StmtAt statements slots ms) :
      StatementsAt statements (array, statements.length) (cells + ms)

theorem statementAdded {statement : Parse ASTStmt} {statement' : Parsing Pointer}
    (inner : Made StmtAt statement statement') {before : List ASTStmt} {items : Items} {m : Bag}
    (held : StatementsAt before items m) : Parsed m statement (parserAddStatement allocator statement' items)
      fun s items' left => StatementsAt (before ++ [s]) items' left := by
  cases held with
  | @held array slots cells ms room each =>
    unfold parserAddStatement
    rw [← each.length]
    refine followsHeap (runsFrame (reallocated allocator room (Nat.le_succ _)) ms) ?_
    rintro _ _ ⟨_, rfl, q, rfl, rfl⟩
    refine followsThen inner fun s p m' made => ?_
    have ran := runsFrame (slotWritten (p := q) (Nat.lt_succ_self slots.length) p) (m' + ms)
    rw [add_left_comm] at ran
    refine followsHeap ran ?_
    rintro _ _ ⟨_, rfl, rfl⟩
    have fits : (slots ++ [p]).length ≤ slots.length + 1 := by rw [List.length_append, List.length_singleton]
    have grown : StatementsAt (before ++ [s]) _ _ := .held (.some (p := q) fits) (each.snoc made)
    rw [List.length_append, List.length_singleton, ← each.length, add_comm ms] at grown
    exact followsPure grown

theorem stmtReturned {s : ASTStmt} {node : StmtNode} {owned : Bag}
    (made : ∀ p, StmtAt s (some p) (stmtCell p node + owned)) :
    Parsed owned (pure s) (heap (newStmt allocator node)) StmtAt := by
  refine followsReturn (runsWeaken (stmtNew allocator node owned) ?_)
  rintro _ _ ⟨q, rfl, rfl⟩
  exact made q

theorem blockMade {statement : Parse ASTStmt} {statement' : Parsing Pointer}
    (inner : Made StmtAt statement statement') (n : Nat) :
    Made StmtAt (BitN.parserParseBlock statement n) (parserParseBlock allocator statement' n) := by
  refine parsedStep (keepsMatch _) fun opened => followsIte (fun _ => ?_) fun _ => ?_
  · have empty : StatementsAt [] (none, 0) (0 + 0) := .held .null .nil
    refine followsBind (itemsMade .statements (fun _ _ _ held => statementAdded allocator inner held) n empty) ?_
    rintro statements ⟨array, count⟩ left held
    refine parsedStep (keepsExpect _ (by decide)) fun _ => ?_
    cases held with
    | held room each => exact stmtReturned allocator fun p => .block room each
  · exact parsedStep (keepsError (by decide)) fun _ => followsPure .null

theorem declarationMade {expression : Parse ASTExpr} {expression' : Parsing Pointer}
    (inner : Made ExprAt expression expression') (isMut : Bool) :
    Made StmtAt (BitN.parserParseDeclaration expression isMut)
      (parserParseDeclaration allocator expression' isMut) := by
  refine parsedStep keepsAdvance fun _ => parsedStep (Run.movesRead _) fun name => ?_
  refine parsedStep (keepsExpect _ (by decide)) fun _ => parsedStep (keepsExpect _ (by decide)) fun _ => ?_
  refine followsBind (typeMade allocator) fun type t m typed => ?_
  cases typed with
  | null => exact followsPure .null
  | @some p kind =>
    refine parsedCheck fun assign => parsedCheck fun equal => followsIte (fun _ => ?_) fun _ => ?_
    · refine parsedStep keepsAdvance fun _ => followsNew inner fun init i m' made => ?_
      refine parsedStep (keepsMatch _) fun _ => stmtReturned allocator fun q => ?_
      rw [add_comm m']
      exact .varDecl .some made
    · -- The one place where something is lost.
      refine followsLoss (show _ = 0 + _ from (zero_add _).symm) (fun s => ⟨?_, ?_⟩) fun _ => followsPure .null
      · exact List.countP_cons_of_pos rfl
      · rintro cell member
        obtain rfl := Multiset.mem_singleton.mp member
        exact ⟨kind, rfl⟩

theorem returnMade {expression : Parse ASTExpr} {expression' : Parsing Pointer}
    (inner : Made ExprAt expression expression') :
    Made StmtAt (BitN.parserParseReturn expression) (parserParseReturn allocator expression') := by
  refine parsedCheck fun _ => parsedCheck fun _ => parsedCheck fun _ => followsIte (fun _ => ?_) fun _ => ?_
  · exact parsedStep (keepsMatch _) fun _ => stmtReturned allocator fun p => .ret .null
  · refine followsBind inner fun e p left made => ?_
    exact parsedStep (keepsMatch _) fun _ => stmtReturned allocator fun p => .ret made

theorem statementMade (n : Nat) : Made StmtAt (BitN.parserParseStatement n) (parserParseStatement allocator n) := by
  induction n with
  | zero => exact followsCut
  | succ n ih =>
    have expression := expressionMade allocator n
    refine parsedCheck fun _ => parsedCheck fun _ => followsIte (fun _ => ?_) fun _ => ?_
    · exact parsedCheck fun isMut => declarationMade allocator expression isMut
    refine parsedStep (keepsMatch _) fun _ => followsIte (fun _ => returnMade allocator expression) fun _ => ?_
    refine parsedCheck fun _ => followsIte (fun _ => blockMade allocator ih n) fun _ => ?_
    refine followsBind expression fun e p left made => ?_
    exact parsedStep (keepsMatch _) fun _ => stmtReturned allocator fun p => .expr made

theorem bodyMade (n : Nat) : Made StmtAt (BitN.parserParseBody n) (parserParseBody allocator n) := by
  have statement := statementMade allocator n
  refine parsedStep (keepsMatch _) fun assign => followsIte (fun _ => ?_) fun _ => ?_
  · refine followsHeap (runsAlloc allocator _) ?_
    rintro array _ rfl
    refine followsNew statement fun s p m made => ?_
    have first : Runs {⟨array, .pointers 1 []⟩} (setSlot (some array) 0 p) fun _ left =>
        left = {⟨array, .pointers 1 [p]⟩} := slotWritten Nat.one_pos p
    have ran := runsFrame first m
    rw [add_comm, add_zero]
    refine followsHeap ran ?_
    rintro _ _ ⟨_, rfl, rfl⟩
    have only : EachAt StmtAt [s] [p] (m + 0) := .cons made .nil
    rw [add_zero] at only
    exact stmtReturned allocator fun q => .block (.some (Nat.le_refl 1)) only
  · refine parsedCheck fun _ => followsIte (fun _ => blockMade allocator statement n) fun _ => ?_
    refine parsedStep (keepsError (by decide)) fun _ => stmtReturned allocator fun p => ?_
    exact StmtAt.block .null .nil

theorem typeTaken {type : Option TypeKind} {t : Pointer} {m : Bag} (typed : TypeAt type t m) (p : Nat) :
    Runs (m + {⟨p, .type .typeU32⟩}) (takeType p t) fun _ left => left = {⟨p, .type (type.getD .typeU32)⟩} := by
  cases typed with
  | null => exact runsPure (zero_add _)
  | some =>
    refine runsCall rfl (loadedAs rfl) ?_
    rintro _ _ ⟨rfl, rfl⟩
    refine runsBind (runsStore _ (add_comm _ _)) ?_
    rintro _ _ rfl
    exact runsFree (add_comm _ _)

theorem keepsArrow (isNimStyle : Bool) : Run.Moves Keeps (parserExpectArrow isNimStyle) := by
  cases isNimStyle with
  | true => exact keepsExpect _ (by decide)
  | false => exact keepsExpect _ (by decide)

/-- No parameters are parsed. -/
def DefinedAt (func : ASTFunctionDef) (p : Pointer) (m : Bag) : Prop := FunctionAt func p m ∧ func.params = []

theorem signatureMade (isNimStyle : Bool) (n : Nat) : Made DefinedAt (BitN.parserParseSignature isNimStyle n)
    (parserParseSignature allocator isNimStyle n) := by
  refine parsedStep (Run.movesRead _) fun name => parsedStep (keepsExpect _ (by decide)) fun _ => ?_
  refine parsedStep (keepsExpect _ (by decide)) fun _ => parsedStep (keepsExpect _ (by decide)) fun _ => ?_
  refine followsHeap (runsAlloc allocator _) ?_
  rintro returnType _ rfl
  refine parsedStep (keepsArrow isNimStyle) fun _ => followsNew (typeMade allocator) fun type t m typed => ?_
  rw [add_zero]
  refine followsHeap (typeTaken typed returnType) ?_
  rintro _ _ rfl
  refine followsNew (bodyMade allocator n) fun body b m' made => followsReturn (runsMap (runsWeaken (runsAlloc _ _) ?_))
  rintro p _ rfl
  have function : FunctionAt ⟨name, some (type.getD .typeU32), [], body⟩ (some p) _ :=
    .function (.some (p := returnType)) .null made
  rw [add_zero, add_comm _ m'] at function
  exact ⟨function, rfl⟩

inductive OptionAt {τ : Type} (At : τ → Pointer → Bag → Prop) : Option τ → Pointer → Bag → Prop where
  | none : OptionAt At none none 0
  | some {t p m} (made : At t (some p) m) : OptionAt At (some t) (some p) m

theorem functionMade (n : Nat) : Made (OptionAt DefinedAt) (BitN.parserParseFunction n)
    (parserParseFunction allocator n) := by
  refine parsedStep (keepsMatchOf _) fun found => ?_
  cases found with
  | none => exact parsedStep (keepsError (by decide)) fun _ => followsPure .none
  | some isNimStyle =>
    refine followsMap (signatureMade allocator isNimStyle n) fun func p left made => ?_
    obtain ⟨q, rfl⟩ : ∃ q, p = some q := by
      cases made.1
      exact ⟨_, rfl⟩
    exact .some made

/-! Peripherals -/

theorem fieldMade : Made FieldAt BitN.parserParseField (parserParseField allocator) := by
  have read : Parsed 0 (BitN.parserParseField >>= pure) (parserParseField allocator) FieldAt := by
    refine parsedStep keepsField fun field => followsReturn (runsMap (runsWeaken (runsAlloc allocator _) ?_))
    rintro p _ rfl
    exact .field
  rwa [runPure] at read

/-- Items of one kind made, each added to its owner. -/
theorem partsMade {τ : Type} {At : τ → Pointer → Bag → Prop} (Owner : List τ → Bag → Prop) {item : Parse τ}
    {item' : Parsing Pointer} {add : Pointer → Client Unit} (loop : Loop) (inner : Made At item item')
    (null : ∀ t m, ¬At t none m)
    (added : ∀ before m t q m', Owner before m → At t q m' → Runs (m + m') (add q)
      fun _ left => Owner (before ++ [t]) left) (n : Nat) {m : Bag} (start : Owner [] m) :
    Parsed m (BitN.parserItems loop item n) (Routine.loop (parserItem loop (parserAddItem item' add)) n ())
      fun items _ left => Owner items left := by
  refine itemsMade (I := fun items _ left => Owner items left) loop (fun before _ m owner => ?_) n start
  refine followsThen inner fun t p m' made => ?_
  cases p with
  | none => exact absurd made (null t m')
  | some p =>
    rw [add_comm m']
    exact followsReturn (added before m t (some p) m' owner made)

theorem registerMade (n : Nat) : Made RegisterAt (BitN.parserParseRegister n) (parserParseRegister allocator n) := by
  refine parsedStep (keepsExpect _ (by decide)) fun _ => parsedStep (Run.movesRead _) fun name => ?_
  refine parsedStep (keepsExpect _ (by decide)) fun _ => parsedStep (keepsExpect _ (by decide)) fun _ => ?_
  refine parsedStep (keepsMatchOf _) fun kind => followsHeap (runsAlloc allocator _) ?_
  rintro type _ rfl
  refine parsedStep (keepsExpect _ (by decide)) fun _ => parsedStep (keepsExpectNumber (by decide)) fun offset => ?_
  refine parsedStep (keepsExpect _ (by decide)) fun _ => followsHeap (runsAlloc allocator _) ?_
  rintro reg _ rfl
  have bare : RegisterAt ⟨name, some (kind.getD .typeU32), offset, []⟩ (some reg) _ :=
    .register (.some (p := type)) .null .nil
  let owner : List ASTField → Bag → Prop := fun fields left =>
    RegisterAt ⟨name, some (kind.getD .typeU32), offset, fields⟩ (some reg) left
  refine followsBind (partsMade owner .fields (fieldMade allocator) (fun _ _ => nofun)
    (fun _ _ _ _ _ held field => fieldAdded allocator held field) n bare) fun fields _ left made => ?_
  exact parsedStep (keepsExpect _ (by decide)) fun _ => followsPure made

theorem peripheralMade (n : Nat) : Made PeripheralAt (BitN.parserParsePeripheral n)
    (parserParsePeripheral allocator n) := by
  refine parsedStep (keepsExpect _ (by decide)) fun _ => parsedStep (Run.movesRead _) fun name => ?_
  refine parsedStep (keepsExpect _ (by decide)) fun _ => parsedStep (keepsExpect _ (by decide)) fun _ => ?_
  refine parsedStep (keepsExpectNumber (by decide)) fun base => parsedStep (keepsExpect _ (by decide)) fun _ => ?_
  refine followsHeap (runsAlloc allocator _) ?_
  rintro periph _ rfl
  have bare : PeripheralAt ⟨name, base, []⟩ (some periph) _ := .peripheral .null .nil
  let owner : List ASTRegister → Bag → Prop := fun registers left =>
    PeripheralAt ⟨name, base, registers⟩ (some periph) left
  refine followsBind (partsMade owner .registers (registerMade allocator n) (fun _ _ => nofun)
    (fun _ _ _ _ _ held reg => registerAdded allocator held reg) n bare) fun registers _ left made => ?_
  exact parsedStep (keepsExpect _ (by decide)) fun _ => followsPure made

/-! Programs -/

def ParsedProgramAt (prog : ASTProgram) (p : Pointer) (m : Bag) : Prop :=
  ProgramAt prog p m ∧ ∀ func ∈ prog.functions, func.params = []

theorem definitionMade (n : Nat) {prog : ASTProgram} {p : Nat} {m : Bag} (held : ParsedProgramAt prog (some p) m) :
    Parsed m (BitN.parserParseDefinition n prog) (parserParseDefinition allocator n p ())
      (Onward (fun prog _ left => ParsedProgramAt prog (some p) left) ParsedProgramAt) := by
  refine parsedCheck fun _ => followsIte (fun _ => followsPure (.off held)) fun _ => ?_
  refine parsedCheck fun _ => parsedCheck fun _ => parsedCheck fun _ => followsIte (fun _ => ?_) fun _ => ?_
  · refine followsNew (turnMade .definitions (functionMade allocator n)) fun func q m' made => ?_
    cases made with
    | none =>
      rw [zero_add]
      exact followsPure (.on held)
    | @some func q m' made =>
      rw [add_comm m']
      refine followsHeap (functionAdded allocator held.1 made.1) fun _ left grown => followsPure (.on ⟨grown, ?_⟩)
      intro func' member
      rcases List.mem_append.mp member with before | here
      · exact held.2 func' before
      · exact List.mem_singleton.mp here ▸ made.2
  refine parsedCheck fun _ => followsIte (fun _ => ?_) fun _ => ?_
  · refine followsNew (turnMade .definitions (peripheralMade allocator n)) fun periph q m' made => ?_
    cases q with
    | none => cases made
    | some q =>
      rw [add_comm m']
      refine followsHeap (peripheralAdded allocator held.1 made) fun _ left grown => followsPure (.on ⟨grown, held.2⟩)
  · exact parsedStep (keepsError (by decide)) fun _ => followsPure (.off held)

theorem programMade (n : Nat) : Made ParsedProgramAt (BitN.parserParseProgram n) (parserParseProgram allocator n) := by
  refine followsHeap (runsAlloc allocator _) ?_
  rintro p _ rfl
  have bare : ProgramAt ⟨[], []⟩ (some p) _ := .program .null .nil .null .nil
  exact followsLoop (fun prog _ left => ParsedProgramAt prog (some p) left)
    (fun _ _ _ held => definitionMade allocator n held) n ⟨bare, nofun⟩

end made

end BitN.ParserMemory
