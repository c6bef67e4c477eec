import BitN.AstMemory
import BitN.CheckerMemory
import BitN.Lib.Routine
import BitN.Parser

/-! The parser as it works in memory: each node is allocated where the source allocates it, on the paths that
end in an error as well. Its window on the tokens, and what it reports, are those of `Parser`. -/
namespace BitN.ParserMemory
open Heap AstMemory Routine

abbrev Parsing (α : Type) := Routine Parser Block α

def lexerCreate (allocator : Allocator Block) : Client Pointer := some <$> alloc allocator .lexer

def lexerFree : Pointer → Client Unit := freePointer

def parserCreate (allocator : Allocator Block) : Client Pointer := do
  let parser ← alloc allocator (.parser none)
  let lexer ← lexerCreate allocator
  store parser (.parser lexer)
  pure (some parser)

def Block.parser? : Block → Option Pointer
  | .parser lexer => some lexer
  | _ => none

def parserFree : Pointer → Client Unit
  | none => pure ()
  | some p => do
    lexerFree (← loadAs Block.parser? p)
    free p

section parse
variable (allocator : Allocator Block)

def parserTurn {α : Type} (loop : Loop) (body : Parsing α) : Parsing α := do
  let before ← run (Run.read fun parser => parser.ahead.length)
  run (Run.modify fun parser => parser.note (.enter loop parser.current.type))
  let item ← body
  run (Run.modify fun parser => parser.note (.again loop before parser.ahead.length))
  return item

-- The items of a loop up to its closing brace.
def parserItem {ι : Type} (loop : Loop) (add : ι → Parsing ι) (items : ι) : Parsing (ι ⊕ ι) := do
  if ← run (parserCheck .tokRbrace) then return .inr items
  else if ← run (parserCheck .tokEof) then return .inr items
  else return .inl (← parserTurn loop (add items))

def parserParseType : Parsing Pointer := do
  match ← run (parserMatchOf types) with
  | some kind => heap (some <$> alloc allocator (.type kind))
  | none => do
    run (parserError "Expected type annotation")
    return none

/-! Expressions -/

structure Arguments where
  args : Pointer
  argCapacity : Nat
  argCount : Nat

def growArguments (a : Arguments) : Client Arguments :=
  if a.argCount ≥ a.argCapacity then do
    let args ← realloc allocator a.args (a.argCapacity * 2)
    pure { a with args, argCapacity := a.argCapacity * 2 }
  else pure a

def parserParseArgument (expression : Parsing Pointer) (a : Arguments) : Parsing (Arguments ⊕ Arguments) := do
  let a ← heap (growArguments allocator a)
  let arg ← expression
  heap (setSlot a.args a.argCount arg)
  if ← run (parserMatch .tokComma) then return .inl { a with argCount := a.argCount + 1 }
  else return .inr { a with argCount := a.argCount + 1 }

def parserParseArguments (expression : Parsing Pointer) (fuel : Nat) : Parsing Arguments := do
  let args ← heap (alloc allocator (.pointers 10 []))
  if ← run (parserCheck .tokRparen) then return ⟨some args, 10, 0⟩
  else loop (parserParseArgument allocator expression) fuel ⟨some args, 10, 0⟩

def parserParsePrimary (expression : Parsing Pointer) (fuel : Nat) : Parsing Pointer := do
  if ← run (parserCheck .tokNumber) then
    let value ← run (parserNumeral 64)
    run parserAdvance
    heap (newExpr allocator (.number value))
  else if ← run (parserCheck .tokIdentifier) then
    let name ← run parserValue
    run parserAdvance
    if ← run (parserCheck .tokLparen) then
      run parserAdvance
      let a ← parserParseArguments allocator expression fuel
      run (parserExpect .tokRparen "Expected ')' after arguments")
      let func ← heap (newExpr allocator (.identifier name))
      heap (newExpr allocator (.call func a.args a.argCount))
    else heap (newExpr allocator (.identifier name))
  else if ← run (parserMatch .tokTrue) then heap (newExpr allocator (.boolean true))
  else if ← run (parserMatch .tokFalse) then heap (newExpr allocator (.boolean false))
  else if ← run (parserCheck .tokLparen) then
    run parserAdvance
    let expr ← expression
    run (parserExpect .tokRparen "Expected ')' after expression")
    return expr
  else
    run (parserError "Expected primary expression")
    return none

def parserParseUnary (expression : Parsing Pointer) : Nat → Parsing Pointer
  | 0 => cut
  | fuel + 1 => do
    match ← run (parserMatchOf unaryOps) with
    | some op =>
      let operand ← parserParseUnary expression fuel
      heap (newExpr allocator (.unaryOp op operand))
    | none => parserParsePrimary allocator expression fuel

def parserParseOperator (ops : List (TokenType × BinaryOp)) (next : Parsing Pointer) (left : Pointer) :
    Parsing (Pointer ⊕ Pointer) := do
  match ← run (parserMatchOf ops) with
  | some op =>
    let right ← next
    return .inl (← heap (newExpr allocator (.binaryOp op left right)))
  | none => return .inr left

def parserParseBinary (ops : List (TokenType × BinaryOp)) (next : Parsing Pointer) (fuel : Nat) : Parsing Pointer := do
  let left ← next
  loop (parserParseOperator allocator ops next) fuel left

def parserParseMultiplicative (expression : Parsing Pointer) (fuel : Nat) : Parsing Pointer :=
  parserParseBinary allocator multiplicativeOps (parserParseUnary allocator expression fuel) fuel
def parserParseAdditive (expression : Parsing Pointer) (fuel : Nat) : Parsing Pointer :=
  parserParseBinary allocator additiveOps (parserParseMultiplicative allocator expression fuel) fuel
def parserParseShift (expression : Parsing Pointer) (fuel : Nat) : Parsing Pointer :=
  parserParseBinary allocator shiftOps (parserParseAdditive allocator expression fuel) fuel
def parserParseComparison (expression : Parsing Pointer) (fuel : Nat) : Parsing Pointer :=
  parserParseBinary allocator comparisonOps (parserParseShift allocator expression fuel) fuel
def parserParseEquality (expression : Parsing Pointer) (fuel : Nat) : Parsing Pointer :=
  parserParseBinary allocator equalityOps (parserParseComparison allocator expression fuel) fuel
def parserParseBitwiseAnd (expression : Parsing Pointer) (fuel : Nat) : Parsing Pointer :=
  parserParseBinary allocator bitwiseAndOps (parserParseEquality allocator expression fuel) fuel
def parserParseBitwiseXor (expression : Parsing Pointer) (fuel : Nat) : Parsing Pointer :=
  parserParseBinary allocator bitwiseXorOps (parserParseBitwiseAnd allocator expression fuel) fuel
def parserParseBitwiseOr (expression : Parsing Pointer) (fuel : Nat) : Parsing Pointer :=
  parserParseBinary allocator bitwiseOrOps (parserParseBitwiseXor allocator expression fuel) fuel

def parserParseExpression : Nat → Parsing Pointer
  | 0 => cut
  | fuel + 1 => parserParseBitwiseOr allocator (parserParseExpression fuel) fuel

/-! Statements and functions -/

-- An array and how many of its slots have been written.
abbrev Items := Pointer × Nat

def parserAddStatement (statement : Parsing Pointer) : Items → Parsing Items
  | (statements, stmtCount) => do
    let statements ← heap (realloc allocator statements (stmtCount + 1))
    let item ← statement
    heap (setSlot statements stmtCount item)
    return (statements, stmtCount + 1)

def parserParseBlock (statement : Parsing Pointer) (fuel : Nat) : Parsing Pointer := do
  if ← run (parserMatch .tokLbrace) then
    let (statements, stmtCount) ← loop (parserItem .statements (parserAddStatement allocator statement)) fuel (none, 0)
    run (parserExpect .tokRbrace "Expected '\x7d'")
    heap (newStmt allocator (.block statements stmtCount))
  else
    run (parserError "Expected '\x7b'")
    return none

def parserParseDeclaration (expression : Parsing Pointer) (isMut : Bool) : Parsing Pointer := do
  run parserAdvance
  let name ← run parserValue
  run (parserExpect .tokIdentifier "Expected variable name")
  run (parserExpect .tokColon "Expected ':' after variable name")
  match ← parserParseType allocator with
  | none => return none
  | some declType =>
    if (← run (parserCheck .tokAssign)) || (← run (parserCheck .tokEqual)) then
      run parserAdvance
      let init ← expression
      let _ ← run (parserMatch .tokSemicolon)
      heap (newStmt allocator (.varDecl name (some declType) init isMut))
    else
      -- The declared type is not released.
      run (parserError "Expected '=' in variable declaration")
      return none

def parserParseReturn (expression : Parsing Pointer) : Parsing Pointer := do
  if (← run (parserCheck .tokSemicolon)) || (← run (parserCheck .tokRbrace)) || (← run (parserCheck .tokEof)) then
    let _ ← run (parserMatch .tokSemicolon)
    heap (newStmt allocator (.ret none))
  else
    let value ← expression
    let _ ← run (parserMatch .tokSemicolon)
    heap (newStmt allocator (.ret value))

def parserParseStatement : Nat → Parsing Pointer
  | 0 => cut
  | fuel + 1 => do
    if (← run (parserCheck .tokLet)) || (← run (parserCheck .tokVar)) then
      parserParseDeclaration allocator (parserParseExpression allocator fuel) (← run (parserCheck .tokVar))
    else if ← run (parserMatch .tokReturn) then parserParseReturn allocator (parserParseExpression allocator fuel)
    else if ← run (parserCheck .tokLbrace) then parserParseBlock allocator (parserParseStatement fuel) fuel
    else
      let expr ← parserParseExpression allocator fuel
      let _ ← run (parserMatch .tokSemicolon)
      heap (newStmt allocator (.expr expr))

def parserParseBody (fuel : Nat) : Parsing Pointer := do
  if ← run (parserMatch .tokAssign) then
    let statements ← heap (alloc allocator (.pointers 1 []))
    let statement ← parserParseStatement allocator fuel
    heap (setSlot (some statements) 0 statement)
    heap (newStmt allocator (.block (some statements) 1))
  else if ← run (parserCheck .tokLbrace) then parserParseBlock allocator (parserParseStatement allocator fuel) fuel
  else
    run (parserError "Expected '=' or '\x7b' for function body")
    heap (newStmt allocator (.block none 0))

-- The kind of the type that was parsed, if one was; that type is released.
def takeType (returnType : Nat) : Pointer → Client Unit
  | none => pure ()
  | some parsedType => do
    store returnType (.type (← CheckerMemory.loadType parsedType))
    free parsedType

def parserParseSignature (isNimStyle : Bool) (fuel : Nat) : Parsing Pointer := do
  let name ← run parserValue
  run (parserExpect .tokIdentifier "Expected function name")
  run (parserExpect .tokLparen "Expected '('")
  run (parserExpect .tokRparen "Expected ')'")
  let returnType ← heap (alloc allocator (.type .typeU32))
  run (parserExpectArrow isNimStyle)
  let parsedType ← parserParseType allocator
  heap (takeType returnType parsedType)
  let body ← parserParseBody allocator fuel
  heap (some <$> alloc allocator (.function ⟨name, some returnType, none, none, 0, body⟩))

def parserParseFunction (fuel : Nat) : Parsing Pointer := do
  match ← run (parserMatchOf [(.tokProc, true), (.tokFunc, true), (.tokFn, false)]) with
  | some isNimStyle => parserParseSignature allocator isNimStyle fuel
  | none =>
    run (parserError "Expected 'proc', 'func', or 'fn'")
    return none

/-! Peripherals -/

def parserParseField : Parsing Pointer := do
  let field ← run BitN.parserParseField
  heap (astFieldCreate allocator field)

-- An item that was made goes to its owner.
def parserAddItem (item : Parsing Pointer) (add : Pointer → Client Unit) : Unit → Parsing Unit
  | () => do
    match ← item with
    | none => return ()
    | some p => heap (add (some p))

def parserParseRegister (fuel : Nat) : Parsing Pointer := do
  run (parserExpect .tokRegister "Expected 'register'")
  let name ← run parserValue
  run (parserExpect .tokIdentifier "Expected register name")
  run (parserExpect .tokColon "Expected ':' after register name")
  let kind ← run (parserMatchOf registerTypes)
  let type ← heap (alloc allocator (.type (kind.getD .typeU32)))
  run (parserExpect .tokAt "Expected '@' before offset")
  let offset ← run (parserExpectNumber "Expected offset value")
  run (parserExpect .tokLbrace "Expected '\x7b' after register")
  let reg ← heap (alloc allocator (.register ⟨name, some type, offset, none, 0⟩))
  loop (parserItem .fields (parserAddItem (parserParseField allocator) (astRegisterAddField allocator reg))) fuel ()
  run (parserExpect .tokRbrace "Expected '\x7d' after register")
  return some reg

def parserParsePeripheral (fuel : Nat) : Parsing Pointer := do
  run (parserExpect .tokPeripheral "Expected 'peripheral'")
  let name ← run parserValue
  run (parserExpect .tokIdentifier "Expected peripheral name")
  run (parserExpect .tokAt "Expected '@' before base address")
  let base ← run (parserExpectNumber "Expected base address")
  run (parserExpect .tokLbrace "Expected '\x7b' after peripheral")
  let periph ← heap (alloc allocator (.peripheral ⟨name, base, none, 0⟩))
  let add := astPeripheralAddRegister allocator periph
  loop (parserItem .registers (parserAddItem (parserParseRegister allocator fuel) add)) fuel ()
  run (parserExpect .tokRbrace "Expected '\x7d' after peripheral")
  return some periph

def parserAddDefinition (item : Parsing Pointer) (add : Pointer → Client Unit) : Parsing (Unit ⊕ Pointer) := do
  match ← parserTurn .definitions item with
  | none => return .inl ()
  | some p => do
    heap (add (some p))
    return .inl ()

def parserParseDefinition (fuel : Nat) (program : Nat) (_ : Unit) : Parsing (Unit ⊕ Pointer) := do
  if ← run (parserCheck .tokEof) then return .inr (some program)
  else if (← run (parserCheck .tokProc)) || (← run (parserCheck .tokFunc)) || (← run (parserCheck .tokFn)) then
    parserAddDefinition (parserParseFunction allocator fuel) (astProgramAddFunction allocator program)
  else if ← run (parserCheck .tokPeripheral) then
    parserAddDefinition (parserParsePeripheral allocator fuel) (astProgramAddPeripheral allocator program)
  else
    run (parserError "Expected function or peripheral definition")
    return .inr (some program)

def parserParseProgram (fuel : Nat) : Parsing Pointer := do
  let program ← heap (alloc allocator (.program ⟨none, 0, none, 0⟩))
  loop (parserParseDefinition allocator fuel program) fuel ()

end parse

end BitN.ParserMemory
