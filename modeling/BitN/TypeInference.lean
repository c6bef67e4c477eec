import BitN.AST
import BitN.Lib.Scopes

/-! The type checker: a symbol table of nested scopes, and one pass over the program that
keeps going after an error. `Type *` is `Option TypeKind`, with NULL for none. -/
namespace BitN

/-! Types -/

def typeEqual (a b : Option TypeKind) : Bool := a = b

def typeCompatible (target source : Option TypeKind) : Bool := typeEqual target source

def typeIsInteger : TypeKind → Bool
  | .typeU8 | .typeU16 | .typeU32 | .typeU64 | .typeI8 | .typeI16 | .typeI32 | .typeI64 => true
  | .typeVoid => false

def typeGetSize : TypeKind → Nat
  | .typeU8 | .typeI8 => 1
  | .typeU16 | .typeI16 => 2
  | .typeU32 | .typeI32 => 4
  | .typeU64 | .typeI64 => 8
  | .typeVoid => 0

/-! Symbols -/

structure Symbol where
  name : CString
  type : TypeKind
  isParameter : Bool
  isMutable : Bool
  isInitialized : Bool

abbrev Scope := Scopes.Scope Symbol.name

structure SymbolTable where
  inner : List Scope
  globalScope : Scope

def SymbolTable.scopes (table : SymbolTable) : List Scope := table.inner ++ [table.globalScope]

def SymbolTable.currentScope (table : SymbolTable) : Scope := table.inner.headD table.globalScope

def SymbolTable.setCurrent (table : SymbolTable) (scope : Scope) : SymbolTable :=
  match table.inner with
  | [] => { table with globalScope := scope }
  | _ :: outer => { table with inner := scope :: outer }

def symbolTableCreate : SymbolTable := ⟨[], .empty⟩

def symbolTablePushScope (table : SymbolTable) : SymbolTable := { table with inner := .empty :: table.inner }

-- The global scope is not popped.
def symbolTablePopScope (table : SymbolTable) : SymbolTable := { table with inner := table.inner.tail }

def symbolTableLookup (table : SymbolTable) (name : CString) : Option Symbol := Scopes.lookup table.scopes name

def symbolTableLookupLocal (table : SymbolTable) (name : CString) : Option Symbol := table.currentScope.find name

def symbolTableIsDefinedLocal (table : SymbolTable) (name : CString) : Bool :=
  (symbolTableLookupLocal table name).isSome

/-- None for 0: no type, or a symbol of that name in the current scope. -/
def symbolTableAddSymbol (table : SymbolTable) (name : CString) (type : Option TypeKind)
    (isParam isMutable isInitialized : Bool) : Option SymbolTable :=
  match type with
  | none => none
  | some type => (table.currentScope.declare ⟨name, type, isParam, isMutable, isInitialized⟩).map table.setCurrent

theorem addSymbolRefused (table : SymbolTable) (name : CString) (type : TypeKind)
    (isParam isMutable isInitialized : Bool) :
    symbolTableAddSymbol table name (some type) isParam isMutable isInitialized = none ↔
      symbolTableIsDefinedLocal table name = true := by
  rw [symbolTableAddSymbol, Option.map_eq_none_iff, Scopes.Scope.declareRefused, symbolTableIsDefinedLocal,
    symbolTableLookupLocal, Option.isSome_iff_ne_none, Ne, Scopes.Scope.findNone]
  simp

theorem scopesCurrent (table : SymbolTable) :
    ∃ outer, ∀ scope, (table.setCurrent scope).scopes = scope :: outer := by
  rcases table with ⟨_ | ⟨current, outer⟩, globalScope⟩
  · exact ⟨[], fun scope => rfl⟩
  · exact ⟨outer ++ [globalScope], fun scope => rfl⟩

@[simp] theorem setCurrentSame (table : SymbolTable) : table.setCurrent table.currentScope = table := by
  rcases table with ⟨_ | ⟨current, outer⟩, globalScope⟩ <;> rfl

@[simp] theorem setCurrentTwice (table : SymbolTable) (scope scope' : Scope) :
    (table.setCurrent scope).setCurrent scope' = table.setCurrent scope' := by
  rcases table with ⟨_ | ⟨current, outer⟩, globalScope⟩ <;> rfl

@[simp] theorem popPushed (table : SymbolTable) (scope : Scope) :
    symbolTablePopScope ((symbolTablePushScope table).setCurrent scope) = table := rfl

/-! The context -/

/-- What is written to `stderr`. -/
inductive Report where
  | undefinedVariable (name : CString)
  | stringLiteral
  | binaryMismatch (left right : TypeKind)
  | sliceOperand (type : TypeKind)
  | sliceRange (start stop : UInt32)
  | arrayIndex
  | call
  | memberAccess
  | letUninitialized
  | initializerMismatch (declared : Option TypeKind) (init : TypeKind)
  | symbolDefined (name : CString)
  | parameterDefined (name : CString)
  | functionDefined (name : CString)
  | returnMismatch (expected result : TypeKind)
  deriving DecidableEq

structure TypeContext where
  symbols : SymbolTable
  errorCount : Int
  currentFunction : Option CString
  expectedReturnType : Option TypeKind
  reports : List Report

def typeContextCreate : TypeContext := ⟨symbolTableCreate, 0, none, none, []⟩

def typeContextSetFunction (ctx : TypeContext) (name : CString) (returnType : Option TypeKind) : TypeContext :=
  { ctx with currentFunction := some name, expectedReturnType := returnType }

def TypeContext.print (ctx : TypeContext) (report : Report) : TypeContext :=
  { ctx with reports := ctx.reports ++ [report] }

-- ctx->error_count++
def TypeContext.count (ctx : TypeContext) : TypeContext := { ctx with errorCount := wrapInt (ctx.errorCount + 1) }

def TypeContext.report (ctx : TypeContext) (report : Report) : TypeContext := (ctx.print report).count

/-! Expressions -/

def ASTExpr.isNull : ASTExpr → Bool
  | .null => true
  | _ => false

def inferBinaryOpType (op : BinaryOp) (left : TypeKind) : TypeKind :=
  match op with
  | .bopAdd | .bopSub | .bopMul | .bopDiv | .bopMod => left
  | .bopAnd | .bopOr | .bopXor | .bopLshift | .bopRshift | .bopLrotate | .bopRrotate => left
  | .bopEq | .bopNe | .bopLt | .bopGt | .bopLe | .bopGe => .typeU8

def inferExprType : TypeContext → ASTExpr → Option TypeKind × TypeContext
  | ctx, .null => (none, ctx)
  | ctx, .number _ => (some .typeU32, ctx)
  | ctx, .identifier name =>
    match symbolTableLookup ctx.symbols name with
    | none => (none, ctx.report (.undefinedVariable name))
    | some sym => (some sym.type, ctx)
  | ctx, .boolean _ => (some .typeU8, ctx)
  | ctx, .string _ => (none, ctx.report .stringLiteral)
  | ctx, .unaryOp _ operand => inferExprType ctx operand
  | ctx, .binaryOp op left right =>
    match inferExprType ctx left with
    | (none, ctx) => (none, ctx)
    | (some left, ctx) =>
      match inferExprType ctx right with
      | (none, ctx) => (none, ctx)
      | (some right, ctx) =>
        if typeCompatible (some left) (some right) then (some (inferBinaryOpType op left), ctx)
        else (none, ctx.report (.binaryMismatch left right))
  | ctx, .bitSlice expr start stop =>
    match inferExprType ctx expr with
    | (none, ctx) => (none, ctx)
    | (some type, ctx) =>
      if !typeIsInteger type then (none, ctx.report (.sliceOperand type))
      else if stop - start ≤ 0 then (none, ctx.report (.sliceRange start stop))
      else if stop - start ≤ 8 then (some .typeU8, ctx)
      else if stop - start ≤ 16 then (some .typeU16, ctx)
      else if stop - start ≤ 32 then (some .typeU32, ctx)
      else (some .typeU64, ctx)
  | ctx, .arrayIndex _ _ => (none, ctx.report .arrayIndex)
  | ctx, .call _ _ => (none, ctx.report .call)
  | ctx, .memberAccess _ _ => (none, ctx.report .memberAccess)

/-! Statements -/

/-- The call of `symbol_table_add_symbol`, with its own message, and the caller's on 0. -/
def TypeContext.addSymbol (ctx : TypeContext) (refused : Report) (name : CString) (type : Option TypeKind)
    (isParam isMutable isInitialized : Bool) : Bool × TypeContext :=
  match symbolTableAddSymbol ctx.symbols name type isParam isMutable isInitialized with
  | some symbols => (true, { ctx with symbols })
  | none =>
    let ctx := if type.isSome then ctx.print (.symbolDefined name) else ctx
    (false, ctx.report refused)

def checkInitializer (ctx : TypeContext) (type : Option TypeKind) (init : ASTExpr) : Bool × TypeContext :=
  if init.isNull then (true, ctx)
  else
    match inferExprType ctx init with
    | (none, ctx) => (false, ctx.count)
    | (some initType, ctx) =>
      if typeCompatible type (some initType) then (true, ctx)
      else (false, ctx.report (.initializerMismatch type initType))

def checkReturn (ctx : TypeContext) (value : ASTExpr) : Bool × TypeContext :=
  if value.isNull then (true, ctx)
  else
    match inferExprType ctx value with
    | (none, ctx) => (false, ctx.count)
    | (some type, ctx) =>
      match ctx.expectedReturnType with
      | none => (true, ctx)
      | some expected =>
        if typeCompatible (some expected) (some type) then (true, ctx)
        else (false, ctx.report (.returnMismatch expected type))

mutual
def checkStmtTypes : TypeContext → ASTStmt → Bool × TypeContext
  | ctx, .null => (true, ctx)
  | ctx, .varDecl name type init isMut =>
    if !isMut && init.isNull then (false, ctx.report .letUninitialized)
    else
      match checkInitializer ctx type init with
      | (false, ctx) => (false, ctx)
      | (true, ctx) => ctx.addSymbol (.symbolDefined name) name type false isMut (!init.isNull)
  | ctx, .expr e =>
    if e.isNull then (true, ctx)
    else
      match inferExprType ctx e with
      | (none, ctx) => (false, ctx.count)
      | (some _, ctx) => (true, ctx)
  | ctx, .ret value => checkReturn ctx value
  | ctx, .block statements =>
    let (result, ctx) := checkStatements { ctx with symbols := symbolTablePushScope ctx.symbols } statements
    (result, { ctx with symbols := symbolTablePopScope ctx.symbols })
  | ctx, .ifStmt => (true, ctx)
  | ctx, .whileStmt => (true, ctx)
def checkStatements : TypeContext → List ASTStmt → Bool × TypeContext
  | ctx, [] => (true, ctx)
  | ctx, statement :: statements =>
    let (ok, ctx) := checkStmtTypes ctx statement
    let (result, ctx) := checkStatements ctx statements
    (ok && result, ctx)
end

/-! Functions and programs -/

def checkParameters : TypeContext → List (CString × Option TypeKind) → Bool × TypeContext
  | ctx, [] => (true, ctx)
  | ctx, (name, type) :: params =>
    match ctx.addSymbol (.parameterDefined name) name type true false true with
    | (false, ctx) => (false, ctx)
    | (true, ctx) => checkParameters ctx params

def checkFunctionTypes (ctx : TypeContext) (func : ASTFunctionDef) : Bool × TypeContext :=
  let ctx := { ctx with symbols := symbolTablePushScope ctx.symbols }
  let ctx := typeContextSetFunction ctx func.name func.returnType
  match checkParameters ctx func.params with
  | (false, ctx) => (false, { ctx with symbols := symbolTablePopScope ctx.symbols })
  | (true, ctx) =>
    let (result, ctx) := checkStmtTypes ctx func.body
    (result, { ctx with symbols := symbolTablePopScope ctx.symbols })

def registerFunctions : TypeContext → List ASTFunctionDef → Bool × TypeContext
  | ctx, [] => (true, ctx)
  | ctx, func :: functions =>
    let (ok, ctx) := ctx.addSymbol (.functionDefined func.name) func.name func.returnType false false true
    let (result, ctx) := registerFunctions ctx functions
    (ok && result, ctx)

def checkFunctions : TypeContext → List ASTFunctionDef → Bool × TypeContext
  | ctx, [] => (true, ctx)
  | ctx, func :: functions =>
    let (ok, ctx) := checkFunctionTypes ctx func
    let (result, ctx) := checkFunctions ctx functions
    (ok && result, ctx)

def checkProgramTypes (ctx : TypeContext) (program : ASTProgram) : Bool × TypeContext :=
  let (registered, ctx) := registerFunctions ctx program.functions
  let (checked, ctx) := checkFunctions ctx program.functions
  (registered && checked && ctx.errorCount = 0, ctx)

end BitN
