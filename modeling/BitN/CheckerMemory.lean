import BitN.AstMemory
import BitN.TypeInference

/-! The type checker as it works in memory: types and names are copied into blocks of its own, and
released by hand. What it prints is left to `TypeInference`. -/
namespace BitN.CheckerMemory
open Heap AstMemory

/-! Types -/

def Block.type? : Block → Option TypeKind
  | .type kind => some kind
  | _ => none

def loadType : Nat → Client TypeKind := loadAs Block.type?

def typeFromKind (allocator : Allocator Block) (kind : TypeKind) : Client Pointer :=
  some <$> alloc allocator (.type kind)

def typeClone (allocator : Allocator Block) : Pointer → Client Pointer
  | none => pure none
  | some type => do
    let kind ← loadType type
    typeFromKind allocator kind

def typeFree : Pointer → Client Unit := freePointer

def typeCompatible : Pointer → Pointer → Client Bool
  | some target, some source => do
    let target ← loadType target
    let source ← loadType source
    pure (BitN.typeCompatible (some target) (some source))
  | target, source => pure (target = source)

/-! The symbol table -/

def Block.text? : Block → Option CString
  | .text text => some text
  | _ => none

def loadText : Pointer → Client CString
  | none => fault
  | some p => loadAs Block.text? p

def Block.symbols? : Block → Option (Nat × List SymbolNode)
  | .symbols capacity slots => some (capacity, slots)
  | _ => none

def loadSymbols : Pointer → Client (Nat × List SymbolNode)
  | none => fault
  | some p => loadAs Block.symbols? p

def getSymbol (symbols : Pointer) (i : Nat) : Client SymbolNode := do
  let (_, slots) ← loadSymbols symbols
  match slots[i]? with
  | some sym => pure sym
  | none => fault

-- The next symbol is the first that has not been written.
def setSymbol (symbols : Pointer) (i : Nat) (sym : SymbolNode) : Client Unit := do
  let (capacity, slots) ← loadSymbols symbols
  match symbols with
  | some p => if i = slots.length ∧ i < capacity then store p (.symbols capacity (slots ++ [sym])) else fault
  | none => fault

def Block.scope? : Block → Option ScopeNode
  | .scope node => some node
  | _ => none

def loadScope : Nat → Client ScopeNode := loadAs Block.scope?

def Block.table? : Block → Option TableNode
  | .table node => some node
  | _ => none

def loadTable : Nat → Client TableNode := loadAs Block.table?

def initialScopeCapacity : Nat := 16

def scopeCreate (allocator : Allocator Block) (parent : Pointer) : Client Pointer := do
  let scope ← alloc allocator (.scope ⟨none, 0, 0, none⟩)
  let symbols ← alloc allocator (.symbols initialScopeCapacity [])
  store scope (.scope ⟨some symbols, 0, initialScopeCapacity, parent⟩)
  pure (some scope)

def freeSymbols (symbols : Pointer) (i : Nat) : Nat → Client Unit
  | 0 => pure ()
  | n + 1 => do
    let sym ← getSymbol symbols i
    freePointer sym.name
    typeFree sym.type
    freeSymbols symbols (i + 1) n

def scopeFree : Pointer → Client Unit
  | none => pure ()
  | some p => do
    let scope ← loadScope p
    freeSymbols scope.symbols 0 scope.symbolCount
    freePointer scope.symbols
    free p

def symbolTableCreate (allocator : Allocator Block) : Client Pointer := do
  let table ← alloc allocator (.table ⟨none, none⟩)
  let globalScope ← scopeCreate allocator none
  store table (.table ⟨globalScope, globalScope⟩)
  pure (some table)

def symbolTablePushScope (allocator : Allocator Block) : Pointer → Client Unit
  | none => pure ()
  | some p => do
    let table ← loadTable p
    let newScope ← scopeCreate allocator table.currentScope
    store p (.table { table with currentScope := newScope })

def symbolTablePopScope : Pointer → Client Unit
  | none => fault
  | some p => do
    let table ← loadTable p
    match table.currentScope with
    | none => store p (.table { table with currentScope := table.globalScope })
    | some oldScope =>
      if table.currentScope = table.globalScope then pure ()
      else do
        let scope ← loadScope oldScope
        store p (.table { table with currentScope := scope.parent })
        scopeFree (some oldScope)

def popScopes (table : Nat) : Nat → Client Unit
  | 0 => fault
  | n + 1 => do
    let node ← loadTable table
    if node.currentScope = node.globalScope then pure ()
    else do
      symbolTablePopScope (some table)
      popScopes table n

def symbolTableFree : Pointer → Client Unit
  | none => pure ()
  | some p => do
    walk (popScopes p)
    let table ← loadTable p
    scopeFree table.globalScope
    free p

/-- A pointer into an array of symbols. -/
abbrev SymbolPointer := Option (Nat × Nat)

-- The loop from index `i` on, with `n` symbols to go.
def scanScope (symbols : Pointer) (name : CString) (i : Nat) : Nat → Client SymbolPointer
  | 0 => pure none
  | n + 1 => do
    let sym ← getSymbol symbols i
    let text ← loadText sym.name
    if text = name then pure (symbols.map fun array => (array, i)) else scanScope symbols name (i + 1) n

def lookupFrom (name : CString) : Pointer → Nat → Client SymbolPointer
  | none, _ => pure none
  | some _, 0 => fault
  | some p, n + 1 => do
    let scope ← loadScope p
    match ← scanScope scope.symbols name 0 scope.symbolCount with
    | some sym => pure (some sym)
    | none => lookupFrom name scope.parent n

def symbolTableLookup (table : Pointer) (name : CString) : Client SymbolPointer := do
  match table with
  | none => pure none
  | some p => do
    let table ← loadTable p
    walk (lookupFrom name table.currentScope)

def symbolTableLookupLocal (table : Pointer) (name : CString) : Client SymbolPointer := do
  match table with
  | none => pure none
  | some p => do
    let table ← loadTable p
    match table.currentScope with
    | none => pure none
    | some current => do
      let scope ← loadScope current
      scanScope scope.symbols name 0 scope.symbolCount

def symbolTableIsDefinedLocal (table : Pointer) (name : CString) : Client Bool :=
  Option.isSome <$> symbolTableLookupLocal table name

def reallocSymbols (allocator : Allocator Block) (symbols : Pointer) (capacity : Nat) : Client Pointer := do
  let (_, slots) ← loadSymbols symbols
  freePointer symbols
  some <$> alloc allocator (.symbols capacity (slots.take capacity))

-- The steps after the check for a redefinition.
def appendSymbol (allocator : Allocator Block) (current : Nat) (name : CString) (type : Pointer)
    (isParam isMutable isInitialized : Bool) : Client Unit := do
  let scope ← loadScope current
  let scope ←
    if scope.symbolCount ≥ scope.capacity then do
      let symbols ← reallocSymbols allocator scope.symbols (scope.capacity * 2)
      pure { scope with capacity := scope.capacity * 2, symbols }
    else pure scope
  let copied ← alloc allocator (.text name)
  setSymbol scope.symbols scope.symbolCount ⟨some copied, type, isParam, isMutable, isInitialized⟩
  store current (.scope { scope with symbolCount := scope.symbolCount + 1 })

def symbolTableAddSymbol (allocator : Allocator Block) (table : Pointer) (name : CString) (type : Pointer)
    (isParam isMutable isInitialized : Bool) : Client Bool := do
  match table, type with
  | some p, some _ => do
    let node ← loadTable p
    match node.currentScope with
    | none => pure false
    | some current => do
      if ← symbolTableIsDefinedLocal table name then pure false
      else do
        appendSymbol allocator current name type isParam isMutable isInitialized
        pure true
  | _, _ => pure false

/-! The context -/

def Block.context? : Block → Option ContextNode
  | .context node => some node
  | _ => none

def loadContext : Nat → Client ContextNode := loadAs Block.context?

def typeContextCreate (allocator : Allocator Block) : Client Pointer := do
  let ctx ← alloc allocator (.context ⟨none, 0, none, none⟩)
  let symbols ← symbolTableCreate allocator
  store ctx (.context ⟨symbols, 0, none, none⟩)
  pure (some ctx)

def typeContextFree : Pointer → Client Unit
  | none => pure ()
  | some p => do
    let ctx ← loadContext p
    symbolTableFree ctx.symbols
    typeFree ctx.expectedReturnType
    free p

def typeContextSetFunction (allocator : Allocator Block) (ctx : Nat) (name : CString) (returnType : Pointer) :
    Client Unit := do
  let node ← loadContext ctx
  store ctx (.context { node with currentFunction := some name })
  typeFree node.expectedReturnType
  let expectedReturnType ← typeClone allocator returnType
  store ctx (.context { node with currentFunction := some name, expectedReturnType })

-- ctx->error_count++
def countError (ctx : Nat) : Client Unit := do
  let node ← loadContext ctx
  store ctx (.context { node with errorCount := wrapInt (node.errorCount + 1) })

/-! Expressions -/

def inferBinaryOpType (allocator : Allocator Block) (op : BinaryOp) (left : Pointer) : Client Pointer :=
  match op with
  | .bopAdd | .bopSub | .bopMul | .bopDiv | .bopMod => typeClone allocator left
  | .bopAnd | .bopOr | .bopXor | .bopLshift | .bopRshift | .bopLrotate | .bopRrotate => typeClone allocator left
  | .bopEq | .bopNe | .bopLt | .bopGt | .bopLe | .bopGe => typeFromKind allocator .typeU8

section check
variable (allocator : Allocator Block) (ctx : Nat)

def inferIdentifier (name : CString) : Client Pointer := do
  match ← symbolTableLookup (← loadContext ctx).symbols name with
  | none => do
    countError ctx
    pure none
  | some (array, i) => do
    let sym ← getSymbol (some array) i
    typeClone allocator sym.type

def inferBinary (op : BinaryOp) (left right : Client Pointer) : Client Pointer := do
  match ← left with
  | none => pure none
  | some left =>
    match ← right with
    | none => do
      typeFree (some left)
      pure none
    | some right => do
      if ← typeCompatible (some left) (some right) then do
        let result ← inferBinaryOpType allocator op (some left)
        typeFree (some left)
        typeFree (some right)
        pure result
      else do
        countError ctx
        typeFree (some left)
        typeFree (some right)
        pure none

def inferBitSlice (start stop : UInt32) (objType : Client Pointer) : Client Pointer := do
  match ← objType with
  | none => pure none
  | some objType => do
    if !typeIsInteger (← loadType objType) then do
      countError ctx
      typeFree (some objType)
      pure none
    else if stop - start ≤ 0 then do
      countError ctx
      typeFree (some objType)
      pure none
    else do
      typeFree (some objType)
      if stop - start ≤ 8 then typeFromKind allocator .typeU8
      else if stop - start ≤ 16 then typeFromKind allocator .typeU16
      else if stop - start ≤ 32 then typeFromKind allocator .typeU32
      else typeFromKind allocator .typeU64

-- The switch of `infer_expr_type`.
def inferNode (infer : Pointer → Client Pointer) : ExprNode → Client Pointer
  | .number _ => typeFromKind allocator .typeU32
  | .identifier name => inferIdentifier allocator ctx name
  | .boolean _ => typeFromKind allocator .typeU8
  | .unaryOp _ operand => infer operand
  | .binaryOp op left right => inferBinary allocator ctx op (infer left) (infer right)
  | .bitSlice expr start stop => inferBitSlice allocator ctx start stop (infer expr)
  | .string _ | .arrayIndex _ _ | .call _ _ _ | .memberAccess _ _ => do
    countError ctx
    pure none

def inferExprType : Nat → Pointer → Client Pointer
  | _, none => pure none
  | 0, some _ => fault
  | n + 1, some p => do inferNode allocator ctx (inferExprType n) (← loadExpr p)

/-! Statements -/

-- The call of `symbol_table_add_symbol`, and the caller's count on 0.
def addSymbol (name : CString) (type : Pointer) (isParam isMutable isInitialized : Bool) : Client Bool := do
  if ← symbolTableAddSymbol allocator (← loadContext ctx).symbols name type isParam isMutable isInitialized then
    pure true
  else do
    countError ctx
    pure false

def checkInitializer (n : Nat) (type init : Pointer) : Client Bool := do
  if init.isNone then pure true
  else
    match ← inferExprType allocator ctx n init with
    | none => do
      countError ctx
      pure false
    | some initType => do
      if ← typeCompatible type (some initType) then do
        typeFree (some initType)
        pure true
      else do
        countError ctx
        typeFree (some initType)
        pure false

def checkExpr (n : Nat) (expr : Pointer) : Client Bool := do
  if expr.isNone then pure true
  else
    match ← inferExprType allocator ctx n expr with
    | none => do
      countError ctx
      pure false
    | some exprType => do
      typeFree (some exprType)
      pure true

def checkReturn (n : Nat) (value : Pointer) : Client Bool := do
  if value.isNone then pure true
  else
    match ← inferExprType allocator ctx n value with
    | none => do
      countError ctx
      pure false
    | some retType => do
      match (← loadContext ctx).expectedReturnType with
      | none => do
        typeFree (some retType)
        pure true
      | some expected => do
        if ← typeCompatible (some expected) (some retType) then do
          typeFree (some retType)
          pure true
        else do
          countError ctx
          typeFree (some retType)
          pure false

def checkVarDecl (n : Nat) (name : CString) (type init : Pointer) (isMut : Bool) : Client Bool := do
  if !isMut && init.isNone then do
    countError ctx
    pure false
  else do
    if ← checkInitializer allocator ctx n type init then do
      let varType ← typeClone allocator type
      addSymbol allocator ctx name varType false isMut init.isSome
    else pure false

-- A loop that goes on after a failure.
def allSlots (check : Pointer → Client Bool) (array : Pointer) (i : Nat) : Nat → Client Bool
  | 0 => pure true
  | n + 1 => do
    let ok ← check (← getSlot array i)
    let result ← allSlots check array (i + 1) n
    pure (ok && result)

def checkStatements (check : Pointer → Client Bool) (statements : Pointer) (count : Nat) : Client Bool :=
  if statements.isSome ∧ count > 0 then allSlots check statements 0 count else pure true

def checkBlock (check : Pointer → Client Bool) (statements : Pointer) (count : Nat) : Client Bool := do
  symbolTablePushScope allocator (← loadContext ctx).symbols
  let result ← checkStatements check statements count
  symbolTablePopScope (← loadContext ctx).symbols
  pure result

-- The switch of `check_stmt_types`.
def checkNode (n : Nat) (check : Pointer → Client Bool) : StmtNode → Client Bool
  | .varDecl name type init isMut => checkVarDecl allocator ctx n name type init isMut
  | .expr expr => checkExpr allocator ctx n expr
  | .ret value => checkReturn allocator ctx n value
  | .block statements count => checkBlock allocator ctx check statements count
  | .ifStmt | .whileStmt => pure true

def checkStmtTypes : Nat → Pointer → Client Bool
  | _, none => pure true
  | 0, some _ => fault
  | n + 1, some p => do checkNode allocator ctx n (checkStmtTypes n) (← loadStmt p)

/-! Functions and programs -/

def Block.names? : Block → Option (List CString)
  | .names names => some names
  | _ => none

def getName : Pointer → Nat → Client CString
  | none, _ => fault
  | some p, i => do
    match (← loadAs Block.names? p)[i]? with
    | some name => pure name
    | none => fault

-- The loop from index `i` on, with `n` parameters to go.
def checkParameters (names types : Pointer) (i : Nat) : Nat → Client Bool
  | 0 => pure true
  | n + 1 => do
    let paramType ← typeClone allocator (← getSlot types i)
    if ← addSymbol allocator ctx (← getName names i) paramType true false true then
      checkParameters names types (i + 1) n
    else pure false

def checkFunctionTypes (n : Nat) : Pointer → Client Bool
  | none => pure true
  | some p => do
    let func ← loadFunction p
    symbolTablePushScope allocator (← loadContext ctx).symbols
    typeContextSetFunction allocator ctx func.name func.returnType
    if ← checkParameters allocator ctx func.paramNames func.paramTypes 0 func.paramCount then do
      let result ← checkStmtTypes allocator ctx n func.body
      symbolTablePopScope (← loadContext ctx).symbols
      pure result
    else do
      symbolTablePopScope (← loadContext ctx).symbols
      pure false

def registerFunction : Pointer → Client Bool
  | none => fault
  | some p => do
    let func ← loadFunction p
    let funcType ← typeClone allocator func.returnType
    addSymbol allocator ctx func.name funcType false false true

end check

def checkProgramTypes (allocator : Allocator Block) : Pointer → Pointer → Client Bool
  | some ctx, some program => walk fun n => do
    let prog ← loadProgram program
    let registered ← allSlots (registerFunction allocator ctx) prog.functions 0 prog.functionCount
    let checked ← allSlots (checkFunctionTypes allocator ctx n) prog.functions 0 prog.functionCount
    let node ← loadContext ctx
    pure (registered && checked && node.errorCount = 0)
  | _, _ => pure true

end BitN.CheckerMemory
