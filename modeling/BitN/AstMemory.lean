import BitN.AST
import BitN.Lib.Heap

/-! Blocks of memory, and syntax trees as they lie in them: what the parser allocates for a tree that it
returns, and how `ast_free_program` releases it. Every allocation succeeds; a fault is an access to a
block that is not there, of another kind or too short. -/
namespace BitN.AstMemory
open Heap

abbrev Pointer := Option Nat

inductive ExprNode where
  | number (value : UInt64)
  | identifier (name : CString)
  | string (value : CString)
  | boolean (value : Bool)
  | binaryOp (op : BinaryOp) (left right : Pointer)
  | unaryOp (op : UnaryOp) (operand : Pointer)
  | call (func args : Pointer) (argCount : Nat)
  | arrayIndex (array index : Pointer)
  | bitSlice (expr : Pointer) (start stop : UInt32)
  | memberAccess (object : Pointer) (field : CString)

inductive StmtNode where
  | varDecl (name : CString) (type init : Pointer) (isMut : Bool)
  | expr (expr : Pointer)
  | ret (value : Pointer)
  | ifStmt
  | whileStmt
  | block (statements : Pointer) (count : Nat)

structure FunctionNode where
  name : CString
  returnType : Pointer
  paramNames : Pointer
  paramTypes : Pointer
  paramCount : Nat
  body : Pointer

structure RegisterNode where
  name : CString
  type : Pointer
  offset : UInt32
  fields : Pointer
  fieldCount : Nat

structure PeripheralNode where
  name : CString
  baseAddress : UInt32
  registers : Pointer
  registerCount : Nat

structure ProgramNode where
  functions : Pointer
  functionCount : Nat
  peripherals : Pointer
  peripheralCount : Nat

structure SymbolNode where
  name : Pointer
  type : Pointer
  isParameter : Bool
  isMutable : Bool
  isInitialized : Bool

structure ScopeNode where
  symbols : Pointer
  symbolCount : Nat
  capacity : Nat
  parent : Pointer

structure TableNode where
  currentScope : Pointer
  globalScope : Pointer

structure ContextNode where
  symbols : Pointer
  errorCount : Int
  currentFunction : Option CString
  expectedReturnType : Pointer

structure RegionNode where
  name : Pointer
  base : UInt32
  size : UInt32
  type : Pointer

structure LinkerNode where
  output : CString
  regions : Pointer
  regionCount : Nat
  target : Pointer
  stackSize : UInt32
  heapSize : UInt32

/-- An array has room for `capacity` items, of which the first have been written. Of a lexer, a parser
and a code generator only what they point to is here, of a file only what has been written to it. -/
inductive Block where
  | type (kind : TypeKind)
  | expr (node : ExprNode)
  | stmt (node : StmtNode)
  | function (node : FunctionNode)
  | field (field : ASTField)
  | register (node : RegisterNode)
  | peripheral (node : PeripheralNode)
  | program (node : ProgramNode)
  | pointers (capacity : Nat) (slots : List Pointer)
  | text (text : CString)
  | names (names : List CString)
  | symbols (capacity : Nat) (slots : List SymbolNode)
  | scope (node : ScopeNode)
  | table (node : TableNode)
  | context (node : ContextNode)
  | lexer
  | parser (lexer : Pointer)
  | codegen (targetArch : Pointer)
  | regions (capacity : Nat) (slots : List RegionNode)
  | linker (node : LinkerNode)

abbrev Client (α : Type) := Prog Block α
abbrev Bag := Multiset (Cell Block)

def loadAs {α : Type} (view : Block → Option α) (p : Nat) : Client α := do
  match view (← load p) with
  | some node => pure node
  | none => fault

/-! Arrays of pointers -/

def freePointer : Pointer → Client Unit
  | none => pure ()
  | some p => free p

def Block.slots? : Block → Option (Nat × List Pointer)
  | .pointers capacity slots => some (capacity, slots)
  | _ => none

def loadSlots : Pointer → Client (Nat × List Pointer)
  | none => fault
  | some p => loadAs Block.slots? p

def getSlot (array : Pointer) (i : Nat) : Client Pointer := do
  let (_, slots) ← loadSlots array
  match slots[i]? with
  | some slot => pure slot
  | none => fault

-- The next slot is the first that has not been written.
def setSlot (array : Pointer) (i : Nat) (slot : Pointer) : Client Unit := do
  let (capacity, slots) ← loadSlots array
  match array with
  | some p => if i = slots.length ∧ i < capacity then store p (.pointers capacity (slots ++ [slot])) else fault
  | none => fault

def realloc (allocator : Allocator Block) (array : Pointer) (capacity : Nat) : Client Pointer := do
  match array with
  | none => some <$> alloc allocator (.pointers capacity [])
  | some p => do
    let (_, slots) ← loadSlots (some p)
    free p
    some <$> alloc allocator (.pointers capacity (slots.take capacity))

def forSlots (each : Pointer → Client Unit) (array : Pointer) (i : Nat) : Nat → Client Unit
  | 0 => pure ()
  | n + 1 => do
    each (← getSlot array i)
    forSlots each array (i + 1) n

-- Each pointer of an array, and the array.
def freeItems (each : Pointer → Client Unit) (array : Pointer) (count : Nat) : Client Unit := do
  forSlots each array 0 count
  freePointer array

/-! Release -/

def Block.expr? : Block → Option ExprNode
  | .expr node => some node
  | _ => none

def loadExpr : Nat → Client ExprNode := loadAs Block.expr?

-- The switch of `ast_free_expr`.
def freeChildren (freeExpr : Pointer → Client Unit) : ExprNode → Client Unit
  | .binaryOp _ left right => do
    freeExpr left
    freeExpr right
  | .unaryOp _ operand => freeExpr operand
  | .call func args argCount => do
    freeExpr func
    freeItems freeExpr args argCount
  | .arrayIndex array index => do
    freeExpr array
    freeExpr index
  | .bitSlice expr _ _ => freeExpr expr
  | .memberAccess object _ => freeExpr object
  | .number _ | .identifier _ | .string _ | .boolean _ => pure ()

def astFreeExpr : Nat → Pointer → Client Unit
  | _, none => pure ()
  | 0, some _ => fault
  | n + 1, some p => do
    freeChildren (astFreeExpr n) (← loadExpr p)
    free p

def Block.stmt? : Block → Option StmtNode
  | .stmt node => some node
  | _ => none

def loadStmt : Nat → Client StmtNode := loadAs Block.stmt?

-- The switch of `ast_free_stmt`.
def freeParts (freeExpr freeStmt : Pointer → Client Unit) : StmtNode → Client Unit
  | .varDecl _ type init _ => do
    freeExpr init
    freePointer type
  | .expr expr => freeExpr expr
  | .ret value => freeExpr value
  | .block statements count => freeItems freeStmt statements count
  | .ifStmt | .whileStmt => pure ()

def astFreeStmt : Nat → Pointer → Client Unit
  | _, none => pure ()
  | 0, some _ => fault
  | n + 1, some p => do
    freeParts (astFreeExpr n) (astFreeStmt n) (← loadStmt p)
    free p

def astFieldFree : Pointer → Client Unit := freePointer

def Block.register? : Block → Option RegisterNode
  | .register node => some node
  | _ => none

def loadRegister : Nat → Client RegisterNode := loadAs Block.register?

def astRegisterFree : Pointer → Client Unit
  | none => pure ()
  | some p => do
    let reg ← loadRegister p
    freeItems astFieldFree reg.fields reg.fieldCount
    freePointer reg.type
    free p

def Block.peripheral? : Block → Option PeripheralNode
  | .peripheral node => some node
  | _ => none

def loadPeripheral : Nat → Client PeripheralNode := loadAs Block.peripheral?

def astPeripheralFree : Pointer → Client Unit
  | none => pure ()
  | some p => do
    let periph ← loadPeripheral p
    freeItems astRegisterFree periph.registers periph.registerCount
    free p

def Block.function? : Block → Option FunctionNode
  | .function node => some node
  | _ => none

def loadFunction : Nat → Client FunctionNode := loadAs Block.function?

-- The body of the loop over the functions.
def freeFunction (n : Nat) : Pointer → Client Unit
  | none => pure ()
  | some p => do
    astFreeStmt n (← loadFunction p).body
    free p

def Block.program? : Block → Option ProgramNode
  | .program node => some node
  | _ => none

def loadProgram : Nat → Client ProgramNode := loadAs Block.program?

def astFreeProgram (prog : Pointer) : Client Unit := walk fun n => do
  match prog with
  | none => pure ()
  | some p => do
    let prog ← loadProgram p
    freeItems (freeFunction n) prog.functions prog.functionCount
    freeItems astPeripheralFree prog.peripherals prog.peripheralCount
    free p

/-! What the parser allocates, in its order -/

section build
variable (allocator : Allocator Block)

def newExpr (node : ExprNode) : Client Pointer := some <$> alloc allocator (.expr node)

mutual
def buildExpr : ASTExpr → Client Pointer
  | .null => pure none
  | .number value => newExpr allocator (.number value)
  | .identifier name => newExpr allocator (.identifier name)
  | .string value => newExpr allocator (.string value)
  | .boolean value => newExpr allocator (.boolean value)
  | .binaryOp op left right => do
    let left ← buildExpr left
    let right ← buildExpr right
    newExpr allocator (.binaryOp op left right)
  | .unaryOp op operand => do
    let operand ← buildExpr operand
    newExpr allocator (.unaryOp op operand)
  | .call func args => do
    let array ← alloc allocator (.pointers 10 [])
    let array ← buildArguments (some array) 10 0 args
    let func ← buildExpr func
    newExpr allocator (.call func array args.length)
  | .arrayIndex array index => do
    let array ← buildExpr array
    let index ← buildExpr index
    newExpr allocator (.arrayIndex array index)
  | .bitSlice expr start stop => do
    let expr ← buildExpr expr
    newExpr allocator (.bitSlice expr start stop)
  | .memberAccess object field => do
    let object ← buildExpr object
    newExpr allocator (.memberAccess object field)
def buildArguments (args : Pointer) (argCapacity argCount : Nat) : List ASTExpr → Client Pointer
  | [] => pure args
  | e :: es => do
    let (args, argCapacity) ←
      if argCount ≥ argCapacity then do
        let args ← realloc allocator args (argCapacity * 2)
        pure (args, argCapacity * 2)
      else pure (args, argCapacity)
    let arg ← buildExpr e
    setSlot args argCount arg
    buildArguments args argCapacity (argCount + 1) es
end

def buildType : Option TypeKind → Client Pointer
  | none => pure none
  | some kind => some <$> alloc allocator (.type kind)

def newStmt (node : StmtNode) : Client Pointer := some <$> alloc allocator (.stmt node)

-- No constructor makes an `if` or a `while`.
mutual
def buildStmt : ASTStmt → Client Pointer
  | .null => pure none
  | .varDecl name type init isMut => do
    let type ← buildType allocator type
    let init ← buildExpr allocator init
    newStmt allocator (.varDecl name type init isMut)
  | .expr e => do
    let e ← buildExpr allocator e
    newStmt allocator (.expr e)
  | .ret value => do
    let value ← buildExpr allocator value
    newStmt allocator (.ret value)
  | .ifStmt => newStmt allocator .ifStmt
  | .whileStmt => newStmt allocator .whileStmt
  | .block statements => do
    let array ← buildStatements none 0 statements
    newStmt allocator (.block array statements.length)
def buildStatements (statements : Pointer) (stmtCount : Nat) : List ASTStmt → Client Pointer
  | [] => pure statements
  | s :: ss => do
    let statements ← realloc allocator statements (stmtCount + 1)
    let statement ← buildStmt s
    setSlot statements stmtCount statement
    buildStatements statements (stmtCount + 1) ss
end

-- The type that was parsed is copied, and released. No parameters are parsed.
def buildFunction (func : ASTFunctionDef) : Client Pointer := do
  let returnType ← match func.returnType with
    | none => pure none
    | some kind => do
      let returnType ← alloc allocator (.type .typeU32)
      let parsedType ← alloc allocator (.type kind)
      store returnType (.type kind)
      free parsedType
      pure (some returnType)
  let body ← buildStmt allocator func.body
  some <$> alloc allocator (.function ⟨func.name, returnType, none, none, 0, body⟩)

-- Room for one pointer more, and the pointer in it.
def addSlot (array : Pointer) (count : Nat) (slot : Pointer) : Client Pointer := do
  let array ← realloc allocator array (count + 1)
  setSlot array count slot
  pure array

def buildAll {τ : Type} (build : τ → Client Pointer) (add : Pointer → Client Unit) : List τ → Client Unit
  | [] => pure ()
  | item :: items => do
    add (← build item)
    buildAll build add items

def astFieldCreate (field : ASTField) : Client Pointer := some <$> alloc allocator (.field field)

def astRegisterAddField (reg : Nat) (field : Pointer) : Client Unit := do
  let node ← loadRegister reg
  let fields ← addSlot allocator node.fields node.fieldCount field
  store reg (.register { node with fields, fieldCount := node.fieldCount + 1 })

def buildRegister (reg : ASTRegister) : Client Pointer := do
  let type ← buildType allocator reg.type
  let p ← alloc allocator (.register ⟨reg.name, type, reg.offset, none, 0⟩)
  buildAll (astFieldCreate allocator) (astRegisterAddField allocator p) reg.fields
  pure (some p)

def astPeripheralAddRegister (periph : Nat) (reg : Pointer) : Client Unit := do
  let node ← loadPeripheral periph
  let registers ← addSlot allocator node.registers node.registerCount reg
  store periph (.peripheral { node with registers, registerCount := node.registerCount + 1 })

def buildPeripheral (periph : ASTPeripheral) : Client Pointer := do
  let p ← alloc allocator (.peripheral ⟨periph.name, periph.baseAddress, none, 0⟩)
  buildAll (buildRegister allocator) (astPeripheralAddRegister allocator p) periph.registers
  pure (some p)

def astProgramAddFunction (prog : Nat) (func : Pointer) : Client Unit := do
  let node ← loadProgram prog
  let functions ← addSlot allocator node.functions node.functionCount func
  store prog (.program { node with functions, functionCount := node.functionCount + 1 })

def astProgramAddPeripheral (prog : Nat) (periph : Pointer) : Client Unit := do
  let node ← loadProgram prog
  let peripherals ← addSlot allocator node.peripherals node.peripheralCount periph
  store prog (.program { node with peripherals, peripheralCount := node.peripheralCount + 1 })

-- The definitions of a source, in its order.
def buildDefinitions (prog : Nat) : List (ASTFunctionDef ⊕ ASTPeripheral) → Client Unit
  | [] => pure ()
  | .inl func :: definitions => do
    astProgramAddFunction allocator prog (← buildFunction allocator func)
    buildDefinitions prog definitions
  | .inr periph :: definitions => do
    astProgramAddPeripheral allocator prog (← buildPeripheral allocator periph)
    buildDefinitions prog definitions

def buildProgram (definitions : List (ASTFunctionDef ⊕ ASTPeripheral)) : Client Pointer := do
  let p ← alloc allocator (.program ⟨none, 0, none, 0⟩)
  buildDefinitions allocator p definitions
  pure (some p)

end build

end BitN.AstMemory
