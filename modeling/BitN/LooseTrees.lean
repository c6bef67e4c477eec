import BitN.TypeInference

/-! The checker on all that a tree can hold in memory: names that are NULL, and in the fields of an
enumeration type any value, which the switches take to their default branch. Wherever a tree has
neither, this is the checker of the other modules. -/
namespace BitN.Loose

inductive Enum (α : Type) where
  | named (a : α)
  | other (code : UInt32)

inductive Expr where
  | null
  | number (value : UInt64)
  | identifier (name : Option CString)
  | string (value : Option CString)
  | boolean (value : Bool)
  | binaryOp (op : Enum BinaryOp) (left right : Expr)
  | unaryOp (op : Enum UnaryOp) (operand : Expr)
  | call (func : Expr) (args : List Expr)
  | arrayIndex (array index : Expr)
  | bitSlice (expr : Expr) (start stop : UInt32)
  | memberAccess (object : Expr) (field : Option CString)
  | other (kind : UInt32)

inductive Stmt where
  | null
  | varDecl (name : Option CString) (type : Option TypeKind) (init : Expr) (isMut : Bool)
  | expr (expr : Expr)
  | ret (value : Expr)
  | ifStmt
  | whileStmt
  | block (statements : List Stmt)
  | other (kind : UInt32)

structure FunctionDef where
  name : Option CString
  returnType : Option TypeKind
  params : List (Option CString × Option TypeKind)
  body : Stmt

@[induction_eliminator]
theorem Expr.induction {P : Expr → Prop} (null : P .null) (number : ∀ value, P (.number value))
    (identifier : ∀ name, P (.identifier name)) (string : ∀ value, P (.string value))
    (boolean : ∀ value, P (.boolean value))
    (binaryOp : ∀ op left right, P left → P right → P (.binaryOp op left right))
    (unaryOp : ∀ op operand, P operand → P (.unaryOp op operand))
    (call : ∀ func args, P func → (∀ a ∈ args, P a) → P (.call func args))
    (arrayIndex : ∀ array index, P array → P index → P (.arrayIndex array index))
    (bitSlice : ∀ expr start stop, P expr → P (.bitSlice expr start stop))
    (memberAccess : ∀ object field, P object → P (.memberAccess object field))
    (other : ∀ kind, P (.other kind)) (e : Expr) : P e :=
  @Expr.rec P (fun args => ∀ a ∈ args, P a) null number identifier string boolean binaryOp unaryOp call arrayIndex
    bitSlice memberAccess other (by simp) (fun _ _ head tail => by simpa using ⟨head, tail⟩) e

@[induction_eliminator]
theorem Stmt.induction {P : Stmt → Prop} (null : P .null)
    (varDecl : ∀ name type init isMut, P (.varDecl name type init isMut)) (expr : ∀ e, P (.expr e))
    (ret : ∀ value, P (.ret value)) (ifStmt : P .ifStmt) (whileStmt : P .whileStmt)
    (block : ∀ statements, (∀ s ∈ statements, P s) → P (.block statements)) (other : ∀ kind, P (.other kind))
    (s : Stmt) : P s :=
  @Stmt.rec P (fun statements => ∀ s ∈ statements, P s) null varDecl expr ret ifStmt whileStmt block other (by simp)
    (fun _ _ head tail => by simpa using ⟨head, tail⟩) s

def Expr.isNull : Expr → Bool
  | .null => true
  | _ => false

-- printf("%s", NULL)
def printedName (name : Option CString) : CString := name.getD "(null)".toList

/-! The checker. `tick` is what `error_count++` does to the counter. -/

def increment (count : Int) : Int := wrapInt (count + 1)

def lookup (table : SymbolTable) : Option CString → Option Symbol
  | none => none
  | some name => symbolTableLookup table name

def inferBinaryOpType (op : Enum BinaryOp) (left : TypeKind) : TypeKind :=
  match op with
  | .named op => BitN.inferBinaryOpType op left
  | .other _ => left

section checker
variable (tick : Int → Int)

def count (ctx : TypeContext) : TypeContext := { ctx with errorCount := tick ctx.errorCount }

def report (ctx : TypeContext) (report : Report) : TypeContext := count tick (ctx.print report)

def inferExprType : TypeContext → Expr → Option TypeKind × TypeContext
  | ctx, .null => (none, ctx)
  | ctx, .number _ => (some .typeU32, ctx)
  | ctx, .identifier name =>
    match lookup ctx.symbols name with
    | none => (none, report tick ctx (.undefinedVariable (printedName name)))
    | some sym => (some sym.type, ctx)
  | ctx, .boolean _ => (some .typeU8, ctx)
  | ctx, .string _ => (none, report tick ctx .stringLiteral)
  | ctx, .unaryOp op operand =>
    match inferExprType ctx operand with
    | (none, ctx) => (none, ctx)
    | (some operand, ctx) =>
      match op with
      | .named _ => (some operand, ctx)
      | .other _ => (none, ctx)
  | ctx, .binaryOp op left right =>
    match inferExprType ctx left with
    | (none, ctx) => (none, ctx)
    | (some left, ctx) =>
      match inferExprType ctx right with
      | (none, ctx) => (none, ctx)
      | (some right, ctx) =>
        if typeCompatible (some left) (some right) then (some (inferBinaryOpType op left), ctx)
        else (none, report tick ctx (.binaryMismatch left right))
  | ctx, .bitSlice expr start stop =>
    match inferExprType ctx expr with
    | (none, ctx) => (none, ctx)
    | (some type, ctx) =>
      if !typeIsInteger type then (none, report tick ctx (.sliceOperand type))
      else if stop - start ≤ 0 then (none, report tick ctx (.sliceRange start stop))
      else if stop - start ≤ 8 then (some .typeU8, ctx)
      else if stop - start ≤ 16 then (some .typeU16, ctx)
      else if stop - start ≤ 32 then (some .typeU32, ctx)
      else (some .typeU64, ctx)
  | ctx, .arrayIndex _ _ => (none, report tick ctx .arrayIndex)
  | ctx, .call _ _ => (none, report tick ctx .call)
  | ctx, .memberAccess _ _ => (none, report tick ctx .memberAccess)
  | ctx, .other _ => (none, ctx)

-- Without a name `symbol_table_add_symbol` returns 0 before it prints anything.
def addSymbol (ctx : TypeContext) (refused : Report) (name : Option CString) (type : Option TypeKind)
    (isParam isMutable isInitialized : Bool) : Bool × TypeContext :=
  match name with
  | none => (false, report tick ctx refused)
  | some name =>
    match symbolTableAddSymbol ctx.symbols name type isParam isMutable isInitialized with
    | some symbols => (true, { ctx with symbols })
    | none =>
      let ctx := if type.isSome then ctx.print (.symbolDefined name) else ctx
      (false, report tick ctx refused)

def checkInitializer (ctx : TypeContext) (type : Option TypeKind) (init : Expr) : Bool × TypeContext :=
  if init.isNull then (true, ctx)
  else
    match inferExprType tick ctx init with
    | (none, ctx) => (false, count tick ctx)
    | (some initType, ctx) =>
      if typeCompatible type (some initType) then (true, ctx)
      else (false, report tick ctx (.initializerMismatch type initType))

def checkReturn (ctx : TypeContext) (value : Expr) : Bool × TypeContext :=
  if value.isNull then (true, ctx)
  else
    match inferExprType tick ctx value with
    | (none, ctx) => (false, count tick ctx)
    | (some type, ctx) =>
      match ctx.expectedReturnType with
      | none => (true, ctx)
      | some expected =>
        if typeCompatible (some expected) (some type) then (true, ctx)
        else (false, report tick ctx (.returnMismatch expected type))

mutual
def checkStmtTypes : TypeContext → Stmt → Bool × TypeContext
  | ctx, .null => (true, ctx)
  | ctx, .varDecl name type init isMut =>
    if !isMut && init.isNull then (false, report tick ctx .letUninitialized)
    else
      match checkInitializer tick ctx type init with
      | (false, ctx) => (false, ctx)
      | (true, ctx) => addSymbol tick ctx (.symbolDefined (printedName name)) name type false isMut (!init.isNull)
  | ctx, .expr e =>
    if e.isNull then (true, ctx)
    else
      match inferExprType tick ctx e with
      | (none, ctx) => (false, count tick ctx)
      | (some _, ctx) => (true, ctx)
  | ctx, .ret value => checkReturn tick ctx value
  | ctx, .block statements =>
    let (result, ctx) := checkStatements { ctx with symbols := symbolTablePushScope ctx.symbols } statements
    (result, { ctx with symbols := symbolTablePopScope ctx.symbols })
  | ctx, .ifStmt => (true, ctx)
  | ctx, .whileStmt => (true, ctx)
  | ctx, .other _ => (true, ctx)
def checkStatements : TypeContext → List Stmt → Bool × TypeContext
  | ctx, [] => (true, ctx)
  | ctx, statement :: statements =>
    let (ok, ctx) := checkStmtTypes ctx statement
    let (result, ctx) := checkStatements ctx statements
    (ok && result, ctx)
end

def checkParameters : TypeContext → List (Option CString × Option TypeKind) → Bool × TypeContext
  | ctx, [] => (true, ctx)
  | ctx, (name, type) :: params =>
    match addSymbol tick ctx (.parameterDefined (printedName name)) name type true false true with
    | (false, ctx) => (false, ctx)
    | (true, ctx) => checkParameters ctx params

-- A NULL function has nothing to check.
def checkFunctionTypes (ctx : TypeContext) : Option FunctionDef → Bool × TypeContext
  | none => (true, ctx)
  | some func =>
    let ctx := { ctx with symbols := symbolTablePushScope ctx.symbols }
    let ctx := { ctx with currentFunction := func.name, expectedReturnType := func.returnType }
    match checkParameters tick ctx func.params with
    | (false, ctx) => (false, { ctx with symbols := symbolTablePopScope ctx.symbols })
    | (true, ctx) =>
      let (result, ctx) := checkStmtTypes tick ctx func.body
      (result, { ctx with symbols := symbolTablePopScope ctx.symbols })

def registerFunctions : TypeContext → List FunctionDef → Bool × TypeContext
  | ctx, [] => (true, ctx)
  | ctx, func :: functions =>
    let (ok, ctx) := addSymbol tick ctx (.functionDefined (printedName func.name)) func.name func.returnType
      false false true
    let (result, ctx) := registerFunctions ctx functions
    (ok && result, ctx)

def checkFunctions : TypeContext → List FunctionDef → Bool × TypeContext
  | ctx, [] => (true, ctx)
  | ctx, func :: functions =>
    let (ok, ctx) := checkFunctionTypes tick ctx (some func)
    let (result, ctx) := checkFunctions ctx functions
    (ok && result, ctx)

def checkProgramTypes (ctx : TypeContext) (functions : List FunctionDef) : Bool × TypeContext :=
  let (registered, ctx) := registerFunctions tick ctx functions
  let (checked, ctx) := checkFunctions tick ctx functions
  (registered && checked && ctx.errorCount = 0, ctx)

end checker

/-! Trees with names, and with values that the enumerations name -/

mutual
def ofExpr : ASTExpr → Expr
  | .null => .null
  | .number value => .number value
  | .identifier name => .identifier (some name)
  | .string value => .string (some value)
  | .boolean value => .boolean value
  | .binaryOp op left right => .binaryOp (.named op) (ofExpr left) (ofExpr right)
  | .unaryOp op operand => .unaryOp (.named op) (ofExpr operand)
  | .call func args => .call (ofExpr func) (ofExprs args)
  | .arrayIndex array index => .arrayIndex (ofExpr array) (ofExpr index)
  | .bitSlice expr start stop => .bitSlice (ofExpr expr) start stop
  | .memberAccess object field => .memberAccess (ofExpr object) (some field)
def ofExprs : List ASTExpr → List Expr
  | [] => []
  | e :: es => ofExpr e :: ofExprs es
end

mutual
def ofStmt : ASTStmt → Stmt
  | .null => .null
  | .varDecl name type init isMut => .varDecl (some name) type (ofExpr init) isMut
  | .expr e => .expr (ofExpr e)
  | .ret value => .ret (ofExpr value)
  | .ifStmt => .ifStmt
  | .whileStmt => .whileStmt
  | .block statements => .block (ofStmts statements)
def ofStmts : List ASTStmt → List Stmt
  | [] => []
  | s :: statements => ofStmt s :: ofStmts statements
end

def ofFunction (func : ASTFunctionDef) : FunctionDef where
  name := some func.name
  returnType := func.returnType
  params := func.params.map fun (name, type) => (some name, type)
  body := ofStmt func.body

theorem reportSame (ctx : TypeContext) (r : Report) : report increment ctx r = ctx.report r := rfl

theorem nullSame (e : ASTExpr) : (ofExpr e).isNull = e.isNull := by
  cases e <;> simp [ofExpr, Expr.isNull, ASTExpr.isNull]

theorem inferSame (e : ASTExpr) (ctx : TypeContext) :
    inferExprType increment ctx (ofExpr e) = BitN.inferExprType ctx e := by
  induction e generalizing ctx with
  | null => rfl
  | number value => rfl
  | boolean value => rfl
  | string value => rfl
  | identifier name => rfl
  | unaryOp op operand ih =>
    rw [ofExpr, inferExprType, BitN.inferExprType, ih]
    rcases BitN.inferExprType ctx operand with ⟨_ | type, after⟩ <;> rfl
  | binaryOp op left right left' right' =>
    rw [ofExpr, inferExprType, BitN.inferExprType, left']
    rcases BitN.inferExprType ctx left with ⟨_ | leftType, between⟩
    · rfl
    · dsimp only
      rw [right']
      rfl
  | bitSlice e start stop ih =>
    rw [ofExpr, inferExprType, BitN.inferExprType, ih]
    rfl
  | arrayIndex array index _ _ => simp only [ofExpr, inferExprType, BitN.inferExprType, reportSame]
  | call func args _ _ => simp only [ofExpr, inferExprType, BitN.inferExprType, reportSame]
  | memberAccess object field _ => simp only [ofExpr, inferExprType, BitN.inferExprType, reportSame]

theorem addSymbolSame (ctx : TypeContext) (refused : Report) (name : CString) (type : Option TypeKind)
    (isParam isMutable isInitialized : Bool) :
    addSymbol increment ctx refused (some name) type isParam isMutable isInitialized =
      ctx.addSymbol refused name type isParam isMutable isInitialized := rfl

theorem statementsSame {statements : List ASTStmt}
    (each : ∀ s ∈ statements, ∀ ctx, checkStmtTypes increment ctx (ofStmt s) = BitN.checkStmtTypes ctx s)
    (ctx : TypeContext) : checkStatements increment ctx (ofStmts statements) = BitN.checkStatements ctx statements := by
  induction statements generalizing ctx with
  | nil => rfl
  | cons s statements ih =>
    rw [ofStmts, checkStatements, BitN.checkStatements, each s List.mem_cons_self]
    simp only [ih fun s' member => each s' (List.mem_cons_of_mem _ member)]

theorem stmtSame (s : ASTStmt) (ctx : TypeContext) :
    checkStmtTypes increment ctx (ofStmt s) = BitN.checkStmtTypes ctx s := by
  induction s generalizing ctx with
  | null => rfl
  | varDecl name type init isMut =>
    rw [ofStmt, checkStmtTypes, BitN.checkStmtTypes, checkInitializer, BitN.checkInitializer, nullSame, inferSame]
    rfl
  | expr e =>
    rw [ofStmt, checkStmtTypes, BitN.checkStmtTypes, nullSame, inferSame]
    rfl
  | ret value =>
    rw [ofStmt, checkStmtTypes, BitN.checkStmtTypes, checkReturn, BitN.checkReturn, nullSame, inferSame]
    rfl
  | ifStmt => rfl
  | whileStmt => rfl
  | block statements each => rw [ofStmt, checkStmtTypes, BitN.checkStmtTypes, statementsSame each]

theorem parametersSame (params : List (CString × Option TypeKind)) (ctx : TypeContext) :
    checkParameters increment ctx (params.map fun (name, type) => (some name, type)) =
      BitN.checkParameters ctx params := by
  induction params generalizing ctx with
  | nil => rfl
  | cons param params ih =>
    obtain ⟨name, type⟩ := param
    have refused : Report.parameterDefined (printedName (some name)) = .parameterDefined name := rfl
    rw [List.map_cons, checkParameters, BitN.checkParameters, refused, addSymbolSame]
    rcases ctx.addSymbol (.parameterDefined name) name type true false true with ⟨_ | _, after⟩
    · rfl
    · exact ih after

theorem functionSame (func : ASTFunctionDef) (ctx : TypeContext) :
    checkFunctionTypes increment ctx (some (ofFunction func)) = BitN.checkFunctionTypes ctx func := by
  unfold checkFunctionTypes BitN.checkFunctionTypes typeContextSetFunction ofFunction
  dsimp only
  rw [parametersSame]
  rcases BitN.checkParameters _ func.params with ⟨_ | _, after⟩
  · rfl
  · simp only [stmtSame]

theorem registeredSame (functions : List ASTFunctionDef) (ctx : TypeContext) :
    registerFunctions increment ctx (functions.map ofFunction) = BitN.registerFunctions ctx functions := by
  induction functions generalizing ctx with
  | nil => rfl
  | cons func functions ih =>
    rw [List.map_cons, registerFunctions, BitN.registerFunctions]
    simp only [ih]
    rfl

theorem functionsSame (functions : List ASTFunctionDef) (ctx : TypeContext) :
    checkFunctions increment ctx (functions.map ofFunction) = BitN.checkFunctions ctx functions := by
  induction functions generalizing ctx with
  | nil => rfl
  | cons func functions ih =>
    rw [List.map_cons, checkFunctions, BitN.checkFunctions]
    simp only [functionSame, ih]

/-- The checker of the other modules is this one on such trees. -/
theorem programSame (program : ASTProgram) (ctx : TypeContext) :
    checkProgramTypes increment ctx (program.functions.map ofFunction) = BitN.checkProgramTypes ctx program := by
  unfold checkProgramTypes BitN.checkProgramTypes
  simp only [registeredSame, functionsSame]

end BitN.Loose
