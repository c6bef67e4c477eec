import BitN.Lib.Tally
import BitN.LooseTrees

/-! What the checker does to its context besides the verdict: how often it counts an error, and what
it leaves in the scopes. -/
namespace BitN.Loose

open Tally

def errors : Counter TypeContext where
  get := TypeContext.errorCount
  put count ctx := { ctx with errorCount := count }
  getPut _ _ := rfl
  putGet _ := rfl
  putPut _ _ _ := rfl

/-! Expressions -/

inductive Inference where
  | typed (type : TypeKind)
  | silent
  | reported (report : Report)

def Inference.result (tick : Int → Int) (ctx : TypeContext) : Inference → Option TypeKind × TypeContext
  | .typed type => (some type, ctx)
  | .silent => (none, ctx)
  | .reported r => (none, report tick ctx r)

-- The first failure ends it, so at most one error is counted.
theorem inferResult (e : Expr) (ctx : TypeContext) :
    ∃ inference : Inference, ∀ tick c,
      inferExprType tick (errors.put c ctx) e = inference.result tick (errors.put c ctx) := by
  induction e generalizing ctx with
  | null => exact ⟨.silent, fun tick c => rfl⟩
  | number value => exact ⟨.typed .typeU32, fun tick c => rfl⟩
  | boolean value => exact ⟨.typed .typeU8, fun tick c => rfl⟩
  | string value => exact ⟨.reported .stringLiteral, fun tick c => rfl⟩
  | identifier name =>
    cases found : lookup ctx.symbols name with
    | none =>
      refine ⟨.reported (.undefinedVariable (printedName name)), fun tick c => ?_⟩
      have missing : lookup (errors.put c ctx).symbols name = none := found
      rw [inferExprType, missing]
      rfl
    | some sym =>
      refine ⟨.typed sym.type, fun tick c => ?_⟩
      have here : lookup (errors.put c ctx).symbols name = some sym := found
      rw [inferExprType, here]
      rfl
  | unaryOp op operand ih =>
    obtain ⟨inference, is⟩ := ih ctx
    cases inference with
    | typed type =>
      cases op with
      | named op => exact ⟨.typed type, fun tick c => by rw [inferExprType, is]; rfl⟩
      | other code => exact ⟨.silent, fun tick c => by rw [inferExprType, is]; rfl⟩
    | silent => exact ⟨.silent, fun tick c => by rw [inferExprType, is]; rfl⟩
    | reported r => exact ⟨.reported r, fun tick c => by rw [inferExprType, is]; rfl⟩
  | binaryOp op left right left' right' =>
    obtain ⟨first, isFirst⟩ := left' ctx
    obtain ⟨second, isSecond⟩ := right' ctx
    cases first with
    | silent => exact ⟨.silent, fun tick c => by rw [inferExprType, isFirst]; rfl⟩
    | reported r => exact ⟨.reported r, fun tick c => by rw [inferExprType, isFirst]; rfl⟩
    | typed leftType =>
      cases second with
      | silent => exact ⟨.silent, fun tick c => by simp only [inferExprType, isFirst, isSecond, Inference.result]⟩
      | reported r => exact ⟨.reported r, fun tick c => by simp only [inferExprType, isFirst, isSecond, Inference.result]⟩
      | typed rightType =>
        by_cases same : typeCompatible (some leftType) (some rightType) = true
        · refine ⟨.typed (Loose.inferBinaryOpType op leftType), fun tick c => ?_⟩
          simp only [inferExprType, isFirst, isSecond, Inference.result, if_pos same]
        · refine ⟨.reported (.binaryMismatch leftType rightType), fun tick c => ?_⟩
          simp only [inferExprType, isFirst, isSecond, Inference.result, if_neg same]
  | bitSlice e start stop ih =>
    obtain ⟨inference, is⟩ := ih ctx
    cases inference with
    | silent => exact ⟨.silent, fun tick c => by rw [inferExprType, is]; rfl⟩
    | reported r => exact ⟨.reported r, fun tick c => by rw [inferExprType, is]; rfl⟩
    | typed type =>
      simp only [inferExprType, is, Inference.result]
      split_ifs
      · exact ⟨.reported (.sliceOperand type), fun tick c => rfl⟩
      · exact ⟨.reported (.sliceRange start stop), fun tick c => rfl⟩
      · exact ⟨.typed .typeU8, fun tick c => rfl⟩
      · exact ⟨.typed .typeU16, fun tick c => rfl⟩
      · exact ⟨.typed .typeU32, fun tick c => rfl⟩
      · exact ⟨.typed .typeU64, fun tick c => rfl⟩
  | arrayIndex array index _ _ => exact ⟨.reported .arrayIndex, fun tick c => by rw [inferExprType]; rfl⟩
  | call func args _ _ => exact ⟨.reported .call, fun tick c => by rw [inferExprType]; rfl⟩
  | memberAccess object field _ => exact ⟨.reported .memberAccess, fun tick c => by rw [inferExprType]; rfl⟩
  | other kind => exact ⟨.silent, fun tick c => by rw [inferExprType]; rfl⟩

theorem inferHere (tick : Int → Int) (ctx : TypeContext) (e : Expr) :
    ∃ inference : Inference, inferExprType tick ctx e = inference.result tick ctx := by
  obtain ⟨inference, is⟩ := inferResult e ctx
  exact ⟨inference, is tick ctx.errorCount⟩

/-! Errors and the verdict -/

theorem talliedReport (r : Report) : Tallied errors fun tick ctx => (false, report tick ctx r) :=
  talliedFails errors (fun ctx => ctx.print r) fun _ _ => rfl

theorem talliedTrue : Tallied errors fun _ ctx => (true, ctx) := talliedPasses errors id fun _ _ => rfl

-- The caller counts an expression without a type once more.
theorem talliedInfer (e : Expr) {rest : TypeKind → (Int → Int) → TypeContext → Bool × TypeContext}
    (each : ∀ type, Tallied errors (rest type)) :
    Tallied errors fun tick ctx =>
      match inferExprType tick ctx e with
      | (none, ctx) => (false, count tick ctx)
      | (some type, ctx) => rest type tick ctx := by
  intro ctx
  obtain ⟨inference, is⟩ := inferResult e ctx
  cases inference with
  | typed type =>
    obtain ⟨n, after, counts⟩ := each type ctx
    exact ⟨n, after, fun tick c => by simp only [is]; exact counts tick c⟩
  | silent => exact ⟨1, ctx, fun tick c => by simp only [is]; rfl⟩
  | reported r => exact ⟨2, ctx.print r, fun tick c => by simp only [is]; rfl⟩

theorem talliedInitializer (type : Option TypeKind) (init : Expr) :
    Tallied errors fun tick ctx => checkInitializer tick ctx type init := by
  unfold checkInitializer
  split
  · exact talliedTrue
  · refine talliedInfer init fun initType => ?_
    split
    · exact talliedTrue
    · exact talliedReport _

theorem talliedReturn (value : Expr) : Tallied errors fun tick ctx => checkReturn tick ctx value := by
  unfold checkReturn
  split
  · exact talliedTrue
  · refine talliedInfer value fun type => talliedAt fun ctx => ?_
    cases returns : ctx.expectedReturnType with
    | none => exact ⟨_, talliedTrue, fun tick c => by simp only [errors, returns]⟩
    | some expected =>
      by_cases same : typeCompatible (some expected) (some type) = true
      · exact ⟨_, talliedTrue, fun tick c => by simp only [errors, returns, if_pos same]⟩
      · exact ⟨_, talliedReport (.returnMismatch expected type),
          fun tick c => by simp only [errors, returns, if_neg same]⟩

theorem talliedAdd (refused : Report) (name : Option CString) (type : Option TypeKind)
    (isParam isMutable isInitialized : Bool) :
    Tallied errors fun tick ctx => addSymbol tick ctx refused name type isParam isMutable isInitialized := by
  cases name with
  | none => exact talliedReport refused
  | some name =>
    refine talliedAt fun ctx => ?_
    cases added : symbolTableAddSymbol ctx.symbols name type isParam isMutable isInitialized with
    | some symbols =>
      have passes := talliedPasses errors (fun ctx => { ctx with symbols }) fun _ _ => rfl
      exact ⟨_, passes, fun tick c => by simp only [addSymbol, errors, added]⟩
    | none =>
      cases type with
      | none => exact ⟨_, talliedReport refused, fun tick c => by simp only [addSymbol, errors, added]; rfl⟩
      | some kind =>
        have fails := talliedFails errors (fun ctx => (ctx.print (.symbolDefined name)).print refused) fun _ _ => rfl
        exact ⟨_, fails, fun tick c => by simp only [addSymbol, errors, added]; rfl⟩

theorem talliedBlock {statements : List Stmt}
    (each : ∀ s ∈ statements, Tallied errors fun tick ctx => checkStmtTypes tick ctx s) :
    Tallied errors fun tick ctx => checkStmtTypes tick ctx (.block statements) := by
  have inner : Tallied errors fun tick ctx => checkStatements tick ctx statements :=
    talliedAll (fun _ _ => rfl) (fun _ _ _ _ => rfl) each
  simp only [checkStmtTypes]
  exact talliedAround errors (fun ctx => { ctx with symbols := symbolTablePushScope ctx.symbols })
    (fun ctx => { ctx with symbols := symbolTablePopScope ctx.symbols }) (fun _ _ => rfl) (fun _ _ => rfl) inner

theorem talliedStmt (s : Stmt) : Tallied errors fun tick ctx => checkStmtTypes tick ctx s := by
  induction s with
  | null => exact talliedTrue
  | varDecl name type init isMut =>
    simp only [checkStmtTypes]
    split
    · exact talliedReport _
    · have added := talliedAdd (.symbolDefined (printedName name)) name type false isMut (!init.isNull)
      refine (talliedThen (talliedInitializer type init) added).congr fun tick ctx => ?_
      rcases checkInitializer tick ctx type init with ⟨_ | _, after⟩ <;> rfl
  | expr e =>
    simp only [checkStmtTypes]
    split
    · exact talliedTrue
    · exact talliedInfer e fun type => talliedTrue
  | ret value => exact talliedReturn value
  | ifStmt => exact talliedTrue
  | whileStmt => exact talliedTrue
  | block statements each => exact talliedBlock each
  | other kind => exact talliedTrue

theorem talliedParameters (params : List (Option CString × Option TypeKind)) :
    Tallied errors fun tick ctx => checkParameters tick ctx params := by
  induction params with
  | nil => exact talliedTrue
  | cons param params ih =>
    have added := talliedAdd (.parameterDefined (printedName param.1)) param.1 param.2 true false true
    refine (talliedThen added ih).congr fun tick ctx => ?_
    rw [checkParameters]
    rcases addSymbol tick ctx _ param.1 param.2 true false true with ⟨_ | _, after⟩ <;> rfl

-- The scope is popped on the early return as well.
theorem talliedFunction (func : Option FunctionDef) :
    Tallied errors fun tick ctx => checkFunctionTypes tick ctx func := by
  cases func with
  | none => exact talliedTrue
  | some func =>
    have inside := talliedThen (talliedParameters func.params) (talliedStmt func.body)
    have around := talliedAround errors
      (fun ctx => { ctx with
        symbols := symbolTablePushScope ctx.symbols, currentFunction := func.name
        expectedReturnType := func.returnType })
      (fun ctx => { ctx with symbols := symbolTablePopScope ctx.symbols }) (fun _ _ => rfl) (fun _ _ => rfl)
      inside
    refine around.congr fun tick ctx => ?_
    unfold checkFunctionTypes
    dsimp only
    rcases checkParameters tick _ func.params with ⟨_ | _, after⟩ <;> rfl

theorem talliedRegistered (functions : List FunctionDef) :
    Tallied errors fun tick ctx => registerFunctions tick ctx functions :=
  talliedAll (fun _ _ => rfl) (fun _ _ _ _ => rfl) fun func _ => talliedAdd _ func.name func.returnType false false true

theorem talliedFunctions (functions : List FunctionDef) :
    Tallied errors fun tick ctx => checkFunctions tick ctx functions :=
  talliedAll (fun _ _ => rfl) (fun _ _ _ _ => rfl) fun func _ => talliedFunction (some func)

theorem incrementExact (c : Int) (above : -2147483648 ≤ c) (below : c < 2147483647) : increment c = c + 1 := by
  unfold increment wrapInt
  rw [Int.bmod_def]
  omega

/-- `error_count` starts as an `int` and, counting without bound, ends as one. -/
def Room (check : (Int → Int) → TypeContext → Bool × TypeContext) (ctx : TypeContext) : Prop :=
  -2147483648 ≤ ctx.errorCount ∧ (check (· + 1) ctx).2.errorCount ≤ 2147483647

def Agrees (check : (Int → Int) → TypeContext → Bool × TypeContext) (ctx : TypeContext) : Prop :=
  ((check increment ctx).1 = true ↔ (check increment ctx).2.errorCount = ctx.errorCount) ∧
    ((check increment ctx).1 = false ↔ ctx.errorCount < (check increment ctx).2.errorCount)

theorem talliedAgrees {check : (Int → Int) → TypeContext → Bool × TypeContext} (tallied : Tallied errors check)
    {ctx : TypeContext} (room : Room check ctx) : Agrees check ctx :=
  (talliedVerdict incrementExact tallied room.1 room.2).2

theorem programAgrees {functions : List FunctionDef}
    (room : Room (fun tick ctx => checkProgramTypes tick ctx functions) typeContextCreate) :
    (checkProgramTypes increment typeContextCreate functions).1 = true ↔
      (checkProgramTypes increment typeContextCreate functions).2.errorCount = 0 := by
  have both := talliedAnd (talliedRegistered functions) (talliedFunctions functions)
  have agrees := (talliedAgrees both room).1
  unfold checkProgramTypes
  dsimp only [typeContextCreate] at agrees ⊢
  rw [Bool.and_eq_true, decide_eq_true_iff, agrees, and_self]

/-- The error counter agrees with what the checker returns. -/
theorem verdictCounted :
    (∀ s ctx, Room (fun tick ctx => checkStmtTypes tick ctx s) ctx →
      Agrees (fun tick ctx => checkStmtTypes tick ctx s) ctx) ∧
    (∀ func ctx, Room (fun tick ctx => checkFunctionTypes tick ctx func) ctx →
      Agrees (fun tick ctx => checkFunctionTypes tick ctx func) ctx) ∧
    (∀ e ctx type, (inferExprType increment ctx e).1 = some type →
      (inferExprType increment ctx e).2.errorCount ≤ ctx.errorCount) ∧
    ∀ functions, Room (fun tick ctx => checkProgramTypes tick ctx functions) typeContextCreate →
      ((checkProgramTypes increment typeContextCreate functions).1 = true ↔
        (checkProgramTypes increment typeContextCreate functions).2.errorCount = 0) := by
  refine ⟨fun s ctx room => talliedAgrees (talliedStmt s) room,
    fun func ctx room => talliedAgrees (talliedFunction func) room, fun e ctx type typed => ?_,
    fun functions room => programAgrees room⟩
  obtain ⟨inference, here⟩ := inferHere increment ctx e
  rw [here] at typed ⊢
  cases inference with
  | typed type => exact Int.le_refl _
  | silent => cases typed
  | reported r => cases typed

theorem strayOperatorCounted : Agrees (fun tick ctx => checkStmtTypes tick ctx (.block
    [.expr (.unaryOp (.other 3) (.number 1)), .expr (.identifier none), .ret (.number 1)])) typeContextCreate :=
  verdictCounted.1 _ _ ⟨by decide, by decide⟩

/-! Scopes -/

theorem inferScopes (tick : Int → Int) (ctx : TypeContext) (e : Expr) :
    (inferExprType tick ctx e).2.symbols = ctx.symbols := by
  obtain ⟨inference, here⟩ := inferHere tick ctx e
  rw [here]
  cases inference <;> rfl

/-- One symbol more in the innermost scope, at its end. -/
def Declared (before : SymbolTable) (name : Option CString) (type : Option TypeKind)
    (isParam isMutable isInitialized : Bool) (after : SymbolTable) : Prop :=
  ∃ text kind scope, name = some text ∧ type = some kind ∧ after = before.setCurrent scope ∧
    before.currentScope.Extends ⟨text, kind, isParam, isMutable, isInitialized⟩ scope

theorem addScopes (tick : Int → Int) (ctx : TypeContext) (refused : Report) (name : Option CString)
    (type : Option TypeKind) (isParam isMutable isInitialized : Bool) :
    ((addSymbol tick ctx refused name type isParam isMutable isInitialized).1 = true ∧
      Declared ctx.symbols name type isParam isMutable isInitialized
        (addSymbol tick ctx refused name type isParam isMutable isInitialized).2.symbols) ∨
    ((addSymbol tick ctx refused name type isParam isMutable isInitialized).1 = false ∧
      (addSymbol tick ctx refused name type isParam isMutable isInitialized).2.symbols = ctx.symbols) := by
  cases name with
  | none => exact .inr ⟨rfl, rfl⟩
  | some text =>
    cases type with
    | none => exact .inr ⟨rfl, rfl⟩
    | some kind =>
      cases fresh : ctx.symbols.currentScope.declare ⟨text, kind, isParam, isMutable, isInitialized⟩ with
      | none =>
        simp only [addSymbol, symbolTableAddSymbol, fresh, Option.map_none]
        exact .inr ⟨trivial, rfl⟩
      | some scope =>
        simp only [addSymbol, symbolTableAddSymbol, fresh, Option.map_some]
        exact .inl ⟨trivial, text, kind, scope, rfl, rfl, rfl, Scopes.Scope.declareExtends.mp fresh⟩

theorem initializerScopes (tick : Int → Int) (ctx : TypeContext) (type : Option TypeKind) (init : Expr) :
    (checkInitializer tick ctx type init).2.symbols = ctx.symbols := by
  have kept := inferScopes tick ctx init
  unfold checkInitializer
  split
  · rfl
  · rcases whole : inferExprType tick ctx init with ⟨_ | initType, after⟩ <;> simp only [whole] at kept ⊢
    · exact kept
    · split <;> exact kept

theorem returnScopes (tick : Int → Int) (ctx : TypeContext) (value : Expr) :
    (checkReturn tick ctx value).2.symbols = ctx.symbols := by
  have kept := inferScopes tick ctx value
  unfold checkReturn
  split
  · rfl
  · rcases whole : inferExprType tick ctx value with ⟨_ | type, after⟩ <;> simp only [whole] at kept ⊢
    · exact kept
    · split
      · exact kept
      · split <;> exact kept

theorem varDeclScopes (tick : Int → Int) (ctx : TypeContext) (name : Option CString) (type : Option TypeKind)
    (init : Expr) (isMut : Bool) :
    ((checkStmtTypes tick ctx (.varDecl name type init isMut)).1 = true ∧
      Declared ctx.symbols name type false isMut (!init.isNull)
        (checkStmtTypes tick ctx (.varDecl name type init isMut)).2.symbols) ∨
    ((checkStmtTypes tick ctx (.varDecl name type init isMut)).1 = false ∧
      (checkStmtTypes tick ctx (.varDecl name type init isMut)).2.symbols = ctx.symbols) := by
  have kept := initializerScopes tick ctx type init
  rw [checkStmtTypes]
  split
  · exact .inr ⟨rfl, rfl⟩
  · rcases whole : checkInitializer tick ctx type init with ⟨_ | _, after⟩ <;> simp only [whole] at kept ⊢
    · exact .inr ⟨trivial, kept⟩
    · rw [← kept]
      exact addScopes tick after (.symbolDefined (printedName name)) name type false isMut (!init.isNull)

/-- The scopes around the innermost one are what they were. -/
def Within (before after : SymbolTable) : Prop := ∃ scope, after = before.setCurrent scope

theorem withinSame {before after : SymbolTable} (same : after = before) : Within before after :=
  ⟨before.currentScope, by rw [same, setCurrentSame]⟩

theorem withinDeclared {before after : SymbolTable} {name : Option CString} {type : Option TypeKind}
    {isParam isMutable isInitialized : Bool}
    (declared : Declared before name type isParam isMutable isInitialized after) :
    Within before after := by
  obtain ⟨text, kind, scope, -, -, rfl, -⟩ := declared
  exact ⟨scope, rfl⟩

theorem Within.trans {before between after : SymbolTable} (first : Within before between)
    (second : Within between after) :
    Within before after := by
  obtain ⟨scope, rfl⟩ := first
  obtain ⟨scope', rfl⟩ := second
  exact ⟨scope', setCurrentTwice before scope scope'⟩

-- What was pushed is popped, whatever was declared in it.
theorem Within.pops {table after : SymbolTable} (inside : Within (symbolTablePushScope table) after) :
    symbolTablePopScope after = table := by
  obtain ⟨scope, rfl⟩ := inside
  exact popPushed table scope

theorem statementsScopes {tick : Int → Int} {statements : List Stmt}
    (each : ∀ s ∈ statements, ∀ ctx, Within ctx.symbols (checkStmtTypes tick ctx s).2.symbols) (ctx : TypeContext) :
    Within ctx.symbols (checkStatements tick ctx statements).2.symbols := by
  induction statements generalizing ctx with
  | nil => exact withinSame rfl
  | cons s statements ih =>
    rw [checkStatements]
    exact (each s List.mem_cons_self ctx).trans (ih (fun s' member => each s' (List.mem_cons_of_mem _ member)) _)

theorem exprScopes (tick : Int → Int) (ctx : TypeContext) (e : Expr) :
    (checkStmtTypes tick ctx (.expr e)).2.symbols = ctx.symbols := by
  have kept := inferScopes tick ctx e
  rw [checkStmtTypes]
  split
  · rfl
  · rcases whole : inferExprType tick ctx e with ⟨_ | type, after⟩ <;> simp only [whole] at kept ⊢ <;> exact kept

theorem blockScopes {tick : Int → Int} {statements : List Stmt}
    (each : ∀ s ∈ statements, ∀ ctx, Within ctx.symbols (checkStmtTypes tick ctx s).2.symbols) (ctx : TypeContext) :
    (checkStmtTypes tick ctx (.block statements)).2.symbols = ctx.symbols := by
  rw [checkStmtTypes]
  exact (statementsScopes each { ctx with symbols := symbolTablePushScope ctx.symbols }).pops

theorem stmtScopes (tick : Int → Int) (s : Stmt) (ctx : TypeContext) :
    Within ctx.symbols (checkStmtTypes tick ctx s).2.symbols := by
  induction s generalizing ctx with
  | null => exact withinSame rfl
  | varDecl name type init isMut =>
    rcases varDeclScopes tick ctx name type init isMut with ⟨-, declared⟩ | ⟨-, same⟩
    · exact withinDeclared declared
    · exact withinSame same
  | expr e => exact withinSame (exprScopes tick ctx e)
  | ret value => exact withinSame (returnScopes tick ctx value)
  | ifStmt => exact withinSame rfl
  | whileStmt => exact withinSame rfl
  | block statements each => exact withinSame (blockScopes each ctx)
  | other kind => exact withinSame rfl

theorem stmtSettled {tick : Int → Int} {s : Stmt} (other : ∀ name type init isMut, s ≠ .varDecl name type init isMut)
    (ctx : TypeContext) : (checkStmtTypes tick ctx s).2.symbols = ctx.symbols := by
  cases s with
  | null => rfl
  | varDecl name type init isMut => exact absurd rfl (other name type init isMut)
  | expr e => exact exprScopes tick ctx e
  | ret value => exact returnScopes tick ctx value
  | ifStmt => rfl
  | whileStmt => rfl
  | block statements => exact blockScopes (fun s _ => stmtScopes tick s) ctx
  | other kind => rfl

theorem parametersScopes (tick : Int → Int) (params : List (Option CString × Option TypeKind)) (ctx : TypeContext) :
    Within ctx.symbols (checkParameters tick ctx params).2.symbols := by
  induction params generalizing ctx with
  | nil => exact withinSame rfl
  | cons param params ih =>
    obtain ⟨name, type⟩ := param
    have added := addScopes tick ctx (.parameterDefined (printedName name)) name type true false true
    rw [checkParameters]
    rcases whole : addSymbol tick ctx (.parameterDefined (printedName name)) name type true false true with
      ⟨_ | _, after⟩ <;> simp only [whole] at added ⊢
    · exact withinSame (by simpa using added)
    · have declared : Declared ctx.symbols name type true false true after.symbols := by simpa using added
      exact (withinDeclared declared).trans (ih after)

theorem functionScopes (tick : Int → Int) (ctx : TypeContext) (func : Option FunctionDef) :
    (checkFunctionTypes tick ctx func).2.symbols = ctx.symbols := by
  cases func with
  | none => rfl
  | some func =>
    let entered := { ctx with
      symbols := symbolTablePushScope ctx.symbols, currentFunction := func.name, expectedReturnType := func.returnType }
    have params := parametersScopes tick func.params entered
    unfold checkFunctionTypes
    rcases whole : checkParameters tick entered func.params with ⟨_ | _, after⟩ <;>
      simp only [entered, whole] at params ⊢
    · exact params.pops
    · exact (params.trans (stmtScopes tick func.body after)).pops

/-- The checker leaves the scopes as they were, but for a declaration that it accepts. -/
theorem scopesRestored :
    (∀ ctx s, (∀ name type init isMut, s ≠ .varDecl name type init isMut) →
      (checkStmtTypes increment ctx s).2.symbols = ctx.symbols) ∧
    (∀ ctx name type init isMut, (checkStmtTypes increment ctx (.varDecl name type init isMut)).1 = false →
      (checkStmtTypes increment ctx (.varDecl name type init isMut)).2.symbols = ctx.symbols) ∧
    (∀ ctx name type init isMut, (checkStmtTypes increment ctx (.varDecl name type init isMut)).1 = true →
      Declared ctx.symbols name type false isMut (!init.isNull)
        (checkStmtTypes increment ctx (.varDecl name type init isMut)).2.symbols) ∧
    (∀ ctx func, (checkFunctionTypes increment ctx func).2.symbols = ctx.symbols) ∧
    ∀ ctx e, (inferExprType increment ctx e).2.symbols = ctx.symbols := by
  refine ⟨fun ctx s other => stmtSettled other ctx, fun ctx name type init isMut rejected => ?_,
    fun ctx name type init isMut accepted => ?_, functionScopes increment, inferScopes increment⟩
  · have outcome := varDeclScopes increment ctx name type init isMut
    rw [rejected] at outcome
    simpa using outcome
  · have outcome := varDeclScopes increment ctx name type init isMut
    rw [accepted] at outcome
    simpa using outcome

theorem acceptedDeclares : Declared typeContextCreate.symbols (some "x".toList) (some .typeU32) false true true
    (checkStmtTypes increment typeContextCreate (.varDecl (some "x".toList) (some .typeU32) (.number 1) true)).2.symbols :=
  scopesRestored.2.2.1 _ _ _ _ _ (by decide)

end BitN.Loose
