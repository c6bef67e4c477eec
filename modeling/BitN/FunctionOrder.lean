import BitN.TypeChecker

/-! The verdict on a program does not depend on the order of its functions: each is checked
under the same names, whatever was checked before it. -/
namespace BitN.FunctionOrder

open TypeChecker

/-- Two symbol tables that differ at most in the order of the global scope. -/
structure Alike (table table' : SymbolTable) : Prop where
  inner : table.inner = table'.inner
  globals : table.globalScope.entries.Perm table'.globalScope.entries

theorem alikeSymm {table table' : SymbolTable} (alike : Alike table table') : Alike table' table :=
  ⟨alike.inner.symm, alike.globals.symm⟩

theorem lookupAlike {table table' : SymbolTable} (alike : Alike table table') (name : CString) :
    symbolTableLookup table name = symbolTableLookup table' name := by
  unfold symbolTableLookup Scopes.lookup SymbolTable.scopes
  rw [List.findSome?_append, List.findSome?_append, alike.inner, List.findSome?_singleton, List.findSome?_singleton,
    Scopes.Scope.findPerm alike.globals]

theorem pushAlike {table table' : SymbolTable} (alike : Alike table table') :
    Alike (symbolTablePushScope table) (symbolTablePushScope table') :=
  ⟨congrArg (List.cons _) alike.inner, alike.globals⟩

theorem popAlike {table table' : SymbolTable} (alike : Alike table table') :
    Alike (symbolTablePopScope table) (symbolTablePopScope table') :=
  ⟨congrArg List.tail alike.inner, alike.globals⟩

theorem currentAlike {table table' : SymbolTable} (alike : Alike table table') :
    table.currentScope.entries.Perm table'.currentScope.entries := by
  unfold SymbolTable.currentScope
  rw [alike.inner]
  cases table'.inner with
  | nil => exact alike.globals
  | cons scope outer => exact .refl _

theorem addAlike {table table' next : SymbolTable} (alike : Alike table table') {name : CString}
    {type : Option TypeKind} {isParam isMutable isInitialized : Bool}
    (added : symbolTableAddSymbol table name type isParam isMutable isInitialized = some next) :
    ∃ next', symbolTableAddSymbol table' name type isParam isMutable isInitialized = some next' ∧ Alike next next' := by
  cases type with
  | none => cases added
  | some kind =>
    obtain ⟨scope, declared, rfl⟩ := Option.map_eq_some_iff.mp added
    obtain ⟨scope', declared', perm⟩ := Scopes.Scope.declarePerm (currentAlike alike) declared
    refine ⟨table'.setCurrent scope', by rw [symbolTableAddSymbol, declared', Option.map_some], ?_⟩
    rcases table with ⟨inner, globals⟩
    rcases table' with ⟨inner', globals'⟩
    obtain rfl : inner = inner' := alike.inner
    cases inner with
    | nil => exact ⟨rfl, perm⟩
    | cons current outer =>
      -- Below the global scope both tables declare in the same scope.
      obtain rfl : scope = scope' := Option.some_inj.mp (declared.symm.trans declared')
      exact ⟨rfl, alike.globals⟩

/-! Expressions -/

theorem sameResult {α β γ : Type} {x : Option α × β} {y : Option α × γ} (same : x.1 = y.1) :
    (∃ b c, x = (none, b) ∧ y = (none, c)) ∨ ∃ a b c, x = (some a, b) ∧ y = (some a, c) := by
  rcases x with ⟨_ | a, b⟩
  · exact .inl ⟨b, y.2, rfl, Prod.ext same.symm rfl⟩
  · exact .inr ⟨a, b, y.2, rfl, Prod.ext same.symm rfl⟩

theorem inferAlike (e : ASTExpr) {ctx ctx' : TypeContext} (alike : Alike ctx.symbols ctx'.symbols) :
    (inferExprType ctx e).1 = (inferExprType ctx' e).1 := by
  induction e generalizing ctx ctx' with
  | identifier name => rw [inferIdentifier, inferIdentifier, lookupAlike alike]
  | unaryOp op operand ih => exact ih alike
  | binaryOp op left right left' right' =>
    have kept := inferSymbols left ctx
    have kept' := inferSymbols left ctx'
    unfold inferExprType
    obtain ⟨between, between', leftIs, leftIs'⟩ | ⟨type, between, between', leftIs, leftIs'⟩ := sameResult (left' alike)
    · rw [leftIs, leftIs']
    · rw [leftIs] at kept
      rw [leftIs'] at kept'
      have symbols : Alike between.symbols between'.symbols := by
        rw [kept.1, kept'.1]
        exact alike
      have second := right' symbols
      simp only [leftIs, leftIs']
      obtain ⟨after, after', rightIs, rightIs'⟩ | ⟨other, after, after', rightIs, rightIs'⟩ := sameResult second
      · simp only [rightIs, rightIs']
      · simp only [rightIs, rightIs']
        split <;> rfl
  | bitSlice e start stop ih =>
    unfold inferExprType
    obtain ⟨after, after', whole, whole'⟩ | ⟨type, after, after', whole, whole'⟩ := sameResult (ih alike)
    · rw [whole, whole']
    · simp only [whole, whole']
      split_ifs <;> rfl
  | _ => rfl

/-! Statements -/

structure Agree (one two : Bool × TypeContext) : Prop where
  result : one.1 = two.1
  symbols : Alike one.2.symbols two.2.symbols
  expected : one.2.expectedReturnType = two.2.expectedReturnType

section statements
variable {ctx ctx' : TypeContext} (alike : Alike ctx.symbols ctx'.symbols)
  (expected : ctx.expectedReturnType = ctx'.expectedReturnType)
include alike expected

theorem agreeKept {check : TypeContext → Bool × TypeContext} (result : (check ctx).1 = (check ctx').1)
    (kept : ∀ ctx, (check ctx).2.symbols = ctx.symbols ∧ (check ctx).2.expectedReturnType = ctx.expectedReturnType) :
    Agree (check ctx) (check ctx') := by
  refine ⟨result, ?_, ?_⟩
  · rw [(kept ctx).1, (kept ctx').1]
    exact alike
  · rw [(kept ctx).2, (kept ctx').2, expected]

theorem initializerAlike (type : Option TypeKind) (init : ASTExpr) :
    Agree (checkInitializer ctx type init) (checkInitializer ctx' type init) := by
  refine agreeKept alike expected ?_ fun ctx => initializerSymbols ctx type init
  unfold checkInitializer
  split
  · rfl
  · obtain ⟨after, after', whole, whole'⟩ | ⟨kind, after, after', whole, whole'⟩ := sameResult (inferAlike init alike)
    · rw [whole, whole']
    · simp only [whole, whole']
      split <;> rfl

theorem returnAlike (value : ASTExpr) : Agree (checkReturn ctx value) (checkReturn ctx' value) := by
  have kept := inferSymbols value ctx
  have kept' := inferSymbols value ctx'
  refine agreeKept alike expected ?_ fun ctx => returnSymbols ctx value
  unfold checkReturn
  split
  · rfl
  · obtain ⟨after, after', whole, whole'⟩ | ⟨kind, after, after', whole, whole'⟩ := sameResult (inferAlike value alike)
    · rw [whole, whole']
    · simp only [whole, whole'] at kept kept' ⊢
      rw [kept.2, kept'.2, expected]
      split
      · rfl
      · split <;> rfl

theorem addSymbolAlike (refused : Report) (name : CString) (type : Option TypeKind)
    (isParam isMutable isInitialized : Bool) :
    Agree (ctx.addSymbol refused name type isParam isMutable isInitialized)
      (ctx'.addSymbol refused name type isParam isMutable isInitialized) := by
  unfold TypeContext.addSymbol
  rcases added : symbolTableAddSymbol ctx.symbols name type isParam isMutable isInitialized with _ | next
  · rcases added' : symbolTableAddSymbol ctx'.symbols name type isParam isMutable isInitialized with _ | next'
    · cases type <;> exact ⟨rfl, alike, expected⟩
    · obtain ⟨next, added'', -⟩ := addAlike (alikeSymm alike) added'
      rw [added] at added''
      cases added''
  · obtain ⟨next', added', grown⟩ := addAlike alike added
    rw [added']
    exact ⟨rfl, grown, expected⟩

omit alike expected in
theorem statementsAlike {statements : List ASTStmt}
    (each : ∀ s ∈ statements, ∀ {ctx ctx' : TypeContext}, Alike ctx.symbols ctx'.symbols →
      ctx.expectedReturnType = ctx'.expectedReturnType → Agree (checkStmtTypes ctx s) (checkStmtTypes ctx' s))
    {ctx ctx' : TypeContext} (alike : Alike ctx.symbols ctx'.symbols)
    (expected : ctx.expectedReturnType = ctx'.expectedReturnType) :
    Agree (checkStatements ctx statements) (checkStatements ctx' statements) := by
  induction statements generalizing ctx ctx' with
  | nil => exact ⟨rfl, alike, expected⟩
  | cons s statements ih =>
    have first := each s List.mem_cons_self alike expected
    have rest := ih (fun s' member => each s' (List.mem_cons_of_mem _ member)) first.symbols first.expected
    unfold checkStatements
    dsimp only
    exact ⟨by rw [first.result, rest.result], rest.symbols, rest.expected⟩

theorem stmtAlike (s : ASTStmt) : Agree (checkStmtTypes ctx s) (checkStmtTypes ctx' s) := by
  induction s generalizing ctx ctx' with
  | varDecl name type init isMut =>
    have initialized := initializerAlike alike expected type init
    unfold checkStmtTypes
    split
    · exact ⟨rfl, alike, expected⟩
    · rcases whole : checkInitializer ctx type init with ⟨ok, after⟩
      rcases whole' : checkInitializer ctx' type init with ⟨ok', after'⟩
      rw [whole, whole'] at initialized
      obtain rfl : ok = ok' := initialized.result
      cases ok with
      | false => exact initialized
      | true => exact addSymbolAlike initialized.symbols initialized.expected _ _ _ _ _ _
  | expr e =>
    refine @agreeKept ctx ctx' alike expected (fun ctx => checkStmtTypes ctx (.expr e)) ?_ fun ctx => ?_
    · unfold checkStmtTypes
      split
      · rfl
      · obtain ⟨after, after', whole, whole'⟩ | ⟨kind, after, after', whole, whole'⟩ := sameResult (inferAlike e alike) <;>
          simp only [whole, whole']
    · have kept := inferSymbols e ctx
      unfold checkStmtTypes
      split
      · exact ⟨rfl, rfl⟩
      · rcases whole : inferExprType ctx e with ⟨_ | kind, after⟩ <;> rw [whole] at kept <;> exact kept
  | ret value =>
    unfold checkStmtTypes
    exact returnAlike alike expected value
  | block statements each =>
    have inside := @statementsAlike statements (fun s member _ _ alike expected => each s member alike expected)
      { ctx with symbols := symbolTablePushScope ctx.symbols } { ctx' with symbols := symbolTablePushScope ctx'.symbols }
      (pushAlike alike) expected
    unfold checkStmtTypes
    exact ⟨inside.result, popAlike inside.symbols, inside.expected⟩
  | _ => exact ⟨rfl, alike, expected⟩

theorem parametersAlike (params : List (CString × Option TypeKind)) :
    Agree (checkParameters ctx params) (checkParameters ctx' params) := by
  induction params generalizing ctx ctx' with
  | nil => exact ⟨rfl, alike, expected⟩
  | cons param params ih =>
    have first := addSymbolAlike alike expected (.parameterDefined param.1) param.1 param.2 true false true
    unfold checkParameters
    rcases whole : ctx.addSymbol (.parameterDefined param.1) param.1 param.2 true false true with ⟨ok, after⟩
    rcases whole' : ctx'.addSymbol (.parameterDefined param.1) param.1 param.2 true false true with ⟨ok', after'⟩
    rw [whole, whole'] at first
    obtain rfl : ok = ok' := first.result
    cases ok with
    | false => exact first
    | true => exact ih first.symbols first.expected

end statements

/-! Functions and programs -/

theorem functionAlike {ctx ctx' : TypeContext} (alike : Alike ctx.symbols ctx'.symbols) (func : ASTFunctionDef) :
    (checkFunctionTypes ctx func).1 = (checkFunctionTypes ctx' func).1 := by
  unfold checkFunctionTypes
  dsimp only
  generalize entering : typeContextSetFunction { ctx with symbols := symbolTablePushScope ctx.symbols } func.name
    func.returnType = entered
  generalize entering' : typeContextSetFunction { ctx' with symbols := symbolTablePushScope ctx'.symbols } func.name
    func.returnType = entered'
  have params : Agree (checkParameters entered func.params) (checkParameters entered' func.params) := by
    rw [← entering, ← entering']
    exact @parametersAlike
      (typeContextSetFunction { ctx with symbols := symbolTablePushScope ctx.symbols } func.name func.returnType)
      (typeContextSetFunction { ctx' with symbols := symbolTablePushScope ctx'.symbols } func.name func.returnType)
      (pushAlike alike) rfl func.params
  rcases whole : checkParameters entered func.params with ⟨ok, after⟩
  rcases whole' : checkParameters entered' func.params with ⟨ok', after'⟩
  rw [whole, whole'] at params
  obtain rfl : ok = ok' := params.result
  cases ok with
  | false => rfl
  | true => exact (stmtAlike params.symbols params.expected func.body).result

theorem functionsApart (ctx : TypeContext) (functions : List ASTFunctionDef) :
    (checkFunctions ctx functions).1 = functions.all fun func => (checkFunctionTypes ctx func).1 := by
  suffices any : ∀ after : TypeContext, after.symbols = ctx.symbols →
      (checkFunctions after functions).1 = functions.all fun func => (checkFunctionTypes ctx func).1 from any ctx rfl
  induction functions with
  | nil => exact fun after same => rfl
  | cons func functions ih =>
    intro after same
    have alike : Alike after.symbols ctx.symbols := by
      rw [same]
      exact ⟨rfl, .refl _⟩
    unfold checkFunctions
    dsimp only
    rw [List.all_cons, functionAlike alike func, ih _ ((functionPops func after).trans same)]

theorem programApart (program : ASTProgram) : (checkProgramTypes typeContextCreate program).1 =
    ((registerFunctions typeContextCreate program.functions).1 &&
      program.functions.all fun func =>
        (checkFunctionTypes (registerFunctions typeContextCreate program.functions).2 func).1) := by
  obtain ⟨-, symbols⟩ := @registered program.functions typeContextCreate .empty rfl
  unfold checkProgramTypes
  dsimp only
  rw [← functionsApart]
  rcases ok : (registerFunctions typeContextCreate program.functions).1 with _ | _
  · rfl
  · rcases checked : (checkFunctions (registerFunctions typeContextCreate program.functions).2 program.functions).1
      with _ | _
    · rfl
    · obtain ⟨globals, after, -⟩ := symbols ok
      have none : (checkFunctions (registerFunctions typeContextCreate program.functions).2
          program.functions).2.errorCount = 0 := (functionsCount checked).trans (by rw [after]; rfl)
      rw [none]
      rfl

theorem registeredPerm {functions functions' : List ASTFunctionDef} (perm : functions'.Perm functions) :
    (registerFunctions typeContextCreate functions').1 = (registerFunctions typeContextCreate functions).1 ∧
      ((registerFunctions typeContextCreate functions).1 = true →
        Alike (registerFunctions typeContextCreate functions').2.symbols
          (registerFunctions typeContextCreate functions).2.symbols) := by
  obtain ⟨verdict, symbols⟩ := @registered functions typeContextCreate .empty rfl
  obtain ⟨verdict', symbols'⟩ := @registered functions' typeContextCreate .empty rfl
  have same : (registerFunctions typeContextCreate functions').1 = (registerFunctions typeContextCreate functions).1 := by
    rw [Bool.eq_iff_iff, verdict, verdict', (perm.map ASTFunctionDef.name).append_left _ |>.nodup_iff]
    simp only [perm.mem_iff]
  refine ⟨same, fun ok => ?_⟩
  obtain ⟨globals, after, entries⟩ := symbols ok
  obtain ⟨globals', after', entries'⟩ := symbols' (same.trans ok)
  rw [after, after']
  refine ⟨rfl, ?_⟩
  change globals'.entries.Perm globals.entries
  rw [entries, entries']
  exact (perm.filterMap _).append_left _

/-- The verdict is the same in every order of the functions; it is the verdict on the names and, one by
one, on each function under these names. -/
theorem orderIrrelevant (program : ASTProgram) :
    (∀ functions, functions.Perm program.functions →
      (checkProgramTypes typeContextCreate { program with functions }).1 =
        (checkProgramTypes typeContextCreate program).1) ∧
    (checkProgramTypes typeContextCreate program).1 =
      ((registerFunctions typeContextCreate program.functions).1 &&
        program.functions.all fun func =>
          (checkFunctionTypes (registerFunctions typeContextCreate program.functions).2 func).1) := by
  refine ⟨fun functions perm => ?_, programApart program⟩
  obtain ⟨same, alike⟩ := registeredPerm perm
  rw [programApart, programApart, same]
  rcases ok : (registerFunctions typeContextCreate program.functions).1 with _ | _
  · rfl
  · have each : ∀ func, (checkFunctionTypes (registerFunctions typeContextCreate functions).2 func).1 =
        (checkFunctionTypes (registerFunctions typeContextCreate program.functions).2 func).1 :=
      functionAlike (alike ok)
    simp only [each, perm.all_eq]

-- fn g()->u8{return 1;} fn f()->u8{return g;}, and the other way around
theorem forwardReference :
    (checkProgramTypes typeContextCreate
      ⟨[⟨"f".toList, some .typeU8, [], .block [.ret (.identifier "g".toList)]⟩,
        ⟨"g".toList, some .typeU8, [], .block [.ret (.number 1)]⟩], []⟩).1 =
    (checkProgramTypes typeContextCreate
      ⟨[⟨"g".toList, some .typeU8, [], .block [.ret (.number 1)]⟩,
        ⟨"f".toList, some .typeU8, [], .block [.ret (.identifier "g".toList)]⟩], []⟩).1 :=
  (orderIrrelevant ⟨[⟨"g".toList, some .typeU8, [], .block [.ret (.number 1)]⟩,
    ⟨"f".toList, some .typeU8, [], .block [.ret (.identifier "g".toList)]⟩], []⟩).1 _ (.swap ..)

end BitN.FunctionOrder
