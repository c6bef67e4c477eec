import BitN.FunctionOrder

/-! Programs checked in parts: of a part that is accepted on its own, the rest needs the signatures
only. -/
namespace BitN.SeparateChecking

open TypeChecker FunctionOrder

def together (first second : ASTProgram) : ASTProgram :=
  ⟨first.functions ++ second.functions, first.peripherals ++ second.peripherals⟩

def prototype (func : ASTFunctionDef) : ASTFunctionDef := { func with body := .block [] }

def prototypes (program : ASTProgram) : ASTProgram := { program with functions := program.functions.map prototype }

def accepted (program : ASTProgram) : Bool := (checkProgramTypes typeContextCreate program).1

/-! More functions in the global scope -/

structure Grows (table table' : SymbolTable) : Prop where
  inner : table'.inner = table.inner
  globals : table.globalScope.entries <+: table'.globalScope.entries

theorem lookupGrows {table table' : SymbolTable} (grows : Grows table table') {name : CString} {sym : Symbol}
    (found : symbolTableLookup table name = some sym) : symbolTableLookup table' name = some sym := by
  unfold symbolTableLookup Scopes.lookup SymbolTable.scopes at found ⊢
  rw [List.findSome?_append, List.findSome?_singleton] at found ⊢
  rw [grows.inner]
  cases inside : table.inner.findSome? fun scope => scope.find name with
  | some other => rwa [inside] at found
  | none =>
    rw [inside] at found
    exact grows.globals.find?_eq_some found

theorem inferGrows {e : ASTExpr} {type : TypeKind} {ctx ctx' : TypeContext} (grows : Grows ctx.symbols ctx'.symbols)
    (inferred : (inferExprType ctx e).1 = some type) : (inferExprType ctx' e).1 = some type := by
  induction e generalizing type with
  | number value => exact inferred
  | boolean value => exact inferred
  | identifier name =>
    rw [inferIdentifier, Option.map_eq_some_iff] at inferred ⊢
    obtain ⟨sym, found, typed⟩ := inferred
    exact ⟨sym, lookupGrows grows found, typed⟩
  | unaryOp op operand ih => exact ih inferred
  | binaryOp op left right left' right' =>
    rw [inferExprType] at inferred ⊢
    rcases first : inferExprType ctx left with ⟨_ | leftType, between⟩
    · simp [first] at inferred
    obtain rfl := inferKeeps first
    rcases second : inferExprType between right with ⟨_ | rightType, after⟩
    · simp [first, second] at inferred
    obtain rfl := inferKeeps second
    have first' := inferSome (left' (congrArg Prod.fst first))
    have second' := inferSome (right' (congrArg Prod.fst second))
    simp only [first, second] at inferred
    simp only [first', second']
    split at inferred
    · rwa [if_pos ‹_›]
    · simp at inferred
  | bitSlice e start stop ih =>
    rw [inferExprType] at inferred ⊢
    rcases whole : inferExprType ctx e with ⟨_ | operand, between⟩
    · simp [whole] at inferred
    have whole' := inferSome (ih (congrArg Prod.fst whole))
    simp only [whole] at inferred
    simp only [whole']
    split_ifs at inferred ⊢ <;> exact inferred
  | null => simp [inferExprType] at inferred
  | string value => simp [inferExprType] at inferred
  | arrayIndex array index _ _ => simp [inferExprType] at inferred
  | call func args _ _ => simp [inferExprType] at inferred
  | memberAccess object field _ => simp [inferExprType] at inferred

/-! Statements that are accepted -/

/-- Inside a function, with more functions in the global scope on the right. -/
structure Wider (ctx ctx' : TypeContext) : Prop where
  symbols : Grows ctx.symbols ctx'.symbols
  nested : ctx.symbols.inner ≠ []
  expected : ctx'.expectedReturnType = ctx.expectedReturnType

def Passes (check : TypeContext → Bool × TypeContext) (ctx ctx' : TypeContext) : Prop :=
  (check ctx).1 = true → (check ctx').1 = true ∧ Wider (check ctx).2 (check ctx').2

section statements
variable {ctx ctx' : TypeContext} (wider : Wider ctx ctx')
include wider

theorem widerCurrent : ctx'.symbols.currentScope = ctx.symbols.currentScope := by
  unfold SymbolTable.currentScope
  rw [wider.symbols.inner]
  cases inside : ctx.symbols.inner with
  | nil => exact absurd inside wider.nested
  | cons scope outer => rfl

theorem widerSet (scope : Scope) :
    Wider { ctx with symbols := ctx.symbols.setCurrent scope }
      { ctx' with symbols := ctx'.symbols.setCurrent scope } := by
  obtain ⟨⟨inner, globals⟩, nested, expected⟩ := wider
  rcases ctx with ⟨⟨_ | ⟨current, outer⟩, globalScope⟩, count, name, returns, reports⟩
  · exact absurd rfl nested
  · rcases ctx' with ⟨⟨inner', globalScope'⟩, count', name', returns', reports'⟩
    obtain rfl : inner' = current :: outer := inner
    exact ⟨⟨rfl, globals⟩, List.cons_ne_nil _ _, expected⟩

theorem widerPush : Wider { ctx with symbols := symbolTablePushScope ctx.symbols }
    { ctx' with symbols := symbolTablePushScope ctx'.symbols } :=
  ⟨⟨congrArg (List.cons _) wider.symbols.inner, wider.symbols.globals⟩, List.cons_ne_nil _ _, wider.expected⟩

theorem addSymbolPasses (refused : Report) (name : CString) (type : Option TypeKind)
    (isParam isMutable isInitialized : Bool) :
    Passes (fun ctx => ctx.addSymbol refused name type isParam isMutable isInitialized) ctx ctx' := by
  intro added
  obtain ⟨kind, next, rfl, fresh⟩ := addSymbolAdded added
  dsimp only
  rw [addSymbolDeclares fresh, addSymbolDeclares (by rwa [widerCurrent wider])]
  exact ⟨rfl, widerSet wider next⟩

theorem initializerPasses (type : Option TypeKind) (init : ASTExpr) :
    Passes (fun ctx => checkInitializer ctx type init) ctx ctx' := by
  intro checked
  have kept := initializerKeeps checked
  suffices checked' : (checkInitializer ctx' type init).1 = true by
    dsimp only
    rw [kept, initializerKeeps checked']
    exact ⟨rfl, wider⟩
  dsimp only at checked
  unfold checkInitializer at checked ⊢
  split at checked
  case isTrue null => rw [if_pos null]
  case isFalse value =>
    rw [if_neg value]
    rcases whole : inferExprType ctx init with ⟨_ | kind, after⟩
    · simp [whole] at checked
    · have whole' := inferSome (inferGrows wider.symbols (congrArg Prod.fst whole))
      simp only [whole] at checked
      simp only [whole']
      split at checked
      · rw [if_pos ‹_›]
      · simp at checked

theorem returnPasses (value : ASTExpr) : Passes (fun ctx => checkReturn ctx value) ctx ctx' := by
  intro checked
  have kept := returnKeeps checked
  suffices checked' : (checkReturn ctx' value).1 = true by
    dsimp only
    rw [kept, returnKeeps checked']
    exact ⟨rfl, wider⟩
  dsimp only at checked
  unfold checkReturn at checked ⊢
  split at checked
  case isTrue null => rw [if_pos null]
  case isFalse some_ =>
    rw [if_neg some_]
    rcases whole : inferExprType ctx value with ⟨_ | kind, after⟩
    · simp [whole] at checked
    · obtain rfl := inferKeeps whole
      have whole' := inferSome (inferGrows wider.symbols (congrArg Prod.fst whole))
      simp only [whole] at checked
      simp only [whole', wider.expected]
      split at checked
      · rfl
      · split at checked
        · rw [if_pos ‹_›]
        · simp at checked

theorem statementsPass {statements : List ASTStmt}
    (each : ∀ s ∈ statements, ∀ ctx ctx', Wider ctx ctx' → Passes (fun ctx => checkStmtTypes ctx s) ctx ctx') :
    Passes (fun ctx => checkStatements ctx statements) ctx ctx' := by
  induction statements generalizing ctx ctx' with
  | nil => exact fun _ => ⟨rfl, wider⟩
  | cons s statements ih =>
    intro checked
    dsimp only at checked ⊢
    unfold checkStatements at checked ⊢
    dsimp only at checked ⊢
    rw [Bool.and_eq_true] at checked ⊢
    obtain ⟨here, after⟩ := each s List.mem_cons_self ctx ctx' wider checked.1
    obtain ⟨later, last⟩ := ih after (fun s' member => each s' (List.mem_cons_of_mem _ member)) checked.2
    exact ⟨⟨here, later⟩, last⟩

theorem stmtPasses (s : ASTStmt) : Passes (fun ctx => checkStmtTypes ctx s) ctx ctx' := by
  induction s generalizing ctx ctx' with
  | null => exact fun _ => ⟨rfl, wider⟩
  | ifStmt => exact fun _ => ⟨rfl, wider⟩
  | whileStmt => exact fun _ => ⟨rfl, wider⟩
  | ret value => exact returnPasses wider value
  | expr e =>
    intro checked
    dsimp only at checked ⊢
    unfold checkStmtTypes at checked ⊢
    split at checked
    case isTrue null =>
      rw [if_pos null, if_pos null]
      exact ⟨rfl, wider⟩
    case isFalse value =>
      rw [if_neg value, if_neg value]
      rcases whole : inferExprType ctx e with ⟨_ | kind, after⟩
      · simp [whole] at checked
      · obtain rfl := inferKeeps whole
        have whole' := inferSome (inferGrows wider.symbols (congrArg Prod.fst whole))
        simp only [whole']
        exact ⟨trivial, wider⟩
  | varDecl name type init isMut =>
    intro checked
    dsimp only at checked ⊢
    unfold checkStmtTypes at checked ⊢
    split at checked
    · simp at checked
    · rcases whole : checkInitializer ctx type init with ⟨_ | _, after⟩
      · simp [whole] at checked
      · have first := initializerPasses wider type init (congrArg Prod.fst whole)
        dsimp only at first
        rw [whole] at first
        rcases whole' : checkInitializer ctx' type init with ⟨ok, after'⟩
        rw [whole'] at first
        obtain rfl : ok = true := first.1
        rw [if_neg ‹_›, if_neg ‹_›]
        simp only [whole] at checked ⊢
        exact addSymbolPasses first.2 _ _ _ _ _ _ checked
  | block statements each =>
    intro checked
    have inside := statementsPass (widerPush wider) (fun s member _ _ wider => each s member wider) checked
    have kept : ∀ s ∈ statements, ∀ ctx, TypeChecker.Kept ctx (checkStmtTypes ctx s).2 := fun s _ => stmtKept s
    have popped := blockPops kept ctx
    have popped' := blockPops kept ctx'
    refine ⟨inside.1, ?_, ?_, ?_⟩
    · rw [popped.1, popped'.1]
      exact wider.symbols
    · rw [popped.1]
      exact wider.nested
    · rw [popped.2, popped'.2]
      exact wider.expected

theorem parametersPass (params : List (CString × Option TypeKind)) :
    Passes (fun ctx => checkParameters ctx params) ctx ctx' := by
  induction params generalizing ctx ctx' with
  | nil => exact fun _ => ⟨rfl, wider⟩
  | cons param params ih =>
    intro checked
    have first := addSymbolPasses wider (.parameterDefined param.1) param.1 param.2 true false true
    dsimp only [Passes] at checked first ⊢
    unfold checkParameters at checked ⊢
    rcases whole : ctx.addSymbol (.parameterDefined param.1) param.1 param.2 true false true with ⟨_ | _, after⟩
    · simp [whole] at checked
    · rcases whole' : ctx'.addSymbol (.parameterDefined param.1) param.1 param.2 true false true with ⟨ok, after'⟩
      rw [whole, whole'] at first
      obtain ⟨rfl, wider'⟩ := first rfl
      simp only [whole] at checked ⊢
      exact ih wider' checked

end statements

/-! Functions -/

theorem functionPasses {ctx ctx' : TypeContext} (grows : Grows ctx.symbols ctx'.symbols) {func : ASTFunctionDef}
    (checked : (checkFunctionTypes ctx func).1 = true) : (checkFunctionTypes ctx' func).1 = true := by
  have entered : Wider (typeContextSetFunction { ctx with symbols := symbolTablePushScope ctx.symbols } func.name
      func.returnType) (typeContextSetFunction { ctx' with symbols := symbolTablePushScope ctx'.symbols } func.name
      func.returnType) :=
    ⟨⟨congrArg (List.cons _) grows.inner, grows.globals⟩, List.cons_ne_nil _ _, rfl⟩
  have params := parametersPass entered func.params
  dsimp only [Passes] at params
  unfold checkFunctionTypes at checked ⊢
  dsimp only at checked ⊢
  split at checked
  · simp at checked
  · rename_i after whole
    rw [whole] at params
    obtain ⟨ok, wider⟩ := params rfl
    split
    · rename_i after' whole'
      rw [whole'] at ok
      cases ok
    · rename_i after' whole'
      rw [whole'] at wider
      exact (stmtPasses wider func.body checked).1

/-- Of an accepted function the signature is accepted. -/
theorem prototypePasses {ctx : TypeContext} {func : ASTFunctionDef} (checked : (checkFunctionTypes ctx func).1 = true) :
    (checkFunctionTypes ctx (prototype func)).1 = true := by
  unfold checkFunctionTypes at checked ⊢
  dsimp only [prototype] at checked ⊢
  split at checked
  · simp at checked
  · rfl

theorem prototypesRegistered (ctx : TypeContext) (functions others : List ASTFunctionDef) :
    registerFunctions ctx (functions.map prototype ++ others) = registerFunctions ctx (functions ++ others) := by
  induction functions generalizing ctx with
  | nil => rfl
  | cons func functions ih =>
    simp only [List.map_cons, List.cons_append, registerFunctions, ih]
    rfl

/-! Programs -/

/-- In front of other functions whose names are free, the functions of an accepted program stay accepted. -/
theorem libraryPasses {library : List ASTFunctionDef} {others : List ASTFunctionDef}
    (alone : (registerFunctions typeContextCreate library).1 = true)
    (checked : ∀ func ∈ library, (checkFunctionTypes (registerFunctions typeContextCreate library).2 func).1 = true)
    (linked : (registerFunctions typeContextCreate (library ++ others)).1 = true) :
    ∀ func ∈ library,
      (checkFunctionTypes (registerFunctions typeContextCreate (library ++ others)).2 func).1 = true := by
  obtain ⟨globals, after, entries⟩ := (@registered library typeContextCreate .empty rfl).2 alone
  obtain ⟨globals', after', entries'⟩ := (@registered (library ++ others) typeContextCreate .empty rfl).2 linked
  intro func member
  refine functionPasses ?_ (checked func member)
  rw [after, after']
  refine ⟨rfl, ?_⟩
  change globals.entries <+: globals'.entries
  rw [entries, entries', functionSymbols, functionSymbols, List.filterMap_append, ← List.append_assoc]
  exact List.prefix_append _ _

/-- To check a program with a library that is accepted on its own, the signatures of the library will do. -/
theorem libraryLinked {library : ASTProgram} (alone : accepted library = true) (client : ASTProgram) :
    accepted (together library client) = accepted (together (prototypes library) client) := by
  unfold accepted at alone
  unfold accepted together prototypes
  rw [programApart, Bool.and_eq_true, List.all_eq_true] at alone
  rw [programApart, programApart, prototypesRegistered]
  cases linked : (registerFunctions typeContextCreate (library.functions ++ client.functions)).1 with
  | false => rfl
  | true =>
    have each := libraryPasses alone.1 alone.2 linked
    have bodies : (library.functions.all fun func => (checkFunctionTypes
        (registerFunctions typeContextCreate (library.functions ++ client.functions)).2 func).1) = true :=
      List.all_eq_true.mpr each
    have signatures : ((library.functions.map prototype).all fun func => (checkFunctionTypes
        (registerFunctions typeContextCreate (library.functions ++ client.functions)).2 func).1) = true := by
      rw [List.all_eq_true]
      intro func member
      obtain ⟨func, inside, rfl⟩ := List.mem_map.mp member
      exact prototypePasses (each func inside)
    rw [List.all_append, List.all_append, bodies, signatures]

-- fn f() -> u8 { return true; } and fn g() -> u8 { let f: u8 = f; return f; }
def constant : ASTProgram := ⟨[⟨"f".toList, some .typeU8, [], .block [.ret (.boolean true)]⟩], []⟩

def client : ASTProgram := ⟨[⟨"g".toList, some .typeU8, [], .block [.varDecl "f".toList (some .typeU8)
  (.identifier "f".toList) false, .ret (.identifier "f".toList)]⟩], []⟩

theorem constantLinked : accepted (together constant client) = accepted (together (prototypes constant) client) :=
  libraryLinked (by decide) client

end BitN.SeparateChecking
