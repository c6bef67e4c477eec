import BitN.AstOwnership

/-! What the parser allocates for a tree is what the tree owns. -/
namespace BitN.AstMemory
open Heap

variable (allocator : Allocator Block)

def Built {τ : Type} (At : τ → Pointer → Bag → Prop) (build : τ → Client Pointer) (t : τ) : Prop :=
  Runs 0 (build t) (At t)

theorem exprNew (node : ExprNode) (owned : Bag) : Runs owned (newExpr allocator node) fun p left =>
    ∃ q, p = some q ∧ left = exprCell q node + owned := by
  refine runsMap (runsWeaken (runsAlloc allocator _) ?_)
  rintro p _ rfl
  exact ⟨p, rfl, rfl⟩

theorem argumentsBuilt {es : List ASTExpr} (each : ∀ e ∈ es, Built ExprAt (buildExpr allocator) e)
    {before : List ASTExpr}
    (p capacity : Nat) {slots : List Pointer} {m : Bag} (held : EachAt ExprAt before slots m)
    (room : slots.length ≤ capacity) (some_ : 0 < capacity) :
    Runs ({⟨p, .pointers capacity slots⟩} + m) (buildArguments allocator (some p) capacity slots.length es)
      fun array left => ∃ all arrayCells ms, ArrayAt array all arrayCells ∧ EachAt ExprAt (before ++ es) all ms ∧
        left = arrayCells + ms := by
  induction es generalizing before p capacity slots m with
  | nil =>
    rw [buildArguments, List.append_nil]
    exact runsPure ⟨slots, _, m, .some room, held, rfl⟩
  | cons e es ih =>
    rw [buildArguments]
    have next : ∀ q larger, slots.length < larger → Runs ({⟨q, .pointers larger slots⟩} + m) (do
        let arg ← buildExpr allocator e
        setSlot (some q) slots.length arg
        buildArguments allocator (some q) larger (slots.length + 1) es) fun array left =>
          ∃ all arrayCells ms, ArrayAt array all arrayCells ∧ EachAt ExprAt (before ++ e :: es) all ms ∧
            left = arrayCells + ms := by
      intro q larger roomy
      refine runsNew (each e List.mem_cons_self) fun arg cells built => ?_
      refine runsCall (add_left_comm _ _ _) (slotWritten roomy arg) ?_
      rintro _ _ rfl
      have others := ih (fun e' member => each e' (List.mem_cons_of_mem _ member)) q larger
        (held.snoc built) (by rw [List.length_append, List.length_singleton]; omega) (by omega)
      rw [List.length_append, List.length_singleton, List.append_assoc] at others
      rw [add_comm cells m]
      exact others
    split
    · refine runsCall rfl (reallocated allocator (.some room) (by omega)) ?_
      rintro _ _ ⟨q, rfl, rfl⟩
      exact next q (capacity * 2) (by omega)
    · exact next p capacity (by omega)

theorem exprBuilt (e : ASTExpr) : Built ExprAt (buildExpr allocator) e := by
  induction e with
  | null =>
    rw [Built, buildExpr]
    exact runsPure .null
  | number value =>
    rw [Built, buildExpr]
    refine runsWeaken (exprNew allocator _ 0) ?_
    rintro _ _ ⟨q, rfl, rfl⟩
    exact .number
  | identifier name =>
    rw [Built, buildExpr]
    refine runsWeaken (exprNew allocator _ 0) ?_
    rintro _ _ ⟨q, rfl, rfl⟩
    exact .identifier
  | string value =>
    rw [Built, buildExpr]
    refine runsWeaken (exprNew allocator _ 0) ?_
    rintro _ _ ⟨q, rfl, rfl⟩
    exact .string
  | boolean value =>
    rw [Built, buildExpr]
    refine runsWeaken (exprNew allocator _ 0) ?_
    rintro _ _ ⟨q, rfl, rfl⟩
    exact .boolean
  | binaryOp op left right first second =>
    rw [Built, buildExpr]
    refine runsBind first fun l m leftAt => runsNew second fun r m' rightAt => ?_
    refine runsWeaken (exprNew allocator _ _) ?_
    rintro _ _ ⟨q, rfl, rfl⟩
    rw [add_comm m' m]
    exact .binaryOp leftAt rightAt
  | unaryOp op operand inner =>
    rw [Built, buildExpr]
    refine runsBind inner fun e m innerAt => runsWeaken (exprNew allocator _ _) ?_
    rintro _ _ ⟨q, rfl, rfl⟩
    exact .unaryOp innerAt
  | call func args callee each =>
    rw [Built, buildExpr]
    refine runsBind (runsAlloc allocator _) ?_
    rintro p _ rfl
    refine runsBind (argumentsBuilt allocator each p 10 .nil (Nat.zero_le 10) (by omega)) ?_
    rintro array _ ⟨slots, arrayCells, ms, room, argsAt, rfl⟩
    refine runsNew callee fun f m calleeAt => runsWeaken (exprNew allocator _ _) ?_
    rintro _ _ ⟨q, rfl, rfl⟩
    exact .call calleeAt room argsAt
  | arrayIndex array index first second =>
    rw [Built, buildExpr]
    refine runsBind first fun a m arrayAt => runsNew second fun i m' indexAt => ?_
    refine runsWeaken (exprNew allocator _ _) ?_
    rintro _ _ ⟨q, rfl, rfl⟩
    rw [add_comm m' m]
    exact .arrayIndex arrayAt indexAt
  | bitSlice expr start stop inner =>
    rw [Built, buildExpr]
    refine runsBind inner fun e m innerAt => runsWeaken (exprNew allocator _ _) ?_
    rintro _ _ ⟨q, rfl, rfl⟩
    exact .bitSlice innerAt
  | memberAccess object field inner =>
    rw [Built, buildExpr]
    refine runsBind inner fun e m innerAt => runsWeaken (exprNew allocator _ _) ?_
    rintro _ _ ⟨q, rfl, rfl⟩
    exact .memberAccess innerAt

theorem typeBuilt (type : Option TypeKind) : Built TypeAt (buildType allocator) type := by
  cases type with
  | none => exact runsPure .null
  | some kind =>
    refine runsMap (runsWeaken (runsAlloc allocator _) ?_)
    rintro p _ rfl
    exact .some

theorem stmtNew (node : StmtNode) (owned : Bag) : Runs owned (newStmt allocator node) fun p left =>
    ∃ q, p = some q ∧ left = stmtCell q node + owned := by
  refine runsMap (runsWeaken (runsAlloc allocator _) ?_)
  rintro p _ rfl
  exact ⟨p, rfl, rfl⟩

theorem statementsBuilt {ss : List ASTStmt} (each : ∀ s ∈ ss, Built StmtAt (buildStmt allocator) s)
    {before : List ASTStmt} {array : Pointer} {slots : List Pointer} {arrayCells m : Bag}
    (room : ArrayAt array slots arrayCells)
    (held : EachAt StmtAt before slots m) :
    Runs (arrayCells + m) (buildStatements allocator array slots.length ss)
      fun array left => ∃ all arrayCells ms, ArrayAt array all arrayCells ∧ EachAt StmtAt (before ++ ss) all ms ∧
        left = arrayCells + ms := by
  induction ss generalizing before array slots arrayCells m with
  | nil =>
    rw [buildStatements, List.append_nil]
    exact runsPure ⟨slots, _, m, room, held, rfl⟩
  | cons s ss ih =>
    rw [buildStatements]
    refine runsCall rfl (reallocated allocator room (Nat.le_succ _)) ?_
    rintro _ _ ⟨q, rfl, rfl⟩
    refine runsNew (each s List.mem_cons_self) fun statement cells built => ?_
    refine runsCall (add_left_comm _ _ _) (slotWritten (Nat.lt_succ_self _) statement) ?_
    rintro _ _ rfl
    have fits : (slots ++ [statement]).length ≤ slots.length + 1 := by rw [List.length_append, List.length_singleton]
    have next := ih (fun s' member => each s' (List.mem_cons_of_mem _ member)) (.some (p := q) fits) (held.snoc built)
    rw [List.length_append, List.length_singleton, List.append_assoc] at next
    rw [add_comm cells m]
    exact next

theorem stmtBuilt (s : ASTStmt) : Built StmtAt (buildStmt allocator) s := by
  induction s with
  | null =>
    rw [Built, buildStmt]
    exact runsPure .null
  | varDecl name type init isMut =>
    rw [Built, buildStmt]
    refine runsBind (typeBuilt allocator type) fun t m typed => runsNew (exprBuilt allocator init) fun i m' value => ?_
    refine runsWeaken (stmtNew allocator _ _) ?_
    rintro _ _ ⟨q, rfl, rfl⟩
    rw [add_comm m' m]
    exact .varDecl typed value
  | expr e =>
    rw [Built, buildStmt]
    refine runsBind (exprBuilt allocator e) fun q m value => runsWeaken (stmtNew allocator _ _) ?_
    rintro _ _ ⟨q, rfl, rfl⟩
    exact .expr value
  | ret e =>
    rw [Built, buildStmt]
    refine runsBind (exprBuilt allocator e) fun q m value => runsWeaken (stmtNew allocator _ _) ?_
    rintro _ _ ⟨q, rfl, rfl⟩
    exact .ret value
  | ifStmt =>
    rw [Built, buildStmt]
    refine runsWeaken (stmtNew allocator _ 0) ?_
    rintro _ _ ⟨q, rfl, rfl⟩
    exact .ifStmt
  | whileStmt =>
    rw [Built, buildStmt]
    refine runsWeaken (stmtNew allocator _ 0) ?_
    rintro _ _ ⟨q, rfl, rfl⟩
    exact .whileStmt
  | block statements each =>
    rw [Built, buildStmt]
    refine runsBind (statementsBuilt allocator each .null .nil) ?_
    rintro array _ ⟨slots, arrayCells, ms, room, each, rfl⟩
    refine runsWeaken (stmtNew allocator _ _) ?_
    rintro _ _ ⟨q, rfl, rfl⟩
    exact .block room each

/-- No parameters are parsed. -/
def parameterless (func : ASTFunctionDef) : ASTFunctionDef := { func with params := [] }

def ParsedAt (func : ASTFunctionDef) : Pointer → Bag → Prop := FunctionAt (parameterless func)

theorem functionBuilt (func : ASTFunctionDef) : Built ParsedAt (buildFunction allocator) func := by
  have next : ∀ t m, TypeAt func.returnType t m → Runs m (do
      let body ← buildStmt allocator func.body
      some <$> alloc allocator (.function ⟨func.name, t, none, none, 0, body⟩)) (ParsedAt func) := by
    intro t m typed
    refine runsNew (stmtBuilt allocator func.body) fun body m' bodyAt => ?_
    refine runsMap (runsWeaken (runsAlloc allocator _) ?_)
    rintro p _ rfl
    rw [add_comm m' m, ← add_zero m]
    exact show FunctionAt (parameterless func) _ _ from .function typed .null bodyAt
  rw [Built, buildFunction]
  cases declared : func.returnType with
  | none =>
    rw [declared] at next
    exact next none 0 .null
  | some kind =>
    rw [declared] at next
    refine runsBind (runsAlloc allocator _) ?_
    rintro returnType _ rfl
    refine runsBind (runsAlloc allocator _) ?_
    rintro parsedType _ rfl
    refine runsBind (runsStore (Block.type kind) (add_left_comm _ _ _)) ?_
    rintro _ _ rfl
    refine runsBind (runsFree (add_left_comm _ _ _)) ?_
    rintro _ _ rfl
    exact next (some returnType) _ .some

/-! Items added to their owner -/

theorem allBuilt {τ : Type} {At : τ → Pointer → Bag → Prop} {build : τ → Client Pointer} {add : Pointer → Client Unit}
    (Owner : List τ → Bag → Prop) (each : ∀ t, Built At build t)
    (added : ∀ before m t q m', Owner before m → At t q m' → Runs (m + m') (add q)
      fun _ left => Owner (before ++ [t]) left)
    {items : List τ} (before : List τ) {m : Bag} (owner : Owner before m) :
    Runs m (buildAll build add items) fun _ left => Owner (before ++ items) left := by
  induction items generalizing before m with
  | nil =>
    rw [List.append_nil]
    exact runsPure owner
  | cons t items ih =>
    refine runsNew (each t) fun q m' item => ?_
    rw [add_comm m' m]
    refine runsBind (added before m t q m' owner item) fun _ left owner' => ?_
    rw [List.append_cons]
    exact ih _ owner'

theorem fieldAdded {reg : ASTRegister} {p : Nat} {m : Bag} (held : RegisterAt reg (some p) m) {field : ASTField}
    {q : Pointer} {m' : Bag} (fieldAt : FieldAt field q m') : Runs (m + m') (astRegisterAddField allocator p q)
      fun _ left => RegisterAt { reg with fields := reg.fields ++ [field] } (some p) left := by
  cases held with
  | @register p reg t array slots m arrayCells ms typed room each =>
    rw [← each.length, add_assoc]
    refine runsCall rfl (loadedAs rfl) ?_
    rintro _ _ ⟨rfl, rfl⟩
    have split : {⟨p, .register ⟨reg.name, t, reg.offset, array, slots.length⟩⟩} + (m + (arrayCells + ms) + m') =
        arrayCells + ({⟨p, .register ⟨reg.name, t, reg.offset, array, slots.length⟩⟩} + (m + (ms + m'))) := by ac_rfl
    refine runsCall split (slotAdded allocator room q) fun moved left roomy => ?_
    refine runsWeaken (runsStore _ (add_left_comm _ _ _)) ?_
    rintro _ _ rfl
    have fields : RegisterAt { reg with fields := reg.fields ++ [field] } (some p) _ :=
      .register typed roomy (each.snoc fieldAt)
    rw [List.length_append, List.length_singleton, ← each.length] at fields
    rwa [add_left_comm left]

theorem registerBuilt (reg : ASTRegister) : Built RegisterAt (buildRegister allocator) reg := by
  refine runsBind (typeBuilt allocator reg.type) fun t m typed => ?_
  refine runsBind (runsAlloc allocator _) ?_
  rintro p _ rfl
  have bare : RegisterAt { reg with fields := [] } (some p) _ := .register typed .null .nil
  rw [add_zero, add_zero] at bare
  have fieldBuilt (field : ASTField) : Built FieldAt (astFieldCreate allocator) field := by
    refine runsMap (runsWeaken (runsAlloc allocator _) ?_)
    rintro q _ rfl
    exact .field
  let owner : List ASTField → Bag → Prop := fun fields left => RegisterAt { reg with fields := fields } (some p) left
  refine runsBind (allBuilt owner fieldBuilt (fun _ _ _ _ _ held field => fieldAdded allocator held field) [] bare)
    fun _ left built => ?_
  exact runsPure built

theorem registerAdded {periph : ASTPeripheral} {p : Nat} {m : Bag} (held : PeripheralAt periph (some p) m)
    {reg : ASTRegister} {q : Pointer} {m' : Bag} (regAt : RegisterAt reg q m') :
    Runs (m + m') (astPeripheralAddRegister allocator p q)
      fun _ left => PeripheralAt { periph with registers := periph.registers ++ [reg] } (some p) left := by
  cases held with
  | @peripheral p periph array slots arrayCells ms room each =>
    rw [← each.length, add_assoc]
    refine runsCall rfl (loadedAs rfl) ?_
    rintro _ _ ⟨rfl, rfl⟩
    have split : {⟨p, .peripheral ⟨periph.name, periph.baseAddress, array, slots.length⟩⟩} + (arrayCells + ms + m') =
        arrayCells + ({⟨p, .peripheral ⟨periph.name, periph.baseAddress, array, slots.length⟩⟩} + (ms + m')) := by
        ac_rfl
    refine runsCall split (slotAdded allocator room q) fun moved left roomy => ?_
    refine runsWeaken (runsStore _ (add_left_comm _ _ _)) ?_
    rintro _ _ rfl
    have registers : PeripheralAt { periph with registers := periph.registers ++ [reg] } (some p) _ :=
      .peripheral roomy (each.snoc regAt)
    rwa [List.length_append, List.length_singleton, ← each.length] at registers

theorem peripheralBuilt (periph : ASTPeripheral) : Built PeripheralAt (buildPeripheral allocator) periph := by
  refine runsBind (runsAlloc allocator _) ?_
  rintro p _ rfl
  have bare : PeripheralAt { periph with registers := [] } (some p) _ := .peripheral .null .nil
  let owner : List ASTRegister → Bag → Prop := fun registers left =>
    PeripheralAt { periph with registers := registers } (some p) left
  refine runsBind (allBuilt owner (registerBuilt allocator)
    (fun _ _ _ _ _ held reg => registerAdded allocator held reg) [] bare) fun _ left built => ?_
  exact runsPure built

theorem functionAdded {prog : ASTProgram} {p : Nat} {m : Bag} (held : ProgramAt prog (some p) m) {func : ASTFunctionDef}
    {q : Pointer} {m' : Bag} (funcAt : FunctionAt func q m') : Runs (m + m') (astProgramAddFunction allocator p q)
      fun _ left => ProgramAt { prog with functions := prog.functions ++ [func] } (some p) left := by
  cases held with
  | @program p prog funcs slots funcCells fs periphs slots' periphCells ps funcRoom functions periphRoom peripherals =>
    rw [← functions.length, add_assoc]
    refine runsCall rfl (loadedAs rfl) ?_
    rintro _ _ ⟨rfl, rfl⟩
    have split : {⟨p, .program ⟨funcs, slots.length, periphs, prog.peripherals.length⟩⟩} +
          (funcCells + fs + (periphCells + ps) + m') = funcCells +
        ({⟨p, .program ⟨funcs, slots.length, periphs, prog.peripherals.length⟩⟩} + (fs + m' + (periphCells + ps))) := by
      ac_rfl
    refine runsCall split (slotAdded allocator funcRoom q) fun moved left roomy => ?_
    refine runsWeaken (runsStore _ (add_left_comm _ _ _)) ?_
    rintro _ _ rfl
    have grown : ProgramAt { prog with functions := prog.functions ++ [func] } (some p) _ :=
      .program roomy (functions.snoc funcAt) periphRoom peripherals
    rw [List.length_append, List.length_singleton, ← functions.length] at grown
    rwa [← add_assoc left]

theorem peripheralAdded {prog : ASTProgram} {p : Nat} {m : Bag} (held : ProgramAt prog (some p) m)
    {periph : ASTPeripheral} {q : Pointer} {m' : Bag} (periphAt : PeripheralAt periph q m') :
    Runs (m + m') (astProgramAddPeripheral allocator p q)
      fun _ left => ProgramAt { prog with peripherals := prog.peripherals ++ [periph] } (some p) left := by
  cases held with
  | @program p prog funcs slots funcCells fs periphs slots' periphCells ps funcRoom functions periphRoom peripherals =>
    rw [← peripherals.length, add_assoc]
    refine runsCall rfl (loadedAs rfl) ?_
    rintro _ _ ⟨rfl, rfl⟩
    have split : {⟨p, .program ⟨funcs, prog.functions.length, periphs, slots'.length⟩⟩} +
          (funcCells + fs + (periphCells + ps) + m') = periphCells +
        ({⟨p, .program ⟨funcs, prog.functions.length, periphs, slots'.length⟩⟩} + (funcCells + fs + (ps + m'))) := by
      ac_rfl
    refine runsCall split (slotAdded allocator periphRoom q) fun moved left roomy => ?_
    refine runsWeaken (runsStore _ (add_left_comm _ _ _)) ?_
    rintro _ _ rfl
    have grown : ProgramAt { prog with peripherals := prog.peripherals ++ [periph] } (some p) _ :=
      .program funcRoom functions roomy (peripherals.snoc periphAt)
    rw [List.length_append, List.length_singleton, ← peripherals.length] at grown
    rwa [add_left_comm left]

/-- The program that a source with these definitions declares. -/
def declared (definitions : List (ASTFunctionDef ⊕ ASTPeripheral)) : ASTProgram :=
  ⟨(definitions.filterMap Sum.getLeft?).map parameterless, definitions.filterMap Sum.getRight?⟩

theorem definitionsBuilt {definitions before : List (ASTFunctionDef ⊕ ASTPeripheral)} {p : Nat} {m : Bag}
    (held : ProgramAt (declared before) (some p) m) : Runs m (buildDefinitions allocator p definitions)
      fun _ left => ProgramAt (declared (before ++ definitions)) (some p) left := by
  induction definitions generalizing before m with
  | nil =>
    rw [List.append_nil]
    exact runsPure held
  | cons definition definitions ih =>
    rw [List.append_cons]
    cases definition with
    | inl func =>
      refine runsNew (functionBuilt allocator func) fun q m' funcAt => ?_
      rw [add_comm m' m]
      refine runsBind (functionAdded allocator held funcAt) fun _ left grown => ih ?_
      simpa only [declared, List.filterMap_append, List.filterMap_cons, List.filterMap_nil, Sum.getLeft?_inl,
        Sum.getRight?_inl, List.append_nil, List.map_append, List.map_cons, List.map_nil] using grown
    | inr periph =>
      refine runsNew (peripheralBuilt allocator periph) fun q m' periphAt => ?_
      rw [add_comm m' m]
      refine runsBind (peripheralAdded allocator held periphAt) fun _ left grown => ih ?_
      simpa only [declared, List.filterMap_append, List.filterMap_cons, List.filterMap_nil, Sum.getLeft?_inr,
        Sum.getRight?_inr, List.append_nil] using grown

theorem programBuilt (definitions : List (ASTFunctionDef ⊕ ASTPeripheral)) :
    Runs 0 (buildProgram allocator definitions) (ProgramAt (declared definitions)) := by
  refine runsBind (runsAlloc allocator _) ?_
  rintro p _ rfl
  have bare : ProgramAt (declared []) (some p) _ := ProgramAt.program .null .nil .null .nil
  refine runsBind (definitionsBuilt allocator bare) fun _ left built => ?_
  exact runsPure built

def returnTypes (func : ASTFunctionDef) : Multiset Block := (func.returnType.map Block.type).toList

theorem typeBlocks {type : Option TypeKind} {p : Pointer} {m : Bag} (held : TypeAt type p m) :
    m.map Sigma.snd = (type.map Block.type).toList := by
  cases held <;> rfl

theorem signaturesLeft {functions : List ASTFunctionDef} {slots : List Pointer} {left : Bag}
    (kept : EachAt SignatureAt (functions.map parameterless) slots left) :
    left.map Sigma.snd = (functions.map returnTypes).sum := by
  induction functions generalizing slots left with
  | nil =>
    cases kept
    rfl
  | cons func functions ih =>
    cases kept with
    | cons first others =>
      obtain ⟨t, names, types, m, params, typed, parameters, rfl⟩ := first
      cases parameters with
      | null =>
        rw [Multiset.map_add, Multiset.map_add, typeBlocks typed, ih others, Multiset.map_zero, add_zero]
        rfl

/-- Released, a tree leaves the types that its functions return, and nothing else; the rest of the memory
is as it was before the tree was built. -/
theorem treeReleased (definitions : List (ASTFunctionDef ⊕ ASTPeripheral)) (memory : Memory Block) :
    ∃ prog between after leaked, buildProgram allocator definitions memory = some (prog, between) ∧
      astFreeProgram prog between = some ((), after) ∧ after.entries = leaked + memory.entries ∧
      leaked.map Sigma.snd = ((definitions.filterMap Sum.getLeft?).map returnTypes).sum := by
  obtain ⟨prog, between, tree, built, kept, held⟩ := programBuilt allocator definitions memory memory.entries
    (zero_add _).symm
  obtain ⟨_, after, leaked, freed, rest, slots, signatures⟩ := programFreed held between memory.entries kept
  exact ⟨prog, between, after, leaked, built, freed, rest, signaturesLeft signatures⟩

end BitN.AstMemory
