import BitN.CheckerOwnership

/-! The checker in memory does to its context what the checker does, and keeps no type that it infers. -/
namespace BitN.CheckerMemory
open Heap AstMemory

/-! Types -/

theorem typeNew (allocator : Allocator Block) (kind : TypeKind) (owned : Bag) :
    Runs owned (typeFromKind allocator kind) fun t left => ∃ m, left = m + owned ∧ TypeAt (some kind) t m := by
  refine runsMap (runsWeaken (runsAlloc allocator _) ?_)
  rintro p _ rfl
  exact ⟨_, rfl, .some⟩

theorem typeCloned (allocator : Allocator Block) {type : Option TypeKind} {t : Pointer} {m : Bag}
    (held : TypeAt type t m) :
    Runs m (typeClone allocator t) fun t' left => ∃ m', left = m' + m ∧ TypeAt type t' m' := by
  cases held with
  | null => exact runsPure ⟨0, rfl, .null⟩
  | some =>
    refine runsBind (loadedAs rfl) ?_
    rintro _ _ ⟨rfl, rfl⟩
    exact typeNew allocator _ _

theorem typesCompared {target source : Option TypeKind} {p q : Pointer} {m m' : Bag} (targetAt : TypeAt target p m)
    (sourceAt : TypeAt source q m') : Runs (m + m') (typeCompatible p q) fun ok left =>
      ok = BitN.typeCompatible target source ∧ left = m + m' := by
  cases targetAt with
  | null =>
    cases sourceAt with
    | null => exact runsPure ⟨rfl, rfl⟩
    | some => exact runsPure ⟨rfl, rfl⟩
  | some =>
    cases sourceAt with
    | null => exact runsPure ⟨rfl, rfl⟩
    | some =>
      refine runsCall rfl (loadedAs rfl) ?_
      rintro _ _ ⟨rfl, rfl⟩
      refine runsCall (add_comm _ _) (loadedAs rfl) ?_
      rintro _ _ ⟨rfl, rfl⟩
      exact runsPure ⟨rfl, add_comm _ _⟩

/-! The context -/

section context
variable {before : TypeContext} {ctx : Nat} {m : Bag}

theorem contextRead (held : ContextAt before ctx m) : Runs m (loadContext ctx) fun node left => left = m ∧
    ∃ table cells rest, node.symbols = some table ∧ m = cells + rest ∧ TableAt before.symbols table cells ∧
      ∀ symbols cells', TableAt symbols table cells' → ContextAt { before with symbols } ctx (cells' + rest) := by
  cases held with
  | @context table expected m types symbols typed =>
    refine runsWeaken (runsFrame (x := loadContext ctx) (loadedAs rfl) _) ?_
    rintro _ _ ⟨_, rfl, rfl, rfl⟩
    refine ⟨rfl, table, m, _, rfl, add_left_comm _ _ _, symbols, fun symbols' cells' tableAt => ?_⟩
    rw [add_left_comm]
    exact show ContextAt { before with symbols := symbols' } _ _ from .context tableAt typed

theorem contextStepped (held : ContextAt before ctx m) {op : Pointer → Client Unit} {step : SymbolTable → SymbolTable}
    (steps : ∀ symbols p cells, TableAt symbols p cells → Runs cells (op (some p))
      fun _ left => TableAt (step symbols) p left)
    {α : Type} {next : Client α} {Q : α → Bag → Prop} {rest : Bag}
    (then_ : ∀ m, ContextAt { before with symbols := step before.symbols } ctx m → Runs (m + rest) next Q) :
    Runs (m + rest) (do
      op (← loadContext ctx).symbols
      next) Q := by
  refine runsCall rfl (contextRead held) ?_
  rintro node _ ⟨rfl, table, cells, others, symbols, rfl, tableAt, around⟩
  rw [symbols]
  refine runsCall (add_assoc _ _ _) (steps _ _ _ tableAt) fun _ left stepped => ?_
  rw [← add_assoc]
  exact then_ _ (around _ _ stepped)

theorem expectedRead (held : ContextAt before ctx m) : Runs m (loadContext ctx) fun node left => left = m ∧
    ∃ types rest, m = types + rest ∧ TypeAt before.expectedReturnType node.expectedReturnType types := by
  cases held with
  | @context table expected m types symbols typed =>
    refine runsWeaken (runsFrame (x := loadContext ctx) (loadedAs rfl) _) ?_
    rintro _ _ ⟨_, rfl, rfl, rfl⟩
    exact ⟨rfl, types, _, by rw [← add_assoc, add_comm], typed⟩

theorem countRead (held : ContextAt before ctx m) : Runs m (loadContext ctx) fun node left => left = m ∧
    node.errorCount = before.errorCount := by
  cases held with
  | context symbols typed =>
    refine runsWeaken (runsFrame (x := loadContext ctx) (loadedAs rfl) _) ?_
    rintro _ _ ⟨_, rfl, rfl, rfl⟩
    exact ⟨rfl, rfl⟩

theorem errorCounted (held : ContextAt before ctx m) :
    Runs m (countError ctx) fun _ left => ContextAt before.count ctx left := by
  cases held with
  | context symbols typed =>
    refine runsCall rfl (loadedAs rfl) ?_
    rintro _ _ ⟨rfl, rfl⟩
    refine runsWeaken (runsStore _ rfl) ?_
    rintro _ _ rfl
    exact show ContextAt before.count _ _ from .context symbols typed

theorem ContextAt.print (held : ContextAt before ctx m) (report : Report) : ContextAt (before.print report) ctx m := by
  cases held with
  | context symbols typed => exact show ContextAt (before.print report) _ _ from .context symbols typed

theorem functionSet (allocator : Allocator Block) (held : ContextAt before ctx m) (name : CString)
    {type : Option TypeKind}
    {t : Pointer} {m' : Bag} (typed : TypeAt type t m') :
    Runs (m' + m) (typeContextSetFunction allocator ctx name t) fun _ left =>
      ∃ context, left = m' + context ∧ ContextAt (BitN.typeContextSetFunction before name type) ctx context := by
  cases held with
  | @context table expected m types symbols typed' =>
    refine runsCall (add_left_comm _ _ _) (loadedAs rfl) ?_
    rintro _ _ ⟨rfl, rfl⟩
    refine runsBind (runsStore _ rfl) ?_
    rintro _ _ rfl
    have released (block : Block) :
        {⟨ctx, block⟩} + (m' + (m + types)) = types + ({⟨ctx, block⟩} + (m' + m)) := by ac_rfl
    refine runsCall (released _) (typeFreed typed') ?_
    rintro _ _ rfl
    rw [zero_add]
    refine runsCall (add_left_comm _ _ _) (typeCloned allocator typed) ?_
    rintro t' _ ⟨cloned, rfl, typed''⟩
    have kept (block : Block) : cloned + m' + ({⟨ctx, block⟩} + m) = {⟨ctx, block⟩} + (m' + (m + cloned)) := by ac_rfl
    refine runsWeaken (runsStore _ (kept _)) ?_
    rintro _ _ rfl
    refine ⟨_, add_left_comm _ _ _, ?_⟩
    exact show ContextAt (BitN.typeContextSetFunction before name type) _ _ from .context symbols typed''

end context

/-! Expressions -/

/-- The reports of names that were refused. -/
def Report.refuses : Report → Bool
  | .symbolDefined _ | .parameterDefined _ | .functionDefined _ => true
  | _ => false

def refusals (ctx : TypeContext) : Nat := ctx.reports.countP Report.refuses

theorem refusalsRefused (ctx : TypeContext) {report : Report} (refuses : Report.refuses report = true) :
    refusals (ctx.report report) = refusals ctx + 1 := by
  change (ctx.reports ++ [report]).countP Report.refuses = _
  rw [List.countP_append, List.countP_singleton, refuses]
  rfl

theorem refusalsReport (ctx : TypeContext) {report : Report} (other : Report.refuses report = false) :
    refusals (ctx.report report) = refusals ctx := by
  change (ctx.reports ++ [report]).countP Report.refuses = _
  rw [List.countP_append, List.countP_singleton, other]
  rfl

section check
variable (ctx : Nat) (m : Bag)

/-- With the blocks `m` at hand, which it leaves as they are, a program infers a type. -/
def Infers (x : Client Pointer) (infer : TypeContext → Option TypeKind × TypeContext) : Prop :=
  ∀ before context, ContextAt before ctx context → Runs (m + context) x fun result left =>
    ∃ context' type, left = m + (context' + type) ∧ ContextAt (infer before).2 ctx context' ∧
      TypeAt (infer before).1 result type ∧ refusals (infer before).2 = refusals before

variable {ctx m}

theorem Infers.frame {x : Client Pointer} {infer : TypeContext → Option TypeKind × TypeContext}
    (infers : Infers ctx m x infer)
    (rest : Bag) : Infers ctx (rest + m) x infer := by
  intro before context held
  rw [add_comm rest, add_assoc, add_comm rest, ← add_assoc]
  refine runsWeaken (runsFrame (infers before context held) rest) ?_
  rintro result _ ⟨_, rfl, context', type, rfl, outcome⟩
  exact ⟨context', type, by ac_rfl, outcome⟩

theorem knownInferred (allocator : Allocator Block) (kind : TypeKind) :
    Infers ctx m (typeFromKind allocator kind) fun before => (some kind, before) := by
  intro before context held
  refine runsWeaken (typeNew allocator kind _) ?_
  rintro result _ ⟨type, rfl, typed⟩
  exact ⟨context, type, by rw [add_comm, add_assoc], held, typed, rfl⟩

theorem errorInferred {report : Report} (other : Report.refuses report = false) :
    Infers ctx m (do
      countError ctx
      pure none) fun before => (none, before.report report) := by
  intro before context held
  refine runsCall (add_comm _ _) (errorCounted held) fun _ context' counted => runsPure ?_
  refine ⟨context', 0, by rw [add_zero, add_comm], ?_, .null, refusalsReport before other⟩
  exact counted.print report

theorem identifierInferred (allocator : Allocator Block) (name : CString) :
    Infers ctx m (inferIdentifier allocator ctx name) fun before => BitN.inferExprType before (.identifier name) := by
  intro before context held
  refine runsCall (add_comm _ _) (contextRead held) ?_
  rintro node _ ⟨rfl, table, cells, rest, symbols, rfl, tableAt, -⟩
  rw [symbols, add_assoc]
  refine runsCall rfl (tableSearched tableAt name) ?_
  rintro found cells ⟨rfl, resolves⟩
  dsimp only
  rw [BitN.inferExprType]
  cases known : BitN.symbolTableLookup before.symbols name with
  | none =>
    rw [known] at resolves
    subst resolves
    rw [← add_assoc, add_comm _ m]
    exact errorInferred rfl before _ held
  | some sym =>
    rw [known] at resolves
    obtain ⟨array, i, capacity, slots, node, t, others, rfl, here, typed, rfl⟩ := resolves
    have opened : symbolsCell array capacity slots + ({⟨t, .type sym.type⟩} + others) + (rest + m) =
        symbolsCell array capacity slots + ({⟨t, .type sym.type⟩} + (others + (rest + m))) := by ac_rfl
    refine runsCall opened (symbolRead here) ?_
    rintro node _ ⟨rfl, rfl⟩
    rw [typed]
    rw [add_left_comm]
    refine runsWeaken (runsFrame (typeCloned allocator .some) _) ?_
    rintro result _ ⟨_, rfl, type, rfl, cloned⟩
    exact ⟨_, type, by ac_rfl, held, cloned, rfl⟩

theorem resultNew (allocator : Allocator Block) (op : BinaryOp) (l : Nat) (kind : TypeKind) :
    Runs {⟨l, .type kind⟩} (inferBinaryOpType allocator op (some l)) fun result left =>
      ∃ type, left = type + {⟨l, .type kind⟩} ∧ TypeAt (some (BitN.inferBinaryOpType op kind)) result type := by
  cases op with
  | bopEq | bopNe | bopLt | bopGt | bopLe | bopGe => exact typeNew allocator .typeU8 _
  | _ => exact typeCloned allocator .some

theorem binaryInferred (allocator : Allocator Block) {left right : ASTExpr} {x y : Client Pointer} (op : BinaryOp)
    (first : Infers ctx m x fun before => BitN.inferExprType before left)
    (second : Infers ctx m y fun before => BitN.inferExprType before right) :
    Infers ctx m (inferBinary allocator ctx op x y) fun before =>
      BitN.inferExprType before (.binaryOp op left right) := by
  intro before context held
  dsimp only
  rw [BitN.inferExprType]
  refine runsBind (first before context held) ?_
  rintro l _ ⟨context', type, rfl, held', typed, quiet⟩
  dsimp only at held' typed quiet
  generalize BitN.inferExprType before left = inferred at held' typed quiet ⊢
  rcases inferred with ⟨_ | leftType, between⟩
  · cases typed
    exact runsPure ⟨context', 0, rfl, held', .null, quiet⟩
  · cases typed with
    | @some l =>
      rw [← add_assoc]
      refine runsCall rfl (second between context' held') ?_
      rintro r _ ⟨context'', type', rfl, held'', typed', quiet'⟩
      dsimp only at quiet held'' typed' quiet' ⊢
      rw [← quiet, ← quiet']
      clear quiet quiet'
      generalize BitN.inferExprType between right = inferred at held'' typed' ⊢
      rcases inferred with ⟨_ | rightType, after⟩
      · cases typed'
        refine runsBind (runsFree (add_comm _ _)) ?_
        rintro _ _ rfl
        exact runsPure ⟨context'', 0, rfl, held'', .null, rfl⟩
      · cases typed' with
        | @some r =>
          have opened : m + (context'' + {⟨r, .type rightType⟩}) + {⟨l, .type leftType⟩} =
              {⟨l, .type leftType⟩} + {⟨r, .type rightType⟩} + (m + context'') := by ac_rfl
          refine runsCall opened (typesCompared .some .some) ?_
          rintro _ _ ⟨rfl, rfl⟩
          dsimp only at held'' ⊢
          rw [add_assoc]
          by_cases same : BitN.typeCompatible (some leftType) (some rightType) = true
          · rw [if_pos same, if_pos same]
            refine runsCall rfl (resultNew allocator op l leftType) ?_
            rintro result _ ⟨type, rfl, typed⟩
            refine runsBind (runsFree (by rw [add_comm type, add_assoc])) ?_
            rintro _ _ rfl
            refine runsBind (runsFree (add_left_comm _ _ _)) ?_
            rintro _ _ rfl
            exact runsPure ⟨context'', type, by ac_rfl, held'', typed, rfl⟩
          · rw [if_neg same, if_neg same]
            have opened : {⟨l, .type leftType⟩} + ({⟨r, .type rightType⟩} + (m + context'')) =
                context'' + ({⟨l, .type leftType⟩} + ({⟨r, .type rightType⟩} + m)) := by ac_rfl
            refine runsCall opened (errorCounted held'') fun _ context' counted => ?_
            refine runsBind (runsFree (add_left_comm _ _ _)) ?_
            rintro _ _ rfl
            refine runsBind (runsFree (add_left_comm _ _ _)) ?_
            rintro _ _ rfl
            refine runsPure ⟨context', 0, by rw [add_zero, add_comm], ?_, .null, refusalsReport after rfl⟩
            exact counted.print (.binaryMismatch leftType rightType)

theorem sliceInferred (allocator : Allocator Block) {e : ASTExpr} {x : Client Pointer} (start stop : UInt32)
    (inner : Infers ctx m x fun before => BitN.inferExprType before e) :
    Infers ctx m (inferBitSlice allocator ctx start stop x) fun before =>
      BitN.inferExprType before (.bitSlice e start stop) := by
  intro before context held
  dsimp only
  rw [BitN.inferExprType]
  refine runsBind (inner before context held) ?_
  rintro l _ ⟨context', type, rfl, held', typed, quiet⟩
  dsimp only at held' typed quiet
  generalize BitN.inferExprType before e = inferred at held' typed quiet ⊢
  rw [← quiet]
  rcases inferred with ⟨_ | kind, between⟩
  · cases typed
    exact runsPure ⟨context', 0, rfl, held', .null, rfl⟩
  · cases typed with
    | @some l =>
      have opened : m + (context' + {⟨l, .type kind⟩}) = {⟨l, .type kind⟩} + (m + context') := by ac_rfl
      refine runsCall opened (loadedAs rfl) ?_
      rintro kind _ ⟨rfl, rfl⟩
      dsimp only
      have refused (report : Report) (other : Report.refuses report = false) :
        Runs ({⟨l, .type kind⟩} + (m + context')) (do
          countError ctx
          typeFree (some l)
          pure none) fun result left => ∃ context type, left = m + (context + type) ∧
            ContextAt (between.report report) ctx context ∧ TypeAt none result type ∧
              refusals (between.report report) = refusals between := by
        have opened : {⟨l, .type kind⟩} + (m + context') = context' + ({⟨l, .type kind⟩} + m) := by ac_rfl
        refine runsCall opened (errorCounted held') fun _ context'' counted => ?_
        refine runsBind (runsFree (add_left_comm _ _ _)) ?_
        rintro _ _ rfl
        exact runsPure ⟨context'', 0, by rw [add_zero, add_comm], counted.print report, .null,
          refusalsReport between other⟩
      split
      · exact refused (.sliceOperand kind) rfl
      · split
        · exact refused (.sliceRange start stop) rfl
        · refine runsBind (runsFree rfl) ?_
          rintro _ _ rfl
          split
          · exact knownInferred allocator .typeU8 between context' held'
          · split
            · exact knownInferred allocator .typeU16 between context' held'
            · split
              · exact knownInferred allocator .typeU32 between context' held'
              · exact knownInferred allocator .typeU64 between context' held'

theorem exprOpened {allocator : Allocator Block} {p n : Nat} {node : ExprNode} {rest : Bag}
    {infer : TypeContext → Option TypeKind × TypeContext} (enough : (exprCell p node + rest).card ≤ n)
    (infers : ∀ n, rest.card ≤ n → Infers ctx rest
      (inferNode allocator ctx (inferExprType allocator ctx n) node) infer) :
    Infers ctx (exprCell p node + rest) (inferExprType allocator ctx n (some p)) infer := by
  obtain ⟨n, rfl, small⟩ := fuelLeft enough
  intro before context held
  rw [add_assoc]
  refine runsCall rfl (loadedAs rfl) ?_
  rintro _ _ ⟨rfl, rfl⟩
  rw [← add_assoc]
  exact (infers n small).frame _ before context held

theorem leafOpened {allocator : Allocator Block} {p n : Nat} {node : ExprNode}
    {infer : TypeContext → Option TypeKind × TypeContext} (enough : (exprCell p node).card ≤ n)
    (infers : ∀ x, Infers ctx 0 (inferNode allocator ctx x node) infer) :
    Infers ctx (exprCell p node) (inferExprType allocator ctx n (some p)) infer := by
  rw [← add_zero (exprCell p node)] at enough ⊢
  exact exprOpened enough fun n _ => infers (inferExprType allocator ctx n)

/-- Every type that is inferred is a block of its own; the types of its parts are released. -/
theorem exprInferred (allocator : Allocator Block) {e : ASTExpr} {p : Pointer} {n : Nat} (held : ExprAt e p m)
    (enough : m.card ≤ n) :
    Infers ctx m (inferExprType allocator ctx n p) fun before => BitN.inferExprType before e := by
  induction e generalizing p m n with
  | null =>
    cases held
    intro before context held
    rw [inferExprType]
    exact runsPure ⟨context, 0, by rw [add_zero], held, .null, rfl⟩
  | number value =>
    cases held
    exact leafOpened enough fun _ => knownInferred allocator .typeU32
  | identifier name =>
    cases held
    exact leafOpened enough fun _ => identifierInferred allocator name
  | string value =>
    cases held
    exact leafOpened enough fun _ => errorInferred rfl
  | boolean value =>
    cases held
    exact leafOpened enough fun _ => knownInferred allocator .typeU8
  | binaryOp op left right first second =>
    cases held with
    | @binaryOp p _ _ _ l r m m' leftAt rightAt =>
      refine exprOpened enough fun n small => ?_
      rw [Multiset.card_add] at small
      refine binaryInferred allocator op ?_ ((second rightAt (by omega)).frame m)
      rw [add_comm]
      exact (first leftAt (by omega)).frame m'
  | unaryOp op operand inner =>
    cases held with
    | unaryOp e => exact exprOpened enough fun n small => inner e small
  | call func args callee each =>
    cases held with
    | call f room slots => exact exprOpened enough fun _ _ => errorInferred rfl
  | arrayIndex array index first second =>
    cases held with
    | arrayIndex a i => exact exprOpened enough fun _ _ => errorInferred rfl
  | bitSlice expr start stop inner =>
    cases held with
    | bitSlice e => exact exprOpened enough fun n small => sliceInferred allocator start stop (inner e small)
  | memberAccess object field inner =>
    cases held with
    | memberAccess o => exact exprOpened enough fun _ _ => errorInferred rfl

end check

end BitN.CheckerMemory
