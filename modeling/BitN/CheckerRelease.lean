import BitN.AstAllocation
import BitN.CheckerAgreement
import BitN.Shape

/-! What a check leaves in memory: its verdict, the tree as it was, and the types of refused names. -/
namespace BitN.CheckerMemory
open Heap AstMemory

/-- Only types are lost, one for two reports of a refused name, or for one where no type was given. -/
structure Leaks (given : Prop) (before after : TypeContext) (leaked : Bag) : Prop where
  types : ∀ cell ∈ leaked, ∃ kind, cell.2 = .type kind
  bound : refusals before + 2 * leaked.card ≤ refusals after
  exact_ : given → refusals before + 2 * leaked.card = refusals after

theorem leaksNothing {given : Prop} {before after : TypeContext} (quiet : refusals after = refusals before) :
    Leaks given before after 0 :=
  ⟨fun _ member => absurd member (Multiset.notMem_zero _), quiet.ge, fun _ => quiet.symm⟩

theorem Leaks.trans {given given' : Prop} {before between after : TypeContext} {leaked leaked' : Bag}
    (first : Leaks given before between leaked) (second : Leaks given' between after leaked') :
    Leaks (given ∧ given') before after (leaked + leaked') := by
  refine ⟨fun cell member => ?_, ?_, fun both => ?_⟩
  · rcases Multiset.mem_add.mp member with here | there
    · exact first.types cell here
    · exact second.types cell there
  · have := first.bound
    have := second.bound
    rw [Multiset.card_add]
    omega
  · have := first.exact_ both.1
    have := second.exact_ both.2
    rw [Multiset.card_add]
    omega

theorem Leaks.weaken {given given' : Prop} {before after : TypeContext} {leaked : Bag}
    (leaks : Leaks given before after leaked)
    (stronger : given' → given) : Leaks given' before after leaked :=
  ⟨leaks.types, leaks.bound, fun holds => leaks.exact_ (stronger holds)⟩

/-- With the blocks `m` as they were, a check has come to its verdict. -/
def Outcome (given : Prop) (ctx : Nat) (m : Bag) (before : TypeContext) (expected : Bool × TypeContext) (ok : Bool)
    (left : Bag) : Prop :=
  ∃ context leaked, left = m + (context + leaked) ∧ ok = expected.1 ∧ ContextAt expected.2 ctx context ∧
    Leaks given before expected.2 leaked ∧ (ok = true → leaked = 0)

def Checks (given : Prop) (ctx : Nat) (m : Bag) (x : Client Bool) (check : TypeContext → Bool × TypeContext) : Prop :=
  ∀ before context, ContextAt before ctx context → Runs (m + context) x (Outcome given ctx m before (check before))

section checks
variable {given given' : Prop} {ctx : Nat} {m : Bag} {before : TypeContext} {expected : Bool × TypeContext} {ok : Bool}
    {left : Bag}

theorem Outcome.quiet {between : TypeContext} (outcome : Outcome given ctx m between expected ok left)
    (quiet : refusals between = refusals before) : Outcome given ctx m before expected ok left := by
  obtain ⟨context, leaked, rfl, verdict, held, ⟨types, bound, exact_⟩, none⟩ := outcome
  rw [quiet] at bound exact_
  exact ⟨context, leaked, rfl, verdict, held, ⟨types, bound, exact_⟩, none⟩

theorem Outcome.verdict (outcome : Outcome given ctx m before expected ok left) : ok = expected.1 := by
  obtain ⟨-, -, -, verdict, -⟩ := outcome
  exact verdict

theorem Outcome.weaken (outcome : Outcome given ctx m before expected ok left) (stronger : given' → given) :
    Outcome given' ctx m before expected ok left := by
  obtain ⟨context, leaked, rfl, verdict, held, leaks, none⟩ := outcome
  exact ⟨context, leaked, rfl, verdict, held, leaks.weaken stronger, none⟩

theorem Checks.frame {x : Client Bool} {check : TypeContext → Bool × TypeContext} (checks : Checks given ctx m x check)
    (rest : Bag) : Checks given ctx (rest + m) x check := by
  intro before context held
  rw [add_comm rest, add_assoc, add_comm rest, ← add_assoc]
  refine runsWeaken (runsFrame (checks before context held) rest) ?_
  rintro ok _ ⟨_, rfl, context', leaked, rfl, outcome⟩
  exact ⟨context', leaked, by ac_rfl, outcome⟩

theorem Checks.weaken {x : Client Bool} {check : TypeContext → Bool × TypeContext}
    (checks : Checks given ctx m x check) (stronger : given' → given) : Checks given' ctx m x check :=
  fun before context held => runsWeaken (checks before context held) fun _ _ outcome => outcome.weaken stronger

theorem settled {context : Bag} (verdict : ok = expected.1) (held : ContextAt expected.2 ctx context)
    (quiet : refusals expected.2 = refusals before) : Outcome given ctx m before expected ok (m + context) :=
  ⟨context, 0, by rw [add_zero], verdict, held, leaksNothing quiet, fun _ => rfl⟩

theorem trueChecked : Checks given ctx m (pure true) fun before => (true, before) :=
  fun _ _ held => runsPure (settled rfl held rfl)

theorem errorChecked {report : Report} (other : Report.refuses report = false) :
    Checks given ctx m (do
      countError ctx
      pure false) fun before => (false, before.report report) := by
  intro before context held
  refine runsCall (add_comm _ _) (errorCounted held) fun _ context' counted => ?_
  rw [add_comm]
  exact runsPure (settled rfl (counted.print report) (refusalsReport before other))

/-- An expression is checked, and what is done with its type. -/
theorem inferChecked {x : Client Pointer} {infer : TypeContext → Option TypeKind × TypeContext}
    (inferred : Infers ctx m x infer)
    {known : Nat → Client Bool} {next : TypeKind → TypeContext → Bool × TypeContext}
    (then_ : ∀ p kind between context, ContextAt between ctx context →
      Runs ({⟨p, .type kind⟩} + (m + context)) (known p) (Outcome given ctx m between (next kind between))) :
    Checks given ctx m (do
      match ← x with
      | none => do
        countError ctx
        pure false
      | some p => known p) fun before =>
        match infer before with
        | (none, ctx) => (false, ctx.count)
        | (some kind, ctx) => next kind ctx := by
  intro before context held
  refine runsBind (inferred before context held) ?_
  rintro result _ ⟨context', type, rfl, held', typed, quiet⟩
  dsimp only
  generalize infer before = result at held' typed quiet ⊢
  rcases result with ⟨_ | kind, between⟩
  · cases typed
    rw [add_zero, add_comm]
    refine runsCall rfl (errorCounted held') fun _ context'' counted => ?_
    rw [add_comm]
    exact runsPure (settled rfl counted quiet)
  · cases typed with
    | @some p =>
      have opened : m + (context' + {⟨p, .type kind⟩}) = {⟨p, .type kind⟩} + (m + context') := by ac_rfl
      rw [opened]
      exact runsWeaken (then_ p kind between context' held') fun _ _ outcome => outcome.quiet quiet

theorem typeReleased {p : Nat} {kind : TypeKind} {owned : Bag} {next : Client Bool} {Q : Bool → Bag → Prop}
    (then_ : Runs owned next Q) : Runs ({⟨p, .type kind⟩} + owned) (do
      typeFree (some p)
      next) Q := by
  refine runsBind (runsFree rfl) ?_
  rintro _ _ rfl
  exact then_

/-- A type that does not fit is released after the report. -/
theorem mismatchChecked {p : Nat} {kind : TypeKind} {context : Bag} (held : ContextAt before ctx context)
    {report : Report}
    (other : Report.refuses report = false) : Runs ({⟨p, .type kind⟩} + (m + context)) (do
      countError ctx
      typeFree (some p)
      pure false) (Outcome given ctx m before (false, before.report report)) := by
  have opened : {⟨p, .type kind⟩} + (m + context) = context + ({⟨p, .type kind⟩} + m) := by ac_rfl
  refine runsCall opened (errorCounted held) fun _ context' counted => ?_
  rw [add_left_comm, add_comm context']
  exact typeReleased (runsPure (settled rfl (counted.print report) (refusalsReport before other)))

end checks

section check
variable (allocator : Allocator Block) {given : Prop} {ctx : Nat} {m : Bag}

theorem exprNull {e : ASTExpr} {p : Pointer} (held : ExprAt e p m) : p.isNone = e.isNull := by
  cases held <;> rfl

theorem exprChecked {e : ASTExpr} {p : Pointer} {n : Nat} (held : ExprAt e p m) (enough : m.card ≤ n) :
    Checks given ctx m (checkExpr allocator ctx n p) fun before => BitN.checkStmtTypes before (.expr e) := by
  unfold checkExpr
  simp only [BitN.checkStmtTypes, exprNull held]
  cases e.isNull with
  | true => exact trueChecked
  | false =>
    refine inferChecked (exprInferred allocator held enough) fun p kind between context held' => ?_
    exact typeReleased (runsPure (settled rfl held' rfl))

theorem initializerChecked {type : Option TypeKind} {e : ASTExpr} {t p : Pointer} {m' : Bag} {n : Nat}
    (typed : TypeAt type t m)
    (held : ExprAt e p m') (enough : m'.card ≤ n) :
    Checks given ctx (m + m') (checkInitializer allocator ctx n t p) fun before =>
      BitN.checkInitializer before type e := by
  unfold checkInitializer BitN.checkInitializer
  simp only [exprNull held]
  cases e.isNull with
  | true => exact trueChecked
  | false =>
    refine inferChecked ((exprInferred allocator held enough).frame m) fun p kind between context held' => ?_
    have opened : {⟨p, .type kind⟩} + (m + m' + context) = m + {⟨p, .type kind⟩} + (m' + context) := by ac_rfl
    refine runsCall opened (typesCompared typed .some) ?_
    rintro _ _ ⟨rfl, rfl⟩
    rw [← opened]
    by_cases same : BitN.typeCompatible type (some kind) = true
    · simp only [same, if_true]
      exact typeReleased (runsPure (settled rfl held' rfl))
    · simp only [same]
      exact mismatchChecked held' rfl

theorem returnChecked {e : ASTExpr} {p : Pointer} {n : Nat} (held : ExprAt e p m) (enough : m.card ≤ n) :
    Checks given ctx m (checkReturn allocator ctx n p) fun before => BitN.checkReturn before e := by
  unfold checkReturn BitN.checkReturn
  simp only [exprNull held]
  cases e.isNull with
  | true => exact trueChecked
  | false =>
    refine inferChecked (exprInferred allocator held enough) fun p kind between context held' => ?_
    have opened : {⟨p, .type kind⟩} + (m + context) = context + ({⟨p, .type kind⟩} + m) := by ac_rfl
    refine runsCall opened (expectedRead held') ?_
    rintro node context ⟨rfl, types, rest, split, typed⟩
    rw [← opened]
    cases declared : between.expectedReturnType with
    | none =>
      rw [declared] at typed
      generalize node.expectedReturnType = expected at typed
      cases typed
      exact typeReleased (runsPure (settled rfl held' rfl))
    | some expected =>
      rw [declared] at typed
      generalize node.expectedReturnType = pointer at typed
      cases typed with
      | @some q =>
        have compared : {⟨p, .type kind⟩} + (m + context) = {⟨q, .type expected⟩} + {⟨p, .type kind⟩} + (m + rest) := by
          rw [split]
          ac_rfl
        refine runsCall compared (typesCompared .some .some) ?_
        rintro _ _ ⟨rfl, rfl⟩
        rw [← compared]
        by_cases same : BitN.typeCompatible (some expected) (some kind) = true
        · simp only [same, if_true]
          exact typeReleased (runsPure (settled rfl held' rfl))
        · simp only [same]
          exact mismatchChecked held' rfl

/-- A refused name leaves its type to no one. -/
theorem symbolChecked {type : Option TypeKind} {t : Pointer} {m' context : Bag} {before : TypeContext}
    (held : ContextAt before ctx context) (typed : TypeAt type t m') {refused : Report}
    (refuses : Report.refuses refused = true)
    (name : CString) (isParam isMutable isInitialized : Bool) : Runs (m' + (m + context))
      (addSymbol allocator ctx name t isParam isMutable isInitialized)
      (Outcome (type.isSome = true) ctx m before
        (before.addSymbol refused name type isParam isMutable isInitialized)) := by
  have opened : m' + (m + context) = context + (m + m') := by ac_rfl
  refine runsCall opened (contextRead held) ?_
  rintro node context ⟨rfl, table, cells, rest, symbols, split, tableAt, around⟩
  rw [symbols]
  unfold TypeContext.addSymbol
  have counted : ∀ after leaked, ContextAt after ctx context → (∀ cell ∈ leaked, ∃ kind, cell.2 = Block.type kind) →
      refusals before + 2 * leaked.card ≤ refusals after + 1 →
      (type.isSome = true → refusals before + 2 * leaked.card = refusals after + 1) →
      Runs (context + (m + leaked)) (do
        countError ctx
        pure false) (Outcome (type.isSome = true) ctx m before (false, after.report refused)) := by
    intro after leaked held' types bound exact_
    refine runsCall rfl (errorCounted held') fun _ context' counted => runsPure ?_
    rw [← refusalsRefused after refuses] at bound exact_
    exact ⟨context', leaked, by ac_rfl, rfl, counted.print refused, ⟨types, bound, exact_⟩, nofun⟩
  cases typed with
  | null => exact counted before 0 held (fun _ member => absurd member (Multiset.notMem_zero _)) (Nat.le_succ _) nofun
  | @some t kind =>
    have added := symbolAdded allocator tableAt name kind isParam isMutable isInitialized t
    have given : context + (m + {⟨t, .type kind⟩}) = cells + {⟨t, .type kind⟩} + (rest + m) := by
      rw [split]
      ac_rfl
    refine runsCall given added fun ok left outcome => ?_
    dsimp only
    cases known : BitN.symbolTableAddSymbol before.symbols name (some kind) isParam isMutable isInitialized with
    | none =>
      rw [known] at outcome
      obtain ⟨rfl, rfl⟩ := outcome
      rw [← given]
      have printed : refusals (before.print (.symbolDefined name)) = refusals before + 1 := refusalsRefused before rfl
      refine counted (before.print (.symbolDefined name)) _ (held.print _) (fun cell member => ?_) ?_ fun _ => ?_
      · obtain rfl := Multiset.mem_singleton.mp member
        exact ⟨kind, rfl⟩
      · rw [printed, Multiset.card_singleton]
      · rw [printed, Multiset.card_singleton]
    | some next =>
      rw [known] at outcome
      obtain ⟨rfl, tableAt'⟩ := outcome
      refine runsPure ⟨left + rest, 0, by ac_rfl, rfl, around next left tableAt', leaksNothing rfl, fun _ => rfl⟩

theorem varDeclChecked {type : Option TypeKind} {e : ASTExpr} {t p : Pointer} {m' : Bag} {n : Nat} (name : CString)
    (isMut : Bool) (typed : TypeAt type t m) (held : ExprAt e p m') (enough : m'.card ≤ n) :
    Checks (type.isSome = true) ctx (m + m') (checkVarDecl allocator ctx n name t p isMut)
      fun before => BitN.checkStmtTypes before (.varDecl name type e isMut) := by
  unfold checkVarDecl
  simp only [BitN.checkStmtTypes, exprNull held]
  intro before context held'
  dsimp only
  split
  · exact errorChecked rfl before context held'
  · have checks : Checks (type.isSome = true) ctx (m + m') _ _ := initializerChecked allocator typed held enough
    refine runsBind (checks before context held') ?_
    rintro ok _ ⟨context', leaked, rfl, verdict, held'', leaks, none⟩
    dsimp only at verdict held'' leaks none
    generalize BitN.checkInitializer before type e = initialized at verdict held'' leaks ⊢
    rcases initialized with ⟨_ | _, between⟩
    · subst verdict
      exact runsPure ⟨context', leaked, rfl, rfl, held'', leaks, none⟩
    · subst verdict
      obtain rfl := none rfl
      rw [add_zero, add_assoc]
      refine runsCall rfl (typeCloned allocator typed) ?_
      rintro t' _ ⟨cells, rfl, typed'⟩
      have opened : cells + m + (m' + context') = cells + (m + m' + context') := by ac_rfl
      rw [opened, ← Option.not_isNone, exprNull held]
      have defined : Report.refuses (.symbolDefined name) = true := rfl
      refine runsWeaken (symbolChecked allocator held'' typed' defined name false isMut (!e.isNull))
        fun ok left outcome => ?_
      obtain ⟨context'', leaked', rfl, verdict, held, leaks', none⟩ := outcome
      have both := leaks.trans leaks'
      rw [zero_add] at both
      exact ⟨context'', leaked', rfl, verdict, held, both.weaken fun given => ⟨given, given⟩, none⟩

/-! Lists -/

/-- A check that goes on after a failure. -/
def checkAll {τ : Type} (check : TypeContext → τ → Bool × TypeContext) : TypeContext → List τ → Bool × TypeContext
  | before, [] => (true, before)
  | before, item :: items =>
    let (ok, between) := check before item
    let (result, after) := checkAll check between items
    (ok && result, after)

theorem Checks.andThen {given given' : Prop} {x : Client Bool} {first : TypeContext → Bool × TypeContext}
    {y : Client Bool} {second : TypeContext → Bool × TypeContext} (checks : Checks given ctx m x first)
    (checks' : Checks given' ctx m y second) : Checks (given ∧ given') ctx m (do
      let ok ← x
      let result ← y
      pure (ok && result)) fun before =>
        ((first before).1 && (second (first before).2).1, (second (first before).2).2) := by
  intro before context held
  refine runsBind (checks before context held) ?_
  rintro ok _ ⟨context', leaked, rfl, rfl, held', leaks, none⟩
  rw [← add_assoc]
  refine runsCall rfl (checks' _ context' held') ?_
  rintro result _ ⟨context'', leaked', rfl, rfl, held'', leaks', none'⟩
  refine runsPure ⟨context'', leaked + leaked', by ac_rfl, rfl, held'', leaks.trans leaks', fun both => ?_⟩
  rw [Bool.and_eq_true] at both
  rw [none both.1, none' both.2, add_zero]

theorem slotsChecked {τ : Type} {At : τ → Pointer → Bag → Prop} {check : TypeContext → τ → Bool × TypeContext}
    {each : Pointer → Client Bool} {Given : τ → Prop} {items : List τ}
    (ran : ∀ t ∈ items, ∀ p m, At t p m → Checks (Given t) ctx m (each p) fun before => check before t)
    (before : List Pointer) {slots : List Pointer} {array : Pointer} {arrayCells : Bag}
    (room : ArrayAt array (before ++ slots) arrayCells) (held : EachAt At items slots m) :
    Checks (∀ t ∈ items, Given t) ctx (arrayCells + m)
      (allSlots each array before.length items.length) fun start => checkAll check start items := by
  induction held generalizing before with
  | nil => exact trueChecked
  | @cons t p m ts ps ms first others ih =>
    have here : (before ++ p :: ps)[before.length]? = some p := by simp
    have next := ih (fun t' member => ran t' (List.mem_cons_of_mem _ member)) (before ++ [p])
      (by rwa [List.append_assoc])
    rw [List.length_append, List.length_singleton] at next
    have head := (ran t List.mem_cons_self _ _ first).frame (arrayCells + ms)
    have opened : arrayCells + ms + m = m + (arrayCells + ms) := add_comm _ _
    rw [opened] at head
    have both := (head.andThen (next.frame m)).weaken
      fun (all : ∀ t' ∈ t :: ts, Given t') =>
        ⟨all t List.mem_cons_self, fun t' member => all t' (List.mem_cons_of_mem _ member)⟩
    intro start context held
    rw [add_assoc]
    refine runsCall rfl (slotRead room here) ?_
    rintro p arrayCells ⟨rfl, rfl⟩
    rw [← add_assoc, add_left_comm]
    exact both start context held

theorem statementsAll (before : TypeContext) (statements : List ASTStmt) :
    BitN.checkStatements before statements = checkAll BitN.checkStmtTypes before statements := by
  induction statements generalizing before with
  | nil => rfl
  | cons s ss ih => simp only [BitN.checkStatements, checkAll, ih]

/-- A scope is popped after what is checked in it. -/
theorem scopeClosed {before : TypeContext} {expected : Bool × TypeContext} {ok : Bool} {left : Bag}
    (outcome : Outcome given ctx m before expected ok left) : Runs left (do
      symbolTablePopScope (← loadContext ctx).symbols
      pure ok) (Outcome given ctx m before
        (expected.1, { expected.2 with symbols := BitN.symbolTablePopScope expected.2.symbols })) := by
  obtain ⟨context, leaked, rfl, verdict, held, ⟨types, bound, exact_⟩, none⟩ := outcome
  have opened : m + (context + leaked) = context + (m + leaked) := by ac_rfl
  rw [opened]
  refine contextStepped held (fun _ _ _ tableAt => scopePopped tableAt) fun context' popped => runsPure ?_
  exact ⟨context', leaked, by ac_rfl, verdict, popped, ⟨types, bound, exact_⟩, none⟩

theorem blockChecked {statements : List ASTStmt} {check : Pointer → Client Bool} {slots : List Pointer}
    {array : Pointer} {arrayCells : Bag} {At : ASTStmt → Pointer → Bag → Prop} {Given : ASTStmt → Prop}
    (ran : ∀ s ∈ statements, ∀ p m, At s p m →
      Checks (Given s) ctx m (check p) fun before => BitN.checkStmtTypes before s)
    (room : ArrayAt array slots arrayCells) (held : EachAt At statements slots m) :
    Checks (∀ s ∈ statements, Given s) ctx (arrayCells + m) (checkBlock allocator ctx check array statements.length)
      fun before => BitN.checkStmtTypes before (.block statements) := by
  have inside : Checks (∀ s ∈ statements, Given s) ctx (arrayCells + m) (checkStatements check array statements.length)
      fun before => BitN.checkStatements before statements := by
    unfold checkStatements
    simp only [statementsAll]
    split
    · exact slotsChecked ran [] room held
    · rename_i nothing
      have none : statements = [] := by
        cases room with
        | null => exact List.length_eq_zero_iff.mp held.length.symm
        | some room => simpa using nothing
      subst none
      exact trueChecked
  intro before context heldC
  rw [add_comm]
  refine contextStepped heldC (fun _ _ _ tableAt => scopePushed allocator tableAt) fun context' pushed => ?_
  simp only [BitN.checkStmtTypes]
  rw [add_comm]
  refine runsBind (inside _ context' pushed) fun ok left outcome => scopeClosed ?_
  exact outcome.quiet rfl

theorem stmtOpened {p n : Nat} {node : StmtNode} {rest : Bag} {check : TypeContext → Bool × TypeContext}
    (enough : (stmtCell p node + rest).card ≤ n) (checks : ∀ n, rest.card ≤ n →
      Checks given ctx rest (checkNode allocator ctx n (checkStmtTypes allocator ctx n) node) check) :
    Checks given ctx (stmtCell p node + rest) (checkStmtTypes allocator ctx n (some p)) check := by
  obtain ⟨n, rfl, small⟩ := fuelLeft enough
  intro before context held
  rw [add_assoc]
  refine runsCall rfl (loadedAs rfl) ?_
  rintro _ _ ⟨rfl, rfl⟩
  rw [← add_assoc]
  exact (checks n small).frame _ before context held

theorem stmtChecked {s : ASTStmt} {p : Pointer} {n : Nat} (held : StmtAt s p m) (enough : m.card ≤ n) :
    Checks s.Shaped ctx m (checkStmtTypes allocator ctx n p) fun before => BitN.checkStmtTypes before s := by
  induction s generalizing p m n with
  | null =>
    cases held
    rw [checkStmtTypes]
    exact trueChecked
  | varDecl name type init isMut =>
    cases held with
    | varDecl typed value =>
      refine stmtOpened allocator enough fun n small => ?_
      rw [Multiset.card_add] at small
      refine (varDeclChecked allocator name isMut typed value (by omega)).weaken fun shaped => ?_
      cases shaped
      rfl
  | expr e =>
    cases held with
    | expr value => exact stmtOpened allocator enough fun n small => exprChecked allocator value small
  | ret e =>
    cases held with
    | ret value => exact stmtOpened allocator enough fun n small => returnChecked allocator value small
  | ifStmt =>
    cases held
    rw [← add_zero (stmtCell _ _)] at enough ⊢
    exact stmtOpened allocator enough fun n small => trueChecked
  | whileStmt =>
    cases held
    rw [← add_zero (stmtCell _ _)] at enough ⊢
    exact stmtOpened allocator enough fun n small => trueChecked
  | block statements each =>
    cases held with
    | block room slots =>
      refine stmtOpened allocator enough fun n small => ?_
      rw [Multiset.card_add] at small
      have few := slots.bounded (Nat.le_of_add_left_le small)
      refine (blockChecked allocator (fun s member p m at_ => each s member at_.1 at_.2) room few).weaken
        fun shaped => ?_
      cases shaped with
      | block each => exact each

/-! Functions -/

/-- After a check that succeeded, the next. -/
theorem Outcome.next {given' : Prop} {before between : TypeContext} {left : Bag} {y : Client Bool}
    {second : TypeContext → Bool × TypeContext} (outcome : Outcome given ctx m before (true, between) true left)
    (checks : Checks given' ctx m y second) : Runs left y (Outcome (given ∧ given') ctx m before (second between)) := by
  obtain ⟨context, leaked, rfl, -, held, leaks, none⟩ := outcome
  obtain rfl := none rfl
  rw [add_zero]
  refine runsWeaken (checks between context held) ?_
  rintro ok _ ⟨context', leaked', rfl, verdict, held', leaks', none'⟩
  have both := leaks.trans leaks'
  rw [zero_add] at both
  exact ⟨context', leaked', rfl, verdict, held', both, none'⟩

theorem nameRead {names i : Nat} {all : List CString} {name : CString} (here : all[i]? = some name) :
    Runs {⟨names, .names all⟩} (getName (some names) i) fun found left =>
      found = name ∧ left = {⟨names, .names all⟩} := by
  refine runsBind (loadedAs rfl) ?_
  rintro _ _ ⟨rfl, rfl⟩
  simp only [here]
  exact runsPure ⟨rfl, rfl⟩

def Typed (params : List (CString × Option TypeKind)) : Prop := ∀ param ∈ params, param.2.isSome = true

theorem parametersChecked {params : List (CString × Option TypeKind)} (done : List (CString × Option TypeKind))
    (before : List Pointer) {slots : List Pointer} {types : Pointer} {names : Nat} {arrayCells ms : Bag}
    (length : before.length = done.length) (room : ArrayAt types (before ++ slots) arrayCells)
    (each : EachAt TypeAt (params.map Prod.snd) slots ms) :
    Checks (Typed params) ctx ({⟨names, .names ((done ++ params).map Prod.fst)⟩} + (arrayCells + ms))
      (checkParameters allocator ctx (some names) types done.length params.length)
      fun start => BitN.checkParameters start params := by
  induction params generalizing done before slots ms with
  | nil => exact trueChecked
  | cons param params ih =>
    obtain ⟨name, type⟩ := param
    cases each with
    | @cons _ t m _ slots ms typed others =>
      have slot : (before ++ t :: slots)[done.length]? = some t := by simp [← length]
      have named : ((done ++ (name, type) :: params).map Prod.fst)[done.length]? = some name := by simp
      have next := ih (done ++ [(name, type)]) (before ++ [t])
        (by rw [List.length_append, List.length_append, length]; rfl) (by rwa [List.append_assoc]) others
      rw [List.append_assoc, List.singleton_append, List.length_append, List.length_singleton] at next
      generalize ((done ++ (name, type) :: params).map Prod.fst) = all at named next ⊢
      generalize before ++ t :: slots = all' at slot room
      intro start context held
      have opened : {⟨names, .names all⟩} + (arrayCells + (m + ms)) + context =
          arrayCells + (m + ({⟨names, .names all⟩} + (ms + context))) := by ac_rfl
      refine runsCall opened (slotRead room slot) ?_
      rintro t arrayCells ⟨rfl, rfl⟩
      refine runsCall (add_left_comm _ _ _) (typeCloned allocator typed) ?_
      rintro paramType _ ⟨cells, rfl, typed'⟩
      have opened' : cells + m + (arrayCells + ({⟨names, .names all⟩} + (ms + context))) =
          {⟨names, .names all⟩} + (cells + (arrayCells + (m + ms) + context)) := by ac_rfl
      refine runsCall opened' (nameRead named) ?_
      rintro name _ ⟨rfl, rfl⟩
      have whole : {⟨names, .names all⟩} + (cells + (arrayCells + (m + ms) + context)) =
          cells + ({⟨names, .names all⟩} + (arrayCells + (m + ms)) + context) := by ac_rfl
      rw [whole]
      have defined : Report.refuses (.parameterDefined name) = true := rfl
      refine runsBind (symbolChecked allocator held typed' defined name true false true) fun ok left outcome => ?_
      simp only [BitN.checkParameters]
      generalize start.addSymbol (.parameterDefined name) name type true false true = added at outcome ⊢
      obtain ⟨verdict, between⟩ := added
      obtain rfl : ok = verdict := outcome.verdict
      have here (all : Typed ((name, type) :: params)) : type.isSome = true := all _ List.mem_cons_self
      have further (all : Typed ((name, type) :: params)) : Typed params := fun param member =>
        all param (List.mem_cons_of_mem _ member)
      cases ok with
      | false => exact runsPure (outcome.weaken here)
      | true =>
        have around : {⟨names, .names all⟩} + (arrayCells + (m + ms)) =
            m + ({⟨names, .names all⟩} + (arrayCells + ms)) := by
          ac_rfl
        rw [around] at outcome ⊢
        exact runsWeaken (outcome.next (next.frame m)) fun _ _ last => last.weaken fun all => ⟨here all, further all⟩

theorem functionChecked {func : ASTFunctionDef} {p : Pointer} {n : Nat} (held : FunctionAt func p m)
    (enough : m.card ≤ n) :
    Checks func.Shaped ctx m (checkFunctionTypes allocator ctx n p) fun before =>
      BitN.checkFunctionTypes before func := by
  cases held with
  | @function p _ t names types b typeCells params m' typed parameters body =>
    rw [Multiset.card_add, Multiset.card_add] at enough
    have paramsChecked : Checks (Typed func.params) ctx params
      (checkParameters allocator ctx names types 0 func.params.length)
        fun before => BitN.checkParameters before func.params := by
      generalize func.params = all at parameters
      cases parameters with
      | null => exact trueChecked
      | some room each => exact parametersChecked allocator [] [] rfl room each
    have bodyChecked : Checks _ ctx m' _ _ := stmtChecked allocator body (by omega : m'.card ≤ n)
    have given (shaped : func.Shaped) : Typed func.params ∧ func.body.Shaped := by
      refine ⟨?_, shaped.body⟩
      rw [shaped.params]
      exact nofun
    intro before context heldC
    rw [add_assoc]
    refine runsCall rfl (loadedAs rfl) ?_
    rintro _ _ ⟨rfl, rfl⟩
    dsimp only
    generalize ({⟨p, .function ⟨func.name, t, names, types, func.params.length, b⟩⟩} : Bag) = cell
    rw [← add_assoc cell, add_comm]
    refine contextStepped heldC (fun _ _ _ tableAt => scopePushed allocator tableAt) fun context' pushed => ?_
    have opened : context' + (cell + (typeCells + params + m')) =
        typeCells + context' + (cell + (params + m')) := by ac_rfl
    refine runsCall opened (functionSet allocator pushed func.name typed) ?_
    rintro _ _ ⟨context'', rfl, set⟩
    have around : typeCells + context'' + (cell + (params + m')) =
        cell + (typeCells + m') + params + context'' := by ac_rfl
    rw [around]
    refine runsBind ((paramsChecked.frame (cell + (typeCells + m'))) _ context'' set) fun ok left outcome => ?_
    have quiet := outcome.quiet
      (show refusals (BitN.typeContextSetFunction _ func.name func.returnType) = refusals before from rfl)
    dsimp only at quiet
    simp only [BitN.checkFunctionTypes]
    generalize BitN.checkParameters _ func.params = added at quiet ⊢
    obtain ⟨verdict, between⟩ := added
    obtain rfl : ok = verdict := quiet.verdict
    have same : cell + (typeCells + m') + params = cell + (typeCells + params) + m' := by ac_rfl
    have whole : cell + (typeCells + params) + m' = cell + (typeCells + params + m') := by ac_rfl
    rw [same] at quiet
    rw [← whole]
    cases ok with
    | false =>
      refine runsWeaken (scopeClosed quiet) fun _ _ outcome => outcome.weaken fun shaped => (given shaped).1
    | true =>
      refine runsBind (quiet.next (bodyChecked.frame (cell + (typeCells + params)))) fun ok left outcome => ?_
      exact runsWeaken (scopeClosed outcome) fun _ _ outcome => outcome.weaken given

theorem functionRegistered {func : ASTFunctionDef} {p : Pointer} (held : FunctionAt func p m) :
    Checks (func.returnType.isSome = true) ctx m (registerFunction allocator ctx p) fun before =>
      before.addSymbol (.functionDefined func.name) func.name func.returnType false false true := by
  cases held with
  | @function p _ t names types b typeCells params m' typed parameters body =>
    intro before context heldC
    rw [add_assoc]
    refine runsCall rfl (loadedAs rfl) ?_
    rintro _ _ ⟨rfl, rfl⟩
    dsimp only
    generalize ({⟨p, .function ⟨func.name, t, names, types, func.params.length, b⟩⟩} : Bag) = cell
    have opened : cell + (typeCells + params + m' + context) = typeCells + (cell + (params + m') + context) := by ac_rfl
    refine runsCall opened (typeCloned allocator typed) ?_
    rintro funcType _ ⟨cells, rfl, typed'⟩
    have whole : cells + typeCells + (cell + (params + m') + context) =
        cells + (cell + (typeCells + params + m') + context) := by
      ac_rfl
    rw [whole]
    have defined : Report.refuses (.functionDefined func.name) = true := rfl
    exact symbolChecked allocator heldC typed' defined func.name false false true

/-! Programs -/

theorem functionsAll (before : TypeContext) (functions : List ASTFunctionDef) :
    BitN.checkFunctions before functions = checkAll BitN.checkFunctionTypes before functions := by
  induction functions generalizing before with
  | nil => rfl
  | cons func functions ih => simp only [BitN.checkFunctions, checkAll, ih]

theorem registrationsAll (before : TypeContext) (functions : List ASTFunctionDef) :
    BitN.registerFunctions before functions = checkAll (fun before func =>
      before.addSymbol (.functionDefined func.name) func.name func.returnType false false true) before functions := by
  induction functions generalizing before with
  | nil => rfl
  | cons func functions ih => simp only [BitN.registerFunctions, checkAll, ih]

theorem programCheckedHere {prog : ASTProgram} {p : Nat} (held : ProgramAt prog (some p) m) :
    Checks prog.Shaped ctx m (checkProgramTypes allocator (some ctx) (some p)) fun before =>
      BitN.checkProgramTypes before prog := by
  intro before context heldC
  unfold checkProgramTypes
  refine runsWalk fun n enough => ?_
  cases held with
  | @program p prog funcs slots funcCells fs periphs slots' periphCells ps funcRoom functions periphRoom peripherals =>
    rw [Multiset.card_add, Multiset.card_add, Multiset.card_add, Multiset.card_add] at enough
    have registers : Checks _ ctx _ _ _ :=
      slotsChecked (fun _ _ _ _ func => functionRegistered allocator func) [] funcRoom functions
    have checks : Checks _ ctx _ _ _ :=
      slotsChecked (fun _ _ _ _ func => functionChecked allocator func.1 func.2) [] funcRoom
        (functions.bounded (by omega : fs.card ≤ n))
    simp only [← functionsAll, ← registrationsAll] at registers checks
    rw [add_assoc]
    refine runsCall rfl (loadedAs rfl) ?_
    rintro _ _ ⟨rfl, rfl⟩
    dsimp only
    generalize ({⟨p, .program ⟨funcs, prog.functions.length, periphs, prog.peripherals.length⟩⟩} : Bag) = cell
    have opened : cell + (funcCells + fs + (periphCells + ps) + context) =
        cell + (periphCells + ps) + (funcCells + fs) + context := by
      ac_rfl
    rw [opened]
    refine runsBind (registers.frame (cell + (periphCells + ps)) before context heldC) ?_
    rintro registered _ ⟨context', leaked, rfl, rfl, heldC', leaks, none⟩
    rw [← add_assoc]
    refine runsCall rfl (checks.frame (cell + (periphCells + ps)) _ context' heldC') ?_
    rintro checked _ ⟨context'', leaked', rfl, rfl, heldC'', leaks', none'⟩
    have counted : cell + (periphCells + ps) + (funcCells + fs) + (context'' + leaked') + leaked =
        context'' + (cell + (funcCells + fs + (periphCells + ps)) + (leaked + leaked')) := by ac_rfl
    refine runsCall counted (countRead heldC'') ?_
    rintro node context'' ⟨rfl, count⟩
    rw [count]
    refine runsPure ⟨context'', leaked + leaked', by ac_rfl, rfl, heldC'', ?_, fun accepted => ?_⟩
    · refine (leaks.trans leaks').weaken fun shaped => ⟨fun func member => (shaped func member).returnType, shaped⟩
    · simp only [Bool.and_eq_true] at accepted
      rw [none accepted.1.1, none' accepted.1.2, add_zero]

end check

/-- A tree is built and checked in a context of its own, and both are released. -/
def checkSession (allocator : Allocator Block) (definitions : List (ASTFunctionDef ⊕ ASTPeripheral)) : Client Bool := do
  let prog ← buildProgram allocator definitions
  let ctx ← typeContextCreate allocator
  let ok ← checkProgramTypes allocator ctx prog
  typeContextFree ctx
  astFreeProgram prog
  pure ok

/-- No access goes wrong, the verdict is the checker's, and what is left are the return types of the functions
and the types of refused names. -/
theorem sessionReleased (allocator : Allocator Block) (definitions : List (ASTFunctionDef ⊕ ASTPeripheral))
    (memory : Memory Block) :
    ∃ ok after returned refused, checkSession allocator definitions memory = some (ok, after) ∧
      after.entries = returned + refused + memory.entries ∧
      returned.map Sigma.snd = ((definitions.filterMap Sum.getLeft?).map returnTypes).sum ∧
      ok = (BitN.checkProgramTypes BitN.typeContextCreate (declared definitions)).1 ∧
      Leaks (declared definitions).Shaped BitN.typeContextCreate
        (BitN.checkProgramTypes BitN.typeContextCreate (declared definitions)).2 refused ∧
          (ok = true → refused = 0) := by
  have ran : Runs 0 (checkSession allocator definitions) fun ok left => ∃ returned refused, left = returned + refused ∧
      returned.map Sigma.snd = ((definitions.filterMap Sum.getLeft?).map returnTypes).sum ∧
      ok = (BitN.checkProgramTypes BitN.typeContextCreate (declared definitions)).1 ∧
      Leaks (declared definitions).Shaped BitN.typeContextCreate
        (BitN.checkProgramTypes BitN.typeContextCreate (declared definitions)).2 refused ∧
          (ok = true → refused = 0) := by
    refine runsBind (programBuilt allocator definitions) fun prog tree held => ?_
    refine runsNew (contextCreated allocator) ?_
    rintro _ context ⟨ctx, rfl, heldC⟩
    obtain ⟨p, rfl⟩ : ∃ p, prog = some p := by
      cases held
      exact ⟨_, rfl⟩
    rw [add_comm]
    refine runsBind (programCheckedHere allocator held _ context heldC) ?_
    rintro ok _ ⟨context', refused, rfl, verdict, heldC', leaks, none⟩
    have opened : tree + (context' + refused) = context' + (tree + refused) := by ac_rfl
    refine runsCall opened (contextFreed heldC') ?_
    rintro _ _ rfl
    rw [zero_add]
    refine runsCall rfl (programFreed held) ?_
    rintro _ returned ⟨slots, signatures⟩
    exact runsPure ⟨returned, refused, rfl, signaturesLeft signatures, verdict, leaks, none⟩
  obtain ⟨ok, after, left, done, kept, returned, refused, rfl, outcome⟩ := ran memory memory.entries (zero_add _).symm
  exact ⟨ok, after, returned, refused, done, kept, outcome⟩

end BitN.CheckerMemory
