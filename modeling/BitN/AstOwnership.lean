import BitN.AstMemory

/-! Which blocks a tree in memory owns, and which of them outlive it. -/
namespace BitN.AstMemory
open Heap

inductive ArrayAt : Pointer → List Pointer → Bag → Prop where
  | null : ArrayAt none [] 0
  | some {p capacity slots} (room : slots.length ≤ capacity) :
      ArrayAt (some p) slots {⟨p, .pointers capacity slots⟩}

inductive EachAt {τ ρ : Type} (At : τ → ρ → Bag → Prop) : List τ → List ρ → Bag → Prop where
  | nil : EachAt At [] [] 0
  | cons {t p m ts ps ms} (first : At t p m) (others : EachAt At ts ps ms) : EachAt At (t :: ts) (p :: ps) (m + ms)

def exprCell (p : Nat) (node : ExprNode) : Bag := {⟨p, .expr node⟩}

inductive ExprAt : ASTExpr → Pointer → Bag → Prop where
  | null : ExprAt .null none 0
  | number {p value} : ExprAt (.number value) (some p) (exprCell p (.number value))
  | identifier {p name} : ExprAt (.identifier name) (some p) (exprCell p (.identifier name))
  | string {p value} : ExprAt (.string value) (some p) (exprCell p (.string value))
  | boolean {p value} : ExprAt (.boolean value) (some p) (exprCell p (.boolean value))
  | binaryOp {p op left right l r m m'} (first : ExprAt left l m) (second : ExprAt right r m') :
      ExprAt (.binaryOp op left right) (some p) (exprCell p (.binaryOp op l r) + (m + m'))
  | unaryOp {p op operand e m} (inner : ExprAt operand e m) :
      ExprAt (.unaryOp op operand) (some p) (exprCell p (.unaryOp op e) + m)
  | call {p func args f array slots m arrayCells ms} (callee : ExprAt func f m) (room : ArrayAt array slots arrayCells)
      (each : EachAt ExprAt args slots ms) :
      ExprAt (.call func args) (some p) (exprCell p (.call f array args.length) + (m + (arrayCells + ms)))
  | arrayIndex {p array index a i m m'} (first : ExprAt array a m) (second : ExprAt index i m') :
      ExprAt (.arrayIndex array index) (some p) (exprCell p (.arrayIndex a i) + (m + m'))
  | bitSlice {p expr start stop e m} (inner : ExprAt expr e m) :
      ExprAt (.bitSlice expr start stop) (some p) (exprCell p (.bitSlice e start stop) + m)
  | memberAccess {p object field o m} (inner : ExprAt object o m) :
      ExprAt (.memberAccess object field) (some p) (exprCell p (.memberAccess o field) + m)

inductive TypeAt : Option TypeKind → Pointer → Bag → Prop where
  | null : TypeAt none none 0
  | some {p kind} : TypeAt (some kind) (some p) {⟨p, .type kind⟩}

def stmtCell (p : Nat) (node : StmtNode) : Bag := {⟨p, .stmt node⟩}

inductive StmtAt : ASTStmt → Pointer → Bag → Prop where
  | null : StmtAt .null none 0
  | varDecl {p name type init isMut t i m m'} (typed : TypeAt type t m) (value : ExprAt init i m') :
      StmtAt (.varDecl name type init isMut) (some p) (stmtCell p (.varDecl name t i isMut) + (m + m'))
  | expr {p e q m} (value : ExprAt e q m) : StmtAt (.expr e) (some p) (stmtCell p (.expr q) + m)
  | ret {p e q m} (value : ExprAt e q m) : StmtAt (.ret e) (some p) (stmtCell p (.ret q) + m)
  | ifStmt {p} : StmtAt .ifStmt (some p) (stmtCell p .ifStmt)
  | whileStmt {p} : StmtAt .whileStmt (some p) (stmtCell p .whileStmt)
  | block {p statements array slots arrayCells ms} (room : ArrayAt array slots arrayCells)
      (each : EachAt StmtAt statements slots ms) :
      StmtAt (.block statements) (some p) (stmtCell p (.block array statements.length) + (arrayCells + ms))

inductive ParametersAt : List (CString × Option TypeKind) → Pointer → Pointer → Bag → Prop where
  | null : ParametersAt [] none none 0
  | some {first others names types slots arrayCells ms} (room : ArrayAt types slots arrayCells)
      (each : EachAt TypeAt ((first :: others).map Prod.snd) slots ms) :
      ParametersAt (first :: others) (some names) types
        ({⟨names, .names ((first :: others).map Prod.fst)⟩} + (arrayCells + ms))

inductive FunctionAt : ASTFunctionDef → Pointer → Bag → Prop where
  | function {p func t names types b m params m'} (typed : TypeAt func.returnType t m)
      (parameters : ParametersAt func.params names types params) (body : StmtAt func.body b m') :
      FunctionAt func (some p)
        ({⟨p, .function ⟨func.name, t, names, types, func.params.length, b⟩⟩} + ((m + params) + m'))

inductive FieldAt : ASTField → Pointer → Bag → Prop where
  | field {p field} : FieldAt field (some p) {⟨p, .field field⟩}

inductive RegisterAt : ASTRegister → Pointer → Bag → Prop where
  | register {p reg t array slots m arrayCells ms} (typed : TypeAt reg.type t m) (room : ArrayAt array slots arrayCells)
      (each : EachAt FieldAt reg.fields slots ms) :
      RegisterAt reg (some p) ({⟨p, .register ⟨reg.name, t, reg.offset, array, reg.fields.length⟩⟩} +
        (m + (arrayCells + ms)))

inductive PeripheralAt : ASTPeripheral → Pointer → Bag → Prop where
  | peripheral {p periph array slots arrayCells ms} (room : ArrayAt array slots arrayCells)
      (each : EachAt RegisterAt periph.registers slots ms) :
      PeripheralAt periph (some p) ({⟨p, .peripheral ⟨periph.name, periph.baseAddress, array,
        periph.registers.length⟩⟩} + (arrayCells + ms))

inductive ProgramAt : ASTProgram → Pointer → Bag → Prop where
  | program {p prog funcs slots funcCells fs periphs slots' periphCells ps} (funcRoom : ArrayAt funcs slots funcCells)
      (functions : EachAt FunctionAt prog.functions slots fs) (periphRoom : ArrayAt periphs slots' periphCells)
      (peripherals : EachAt PeripheralAt prog.peripherals slots' ps) :
      ProgramAt prog (some p) ({⟨p, .program ⟨funcs, prog.functions.length, periphs, prog.peripherals.length⟩⟩} +
        ((funcCells + fs) + (periphCells + ps)))

/-! Items and their blocks -/

section each
variable {τ ρ : Type} {At : τ → ρ → Bag → Prop} {items : List τ} {slots : List ρ} {m : Bag}

theorem EachAt.length (each : EachAt At items slots m) : slots.length = items.length := by
  induction each with
  | nil => rfl
  | cons first others ih => rw [List.length_cons, List.length_cons, ih]

theorem EachAt.snoc (each : EachAt At items slots m) {t : τ} {p : ρ} {m' : Bag} (last : At t p m') :
    EachAt At (items ++ [t]) (slots ++ [p]) (m + m') := by
  induction each with
  | nil =>
    have only : EachAt At [t] [p] (m' + 0) := .cons last .nil
    rwa [add_zero, ← zero_add m'] at only
  | cons first others ih =>
    rw [add_assoc]
    exact .cons first ih

theorem EachAt.get (each : EachAt At items slots m) {i : Nat} {t : τ} (here : items[i]? = some t) :
    ∃ p own rest, slots[i]? = some p ∧ At t p own ∧ m = own + rest := by
  induction each generalizing i with
  | nil => cases here
  | @cons t' p m ts ps ms first others ih =>
    cases i with
    | zero =>
      cases here
      exact ⟨p, m, ms, rfl, first, rfl⟩
    | succ i =>
      obtain ⟨p', own, rest, there, at_, rfl⟩ := ih here
      exact ⟨p', own, m + rest, there, at_, add_left_comm _ _ _⟩

end each

/-! Arrays -/

section arrays
variable {τ : Type} {At : τ → Pointer → Bag → Prop} {array : Pointer} {slots : List Pointer} {m : Bag}

theorem loadedAs {α : Type} {view : Block → Option α} {p : Nat} {block : Block} {a : α} (seen : view block = some a) :
    Runs {⟨p, block⟩} (loadAs view p) fun found left => found = a ∧ left = {⟨p, block⟩} := by
  refine runsBind (runsLoad (add_zero _).symm) ?_
  rintro _ _ ⟨rfl, rfl⟩
  rw [seen]
  exact runsPure ⟨rfl, rfl⟩

theorem slotRead (room : ArrayAt array slots m) {i : Nat} {q : Pointer} (here : slots[i]? = some q) :
    Runs m (getSlot array i) fun found left => found = q ∧ left = m := by
  cases room with
  | null => cases here
  | some room =>
    refine runsBind (loadedAs rfl) ?_
    rintro _ _ ⟨rfl, rfl⟩
    simp only [here]
    exact runsPure ⟨rfl, rfl⟩

theorem slotWritten {p capacity : Nat} (room : slots.length < capacity) (q : Pointer) :
    Runs {⟨p, .pointers capacity slots⟩} (setSlot (some p) slots.length q) fun _ left =>
      left = {⟨p, .pointers capacity (slots ++ [q])⟩} := by
  refine runsBind (loadedAs rfl) ?_
  rintro _ _ ⟨rfl, rfl⟩
  simp only [room, and_self, if_true]
  refine runsWeaken (runsStore _ (add_zero _).symm) ?_
  rintro _ _ rfl
  exact add_zero _

theorem reallocated (allocator : Allocator Block) (room : ArrayAt array slots m) {capacity : Nat}
    (fits : slots.length ≤ capacity) : Runs m (realloc allocator array capacity) fun moved left =>
      ∃ p, moved = some p ∧ left = {⟨p, .pointers capacity slots⟩} := by
  cases room with
  | null =>
    refine runsMap (runsWeaken (runsAlloc allocator _) ?_)
    rintro p _ rfl
    exact ⟨p, rfl, add_zero _⟩
  | some room =>
    refine runsBind (loadedAs rfl) ?_
    rintro _ _ ⟨rfl, rfl⟩
    refine runsBind (runsFree (add_zero _).symm) ?_
    rintro _ _ rfl
    refine runsMap (runsWeaken (runsAlloc allocator _) ?_)
    rintro p _ rfl
    exact ⟨p, rfl, by rw [List.take_of_length_le fits, add_zero]⟩

theorem slotAdded (allocator : Allocator Block) (room : ArrayAt array slots m) (q : Pointer) :
    Runs m (addSlot allocator array slots.length q) fun moved left => ArrayAt moved (slots ++ [q]) left := by
  refine runsBind (reallocated allocator room (Nat.le_succ slots.length)) ?_
  rintro _ _ ⟨p, rfl, rfl⟩
  refine runsBind (slotWritten (Nat.lt_succ_self _) q) ?_
  rintro _ _ rfl
  exact runsPure (.some (by rw [List.length_append, List.length_singleton]))

theorem arrayFreed (room : ArrayAt array slots m) : Runs m (freePointer array) fun _ left => left = 0 := by
  cases room with
  | null => exact runsPure rfl
  | some room => exact runsFree (add_zero _).symm

/-- Where each item leaves some blocks, the loop leaves them together. -/
theorem slotsFreed {each : Pointer → Client Unit} {Kept : τ → Pointer → Bag → Prop} {items : List τ}
    (ran : ∀ t ∈ items, ∀ p m, At t p m → Runs m (each p) fun _ left => Kept t p left)
    (before : List Pointer) {arrayCells : Bag} (room : ArrayAt array (before ++ slots) arrayCells)
    (held : EachAt At items slots m) : Runs (arrayCells + m) (forSlots each array before.length items.length)
      fun _ left => ∃ rest, left = arrayCells + rest ∧ EachAt Kept items slots rest := by
  induction held generalizing before with
  | nil => exact runsPure ⟨0, rfl, .nil⟩
  | @cons t p m ts ps ms first others ih =>
    have here : (before ++ p :: ps)[before.length]? = some p := by simp
    refine runsCall rfl (slotRead room here) ?_
    rintro p arrayCells ⟨rfl, rfl⟩
    refine runsCall (by rw [add_left_comm]) (ran t List.mem_cons_self _ _ first) fun _ left kept => ?_
    have next := ih (fun t' member => ran t' (List.mem_cons_of_mem _ member)) (before ++ [p])
      (by rwa [List.append_assoc])
    rw [List.length_append, List.length_singleton] at next
    rw [add_comm]
    refine runsWeaken (runsFrame next left) ?_
    rintro _ _ ⟨_, rfl, rest, rfl, others'⟩
    refine ⟨left + rest, ?_, .cons kept others'⟩
    rw [add_assoc, add_comm rest]

theorem EachAt.bounded {items : List τ} (held : EachAt At items slots m) {n : Nat} (small : m.card ≤ n) :
    EachAt (fun t p m => At t p m ∧ m.card ≤ n) items slots m := by
  induction held with
  | nil => exact .nil
  | cons first others ih =>
    rw [Multiset.card_add] at small
    exact .cons ⟨first, by omega⟩ (ih (by omega))

theorem itemsFreed {each : Pointer → Client Unit} {Kept : τ → Pointer → Bag → Prop} {items : List τ} {n : Nat}
    (ran : ∀ t ∈ items, ∀ p m, At t p m → m.card ≤ n → Runs m (each p) fun _ left => Kept t p left)
    {arrayCells : Bag} (room : ArrayAt array slots arrayCells) (held : EachAt At items slots m) (small : m.card ≤ n) :
    Runs (arrayCells + m) (freeItems each array items.length) fun _ left => EachAt Kept items slots left := by
  refine runsBind (slotsFreed (fun t member p m at_ => ran t member p m at_.1 at_.2) [] room
    (held.bounded small)) ?_
  rintro _ _ ⟨rest, rfl, kept⟩
  refine runsWeaken (runsFrame (arrayFreed room) rest) ?_
  rintro _ _ ⟨_, rfl, rfl⟩
  rwa [zero_add]

theorem EachAt.nothing {items : List τ} (held : EachAt (fun _ _ left => left = 0) items slots m) : m = 0 := by
  induction held with
  | nil => rfl
  | cons first others ih => rw [first, ih, add_zero]

theorem itemsFreedWhole {each : Pointer → Client Unit} {items : List τ} {n : Nat}
    (ran : ∀ t ∈ items, ∀ p m, At t p m → m.card ≤ n → Runs m (each p) fun _ left => left = 0)
    {arrayCells : Bag} (room : ArrayAt array slots arrayCells) (held : EachAt At items slots m) (small : m.card ≤ n) :
    Runs (arrayCells + m) (freeItems each array items.length) fun _ left => left = 0 :=
  runsWeaken (itemsFreed ran room held small) fun _ _ kept => kept.nothing

end arrays

theorem fuelLeft {cell : Cell Block} {rest : Bag} {n : Nat} (enough : ({cell} + rest).card ≤ n) :
    ∃ k, n = k + 1 ∧ rest.card ≤ k := by
  rw [Multiset.card_add, Multiset.card_singleton] at enough
  exact ⟨n - 1, by omega, by omega⟩

/-! Release -/

theorem exprRelease {p n : Nat} {node : ExprNode} {rest : Bag}
    (children : Runs rest (freeChildren (astFreeExpr n) node) fun _ left => left = 0) :
    Runs (exprCell p node + rest) (astFreeExpr (n + 1) (some p)) fun _ left => left = 0 := by
  refine runsCall rfl (loadedAs rfl) ?_
  rintro _ _ ⟨rfl, rfl⟩
  refine runsCall (add_comm _ _) children ?_
  rintro _ _ rfl
  rw [zero_add]
  exact runsFree (add_zero _).symm

theorem leafFreed {p n : Nat} {node : ExprNode} (leaf : ∀ freeExpr, freeChildren freeExpr node = pure ())
    (enough : (exprCell p node).card ≤ n) : Runs (exprCell p node) (astFreeExpr n (some p)) fun _ left => left = 0 := by
  obtain ⟨n, rfl⟩ := Nat.exists_eq_add_of_le' enough
  have nothing : Runs 0 (freeChildren (astFreeExpr n) node) fun _ left => left = 0 := by
    rw [leaf]
    exact runsPure rfl
  rw [← add_zero (exprCell p node)]
  exact exprRelease nothing

theorem exprFreed {e : ASTExpr} {p : Pointer} {m : Bag} {n : Nat} (held : ExprAt e p m) (enough : m.card ≤ n) :
    Runs m (astFreeExpr n p) fun _ left => left = 0 := by
  induction e generalizing p m n with
  | null =>
    cases held
    rw [astFreeExpr]
    exact runsPure rfl
  | number value => cases held; exact leafFreed (fun _ => rfl) enough
  | identifier name => cases held; exact leafFreed (fun _ => rfl) enough
  | string value => cases held; exact leafFreed (fun _ => rfl) enough
  | boolean value => cases held; exact leafFreed (fun _ => rfl) enough
  | binaryOp op left right first second =>
    cases held with
    | binaryOp l r =>
      obtain ⟨n, rfl, small⟩ := fuelLeft enough
      rw [Multiset.card_add] at small
      refine exprRelease (runsCall rfl (first l (by omega)) ?_)
      rintro _ _ rfl
      rw [zero_add]
      exact second r (by omega)
  | unaryOp op operand inner =>
    cases held with
    | unaryOp e =>
      obtain ⟨n, rfl, small⟩ := fuelLeft enough
      exact exprRelease (inner e small)
  | call func args callee each =>
    cases held with
    | call f room slots =>
      obtain ⟨n, rfl, small⟩ := fuelLeft enough
      rw [Multiset.card_add, Multiset.card_add] at small
      refine exprRelease (runsCall rfl (callee f (by omega)) ?_)
      rintro _ _ rfl
      rw [zero_add]
      exact itemsFreedWhole (fun a member p m at_ few => each a member at_ few) room slots (by omega)
  | arrayIndex array index first second =>
    cases held with
    | arrayIndex a i =>
      obtain ⟨n, rfl, small⟩ := fuelLeft enough
      rw [Multiset.card_add] at small
      refine exprRelease (runsCall rfl (first a (by omega)) ?_)
      rintro _ _ rfl
      rw [zero_add]
      exact second i (by omega)
  | bitSlice expr start stop inner =>
    cases held with
    | bitSlice e =>
      obtain ⟨n, rfl, small⟩ := fuelLeft enough
      exact exprRelease (inner e small)
  | memberAccess object field inner =>
    cases held with
    | memberAccess o =>
      obtain ⟨n, rfl, small⟩ := fuelLeft enough
      exact exprRelease (inner o small)

theorem typeFreed {type : Option TypeKind} {p : Pointer} {m : Bag} (held : TypeAt type p m) :
    Runs m (freePointer p) fun _ left => left = 0 := by
  cases held with
  | null => exact runsPure rfl
  | some => exact runsFree (add_zero _).symm

theorem stmtRelease {p n : Nat} {node : StmtNode} {rest : Bag}
    (parts : Runs rest (freeParts (astFreeExpr n) (astFreeStmt n) node) fun _ left => left = 0) :
    Runs (stmtCell p node + rest) (astFreeStmt (n + 1) (some p)) fun _ left => left = 0 := by
  refine runsCall rfl (loadedAs rfl) ?_
  rintro _ _ ⟨rfl, rfl⟩
  refine runsCall (add_comm _ _) parts ?_
  rintro _ _ rfl
  rw [zero_add]
  exact runsFree (add_zero _).symm

theorem bareFreed {p n : Nat} {node : StmtNode} (bare : ∀ freeExpr freeStmt, freeParts freeExpr freeStmt node = pure ())
    (enough : (stmtCell p node).card ≤ n) : Runs (stmtCell p node) (astFreeStmt n (some p)) fun _ left => left = 0 := by
  obtain ⟨n, rfl⟩ := Nat.exists_eq_add_of_le' enough
  have nothing : Runs 0 (freeParts (astFreeExpr n) (astFreeStmt n) node) fun _ left => left = 0 := by
    rw [bare]
    exact runsPure rfl
  rw [← add_zero (stmtCell p node)]
  exact stmtRelease nothing

theorem stmtFreed {s : ASTStmt} {p : Pointer} {m : Bag} {n : Nat} (held : StmtAt s p m) (enough : m.card ≤ n) :
    Runs m (astFreeStmt n p) fun _ left => left = 0 := by
  induction s generalizing p m n with
  | null =>
    cases held
    rw [astFreeStmt]
    exact runsPure rfl
  | varDecl name type init isMut =>
    cases held with
    | varDecl typed value =>
      obtain ⟨n, rfl, small⟩ := fuelLeft enough
      rw [Multiset.card_add] at small
      refine stmtRelease (runsCall (add_comm _ _) (exprFreed value (by omega)) ?_)
      rintro _ _ rfl
      rw [zero_add]
      exact typeFreed typed
  | expr e =>
    cases held with
    | expr value =>
      obtain ⟨n, rfl, small⟩ := fuelLeft enough
      exact stmtRelease (exprFreed value small)
  | ret e =>
    cases held with
    | ret value =>
      obtain ⟨n, rfl, small⟩ := fuelLeft enough
      exact stmtRelease (exprFreed value small)
  | ifStmt => cases held; exact bareFreed (fun _ _ => rfl) enough
  | whileStmt => cases held; exact bareFreed (fun _ _ => rfl) enough
  | block statements each =>
    cases held with
    | block room slots =>
      obtain ⟨n, rfl, small⟩ := fuelLeft enough
      rw [Multiset.card_add] at small
      exact stmtRelease (itemsFreedWhole (fun s member p m at_ few => each s member at_ few) room slots (by omega))

theorem fieldFreed {field : ASTField} {p : Pointer} {m : Bag} (held : FieldAt field p m) :
    Runs m (astFieldFree p) fun _ left => left = 0 := by
  cases held
  exact runsFree (add_zero _).symm

theorem registerFreed {reg : ASTRegister} {p : Pointer} {m : Bag} (held : RegisterAt reg p m) :
    Runs m (astRegisterFree p) fun _ left => left = 0 := by
  cases held with
  | register typed room each =>
    refine runsCall rfl (loadedAs rfl) ?_
    rintro _ _ ⟨rfl, rfl⟩
    refine runsCall (by rw [← add_assoc, add_comm])
      (itemsFreedWhole (fun _ _ _ _ field _ => fieldFreed field) room each le_rfl) ?_
    rintro _ _ rfl
    rw [zero_add]
    refine runsCall (add_comm _ _) (typeFreed typed) ?_
    rintro _ _ rfl
    rw [zero_add]
    exact runsFree (add_zero _).symm

theorem peripheralFreed {periph : ASTPeripheral} {p : Pointer} {m : Bag} (held : PeripheralAt periph p m) :
    Runs m (astPeripheralFree p) fun _ left => left = 0 := by
  cases held with
  | peripheral room each =>
    refine runsCall rfl (loadedAs rfl) ?_
    rintro _ _ ⟨rfl, rfl⟩
    refine runsCall (add_comm _ _) (itemsFreedWhole (fun _ _ _ _ reg _ => registerFreed reg) room each le_rfl) ?_
    rintro _ _ rfl
    rw [zero_add]
    exact runsFree (add_zero _).symm

/-- The return type of a function is not released, nor its parameters. -/
def SignatureAt (func : ASTFunctionDef) (_ : Pointer) (left : Bag) : Prop := ∃ t names types m params,
  TypeAt func.returnType t m ∧ ParametersAt func.params names types params ∧ left = m + params

theorem functionFreed {func : ASTFunctionDef} {p : Pointer} {m : Bag} {n : Nat} (held : FunctionAt func p m)
    (enough : m.card ≤ n) : Runs m (freeFunction n p) fun _ left => SignatureAt func p left := by
  cases held with
  | @function _ _ t names types b m params m' typed parameters body =>
    rw [Multiset.card_add, Multiset.card_add] at enough
    refine runsCall rfl (loadedAs rfl) ?_
    rintro _ _ ⟨rfl, rfl⟩
    refine runsCall (by rw [← add_assoc, add_comm]) (stmtFreed body (by omega)) ?_
    rintro _ _ rfl
    rw [zero_add]
    refine runsWeaken (runsFree rfl) ?_
    rintro _ _ rfl
    exact ⟨t, names, types, m, params, typed, parameters, rfl⟩

theorem programFreed {prog : ASTProgram} {p : Pointer} {m : Bag} (held : ProgramAt prog p m) :
    Runs m (astFreeProgram p) fun _ left => ∃ slots, EachAt SignatureAt prog.functions slots left := by
  refine runsWalk fun n enough => ?_
  cases held with
  | @program p _ funcs slots funcCells fs periphs slots' periphCells ps funcRoom functions periphRoom peripherals =>
    rw [Multiset.card_add, Multiset.card_add, Multiset.card_add] at enough
    refine runsCall rfl (loadedAs rfl) ?_
    rintro _ _ ⟨rfl, rfl⟩
    refine runsCall (by rw [add_left_comm])
      (itemsFreed (fun _ _ _ _ func few => functionFreed func few) funcRoom functions (n := n) (by omega))
        fun _ left kept => ?_
    refine runsCall (by rw [← add_assoc, add_comm])
      (itemsFreedWhole (fun _ _ _ _ periph _ => peripheralFreed periph) periphRoom peripherals le_rfl) ?_
    rintro _ _ rfl
    rw [zero_add]
    refine runsWeaken (runsFree (add_comm _ _)) ?_
    rintro _ _ rfl
    exact ⟨slots, kept⟩

end BitN.AstMemory
