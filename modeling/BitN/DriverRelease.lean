import BitN.CheckerOwnership
import BitN.DriverExit
import BitN.DriverMemory
import BitN.ParserOwnership
import BitN.ProgramText

/-! What a run of the driver leaves in memory. -/
namespace BitN.DriverMemory
open Heap AstMemory CheckerMemory ParserMemory

/-- The cells that are held stay, and blocks are left beside them. -/
def Leaves (held : Bag) (lost : Multiset Block) (left : Bag) : Prop :=
  ∃ cells, left = held + cells ∧ cells.map Sigma.snd = lost

theorem leavesNone (held : Bag) : Leaves held 0 held := ⟨0, (add_zero held).symm, rfl⟩

section reads
variable {τ γ : Type} {At : τ → Pointer → Bag → Prop} {array : Pointer} {slots : List Pointer} {m : Bag}

theorem nodeRead {α : Type} {view : Block → Option α} {p : Nat} {block : Block} {a : α} {owned rest : Bag}
    (split : owned = {⟨p, block⟩} + rest) (seen : view block = some a) :
    Runs owned (loadNode view (some p)) fun found left => found = a ∧ left = owned :=
  runsKept split (loadedAs seen)

/-- Where each item is read and leaves some blocks, the loop does the steps and leaves them together. -/
theorem slotsFolded (each : γ → Pointer → Client γ) (step : γ → τ → γ) (losses : τ → Multiset Block) {items : List τ}
    (ran : ∀ t ∈ items, ∀ acc p m, At t p m →
      Runs m (each acc p) fun acc' left => acc' = step acc t ∧ Leaves m (losses t) left)
    (before : List Pointer) {arrayCells : Bag} (room : ArrayAt array (before ++ slots) arrayCells)
    (held : EachAt At items slots m) (acc : γ) :
    Runs (arrayCells + m) (foldSlots each array before.length items.length acc) fun out left =>
      out = items.foldl step acc ∧ Leaves (arrayCells + m) (items.map losses).sum left := by
  induction held generalizing before acc with
  | nil => exact runsPure ⟨rfl, leavesNone _⟩
  | @cons t p m ts ps ms first others ih =>
    have here : (before ++ p :: ps)[before.length]? = some p := by simp
    refine runsBind (runsKept rfl (slotRead room here)) ?_
    rintro p _ ⟨rfl, rfl⟩
    refine runsCall (add_left_comm _ _ _) (ran t List.mem_cons_self acc _ _ first) ?_
    rintro _ _ ⟨rfl, cells, rfl, lost⟩
    have next := ih (fun t' member => ran t' (List.mem_cons_of_mem _ member)) (before ++ [p])
      (by rwa [List.append_assoc]) (step acc t)
    rw [List.length_append, List.length_singleton] at next
    refine runsWeaken (runsFrame next (m + cells)) ?_ |> fun ran => by rwa [add_comm (arrayCells + ms)] at ran
    rintro _ _ ⟨_, rfl, rfl, cells', rfl, lost'⟩
    refine ⟨rfl, cells + cells', by ac_rfl, ?_⟩
    rw [Multiset.map_add, lost, lost', List.map_cons, List.sum_cons]

theorem itemsFolded (each : γ → Pointer → Client γ) (step : γ → τ → γ) (losses : τ → Multiset Block) {items : List τ}
    (ran : ∀ t ∈ items, ∀ acc p m, At t p m →
      Runs m (each acc p) fun acc' left => acc' = step acc t ∧ Leaves m (losses t) left)
    {arrayCells : Bag} (room : ArrayAt array slots arrayCells) (held : EachAt At items slots m) (acc : γ) :
    Runs (arrayCells + m) (foldItems each array items.length acc) fun out left =>
      out = items.foldl step acc ∧ Leaves (arrayCells + m) (items.map losses).sum left := by
  cases room with
  | null =>
    cases held
    exact runsPure ⟨rfl, leavesNone _⟩
  | some room => exact slotsFolded each step losses ran [] (.some room) held acc

end reads

/-! The code generator -/

section generate
variable (allocator : Allocator Block)

/-- The copy of a name. -/
def nameCopy (name : CString) : Multiset Block := {.text (BitN.sanitizeIdentifier name)}

def fieldCopies (reg : ASTRegister) : Multiset Block := (reg.fields.map fun field => nameCopy field.name).sum

def deviceCopies (periph : ASTPeripheral) : Multiset Block :=
  (periph.registers.map fun reg => nameCopy reg.name).sum + (periph.registers.map fieldCopies).sum

def programCopies (program : ASTProgram) : Multiset Block := (program.peripherals.map deviceCopies).sum

theorem nameCopied (name : CString) (owned : Bag) : Runs owned (sanitizeIdentifier allocator name) fun p left =>
    ∃ q, p = some q ∧ left = {⟨q, .text (BitN.sanitizeIdentifier name)⟩} + owned := by
  refine runsMap (runsWeaken (runsAlloc allocator _) ?_)
  rintro p _ rfl
  exact ⟨p, rfl, rfl⟩

theorem memberWritten (ctx : CodegenContext) {reg : ASTRegister} {p : Pointer} {m : Bag} (held : RegisterAt reg p m) :
    Runs m (codegenMember allocator ctx p) fun out left =>
      out = codegenWrite ctx (.member (BitN.sanitizeIdentifier reg.name) reg.offset) ∧
        Leaves m (nameCopy reg.name) left := by
  cases held with
  | register typed room each =>
    refine runsBind (nodeRead rfl rfl) ?_
    rintro _ _ ⟨rfl, rfl⟩
    refine runsBind (nameCopied allocator reg.name _) ?_
    rintro _ _ ⟨q, rfl, rfl⟩
    refine runsBind (textRead rfl) ?_
    rintro _ _ ⟨rfl, rfl⟩
    exact runsPure ⟨rfl, _, add_comm _ _, rfl⟩

theorem fieldMemberWritten (ctx : CodegenContext) {field : ASTField} {p : Pointer} {m : Bag}
    (held : FieldAt field p m) : Runs m (codegenFieldMember allocator ctx p) fun out left =>
      out = codegenWrite ctx (.fieldMember (BitN.sanitizeIdentifier field.name)) ∧
        Leaves m (nameCopy field.name) left := by
  cases held with
  | field =>
    refine runsBind (nodeRead (add_zero _).symm rfl) ?_
    rintro _ _ ⟨rfl, rfl⟩
    refine runsBind (nameCopied allocator _ _) ?_
    rintro _ _ ⟨q, rfl, rfl⟩
    refine runsBind (textRead rfl) ?_
    rintro _ _ ⟨rfl, rfl⟩
    exact runsPure ⟨rfl, _, add_comm _ _, rfl⟩

theorem fieldAccessorWritten (ctx : CodegenContext) {field : ASTField} {p : Pointer} {m : Bag}
    (held : FieldAt field p m) : Runs m (codegenFieldAccessor allocator ctx p) fun out left =>
      out = codegenWrite ctx (.fieldAccessor (BitN.sanitizeIdentifier field.name)) ∧ Leaves m 0 left := by
  cases held with
  | field =>
    refine runsBind (nodeRead (add_zero _).symm rfl) ?_
    rintro _ _ ⟨rfl, rfl⟩
    refine runsBind (nameCopied allocator _ _) ?_
    rintro _ _ ⟨q, rfl, rfl⟩
    refine runsBind (textRead rfl) ?_
    rintro _ _ ⟨rfl, rfl⟩
    refine runsBind (runsFree (p := q) rfl) ?_
    rintro _ _ rfl
    exact runsPure ⟨rfl, leavesNone _⟩

theorem peripheralWritten (ctx : CodegenContext) {periph : ASTPeripheral} {p : Pointer} {m : Bag}
    (held : PeripheralAt periph p m) : Runs m (codegenPeripheral allocator ctx p) fun out left =>
      out = BitN.codegenPeripheral ctx periph ∧
        Leaves m (periph.registers.map fun reg => nameCopy reg.name).sum left := by
  cases held with
  | @peripheral p periph array slots arrayCells ms room each =>
    refine runsBind (runsKept rfl (loadedAs rfl)) ?_
    rintro _ _ ⟨rfl, rfl⟩
    refine runsBind (nameCopied allocator periph.name _) ?_
    rintro _ _ ⟨q, rfl, rfl⟩
    generalize ({⟨p, .peripheral ⟨periph.name, periph.baseAddress, array, periph.registers.length⟩⟩} : Bag) = cell
    have opened (copy : Bag) : copy + (cell + (arrayCells + ms)) = arrayCells + ms + (copy + cell) := by ac_rfl
    refine runsCall (opened _) (itemsFolded (codegenMember allocator) _ (fun reg => nameCopy reg.name)
      (fun _ _ ctx _ _ reg => memberWritten allocator ctx reg) room each _) ?_
    rintro _ _ ⟨rfl, cells, rfl, lost⟩
    have closed (copy : Bag) : arrayCells + ms + cells + (copy + cell) = copy + (cell + (arrayCells + ms) + cells) := by
      ac_rfl
    rw [closed]
    refine runsBind (textRead rfl) ?_
    rintro _ _ ⟨rfl, rfl⟩
    refine runsBind (runsFree (p := q) rfl) ?_
    rintro _ _ rfl
    exact runsPure ⟨rfl, cells, rfl, lost⟩

theorem registerWritten (ctx : CodegenContext) {reg : ASTRegister} {p : Pointer} {m : Bag}
    (held : RegisterAt reg p m) : Runs m (codegenRegister allocator ctx p) fun out left =>
      out = BitN.codegenRegister ctx reg ∧ Leaves m (fieldCopies reg) left := by
  cases held with
  | @register p reg t array slots typeCells arrayCells ms typed room each =>
    refine runsBind (runsKept rfl (loadedAs rfl)) ?_
    rintro _ _ ⟨rfl, rfl⟩
    refine runsBind (nameCopied allocator reg.name _) ?_
    rintro _ _ ⟨q, rfl, rfl⟩
    generalize ({⟨p, .register ⟨reg.name, t, reg.offset, array, reg.fields.length⟩⟩} : Bag) = cell
    have opened (copy : Bag) : copy + (cell + (typeCells + (arrayCells + ms))) =
        arrayCells + ms + (copy + (cell + typeCells)) := by ac_rfl
    refine runsCall (opened _) (itemsFolded (codegenFieldMember allocator) _ (fun field => nameCopy field.name)
      (fun _ _ ctx _ _ field => fieldMemberWritten allocator ctx field) room each _) ?_
    rintro _ _ ⟨rfl, cells, rfl, lost⟩
    have closed (copy : Bag) : arrayCells + ms + cells + (copy + (cell + typeCells)) =
        copy + (cell + (typeCells + (arrayCells + ms)) + cells) := by
      ac_rfl
    rw [closed]
    refine runsBind (textRead rfl) ?_
    rintro _ _ ⟨rfl, rfl⟩
    refine runsBind (runsFree (p := q) rfl) ?_
    rintro _ _ rfl
    exact runsPure ⟨rfl, cells, rfl, lost⟩

-- An array that is there but empty is no different for the text.
theorem accessorsWritten (ctx : CodegenContext) {reg : ASTRegister} {p : Pointer} {m : Bag}
    (held : RegisterAt reg p m) : Runs m (codegenFieldAccessors allocator ctx p) fun out left =>
      out.2 = (BitN.codegenFieldAccessors ctx reg).2 ∧ Leaves m 0 left := by
  have text : (BitN.codegenFieldAccessors ctx reg).2 = reg.fields.foldl
      (fun ctx field => codegenWrite ctx (.fieldAccessor (BitN.sanitizeIdentifier field.name))) ctx := by
    unfold BitN.codegenFieldAccessors
    split
    · rename_i empty
      rw [List.isEmpty_iff.mp empty]
      rfl
    · rfl
  rw [text]
  cases held with
  | @register p reg t array slots typeCells arrayCells ms typed room each =>
    refine runsBind (runsKept rfl (loadedAs rfl)) ?_
    rintro _ _ ⟨rfl, rfl⟩
    cases room with
    | null =>
      have none : reg.fields = [] := List.length_eq_zero_iff.mp each.length.symm
      rw [none]
      exact runsPure ⟨rfl, leavesNone _⟩
    | @some array capacity _ room =>
      refine runsBind (nameCopied allocator reg.name _) ?_
      rintro _ _ ⟨q, rfl, rfl⟩
      generalize ({⟨p, .register ⟨reg.name, t, reg.offset, Option.some array, reg.fields.length⟩⟩} : Bag) = cell
      generalize items : ({⟨array, .pointers capacity slots⟩} : Bag) = arrayCells
      have room' : ArrayAt (Option.some array) slots arrayCells := items ▸ .some room
      have opened (copy : Bag) : copy + (cell + (typeCells + (arrayCells + ms))) =
          arrayCells + ms + (copy + (cell + typeCells)) := by ac_rfl
      have accessor : ∀ field ∈ reg.fields, ∀ ctx p m, FieldAt field p m →
          Runs m (codegenFieldAccessor allocator ctx p) fun out left =>
            out = codegenWrite ctx (.fieldAccessor (BitN.sanitizeIdentifier field.name)) ∧ Leaves m 0 left :=
        fun _ _ ctx _ _ held => fieldAccessorWritten allocator ctx held
      refine runsCall (opened _) (slotsFolded _ _ (fun _ => 0) accessor [] room' each ctx) ?_
      rintro _ _ ⟨rfl, cells, rfl, lost⟩
      have closed (copy : Bag) : arrayCells + ms + cells + (copy + (cell + typeCells)) =
          copy + (cell + (typeCells + (arrayCells + ms)) + cells) := by
        ac_rfl
      rw [closed]
      refine runsBind (runsFree (p := q) rfl) ?_
      rintro _ _ rfl
      refine runsPure ⟨rfl, cells, rfl, lost.trans ?_⟩
      simp

theorem partsWritten (ctx : CodegenContext) {reg : ASTRegister} {p : Pointer} {m : Bag}
    (held : RegisterAt reg p m) : Runs m (codegenParts allocator ctx p) fun out left =>
      out = (BitN.codegenFieldAccessors (BitN.codegenRegister ctx reg).2 reg).2 ∧ Leaves m (fieldCopies reg) left := by
  refine runsBind (registerWritten allocator ctx held) ?_
  rintro _ _ ⟨rfl, cells, rfl, lost⟩
  refine runsCall rfl (accessorsWritten allocator _ held) ?_
  rintro ⟨result, out⟩ _ ⟨rfl, cells', rfl, lost'⟩
  refine runsPure ⟨rfl, cells' + cells, add_assoc _ _ _, ?_⟩
  rw [Multiset.map_add, lost, lost', zero_add]

theorem deviceWritten (ctx : CodegenContext) {periph : ASTPeripheral} {p : Pointer} {m : Bag}
    (held : PeripheralAt periph p m) : Runs m (codegenDevice allocator ctx p) fun out left =>
      out = BitN.codegenDevice ctx periph ∧ Leaves m (deviceCopies periph) left := by
  refine runsBind (peripheralWritten allocator ctx held) ?_
  rintro _ _ ⟨rfl, copies, rfl, lost⟩
  cases held with
  | @peripheral p periph array slots arrayCells ms room each =>
    refine runsBind (nodeRead (add_assoc _ _ _) rfl) ?_
    rintro _ _ ⟨rfl, rfl⟩
    dsimp only
    generalize ({⟨p, .peripheral ⟨periph.name, periph.baseAddress, array, periph.registers.length⟩⟩} : Bag) = cell
    have opened : cell + (arrayCells + ms) + copies = arrayCells + ms + (cell + copies) := by ac_rfl
    refine runsCall opened (itemsFolded (codegenParts allocator) _ fieldCopies
      (fun _ _ ctx _ _ reg => partsWritten allocator ctx reg) room each _) ?_
    rintro _ _ ⟨rfl, cells, rfl, lost'⟩
    refine runsPure ⟨rfl, copies + cells, by ac_rfl, ?_⟩
    rw [Multiset.map_add, lost, lost']
    rfl

theorem programWritten (ctx : CodegenContext) {program : ASTProgram} {p : Pointer} {m : Bag}
    (held : ProgramAt program p m) : Runs m (codegenGenerate allocator ctx p) fun out left =>
      out = BitN.codegenGenerate ctx program ∧ Leaves m (programCopies program) left := by
  cases held with
  | @program p program funcs slots funcCells fs periphs slots' periphCells ps funcRoom functions periphRoom
      peripherals =>
    refine runsBind (runsKept rfl (loadedAs rfl)) ?_
    rintro _ _ ⟨rfl, rfl⟩
    dsimp only
    generalize ({⟨p, .program ⟨funcs, program.functions.length, periphs, program.peripherals.length⟩⟩} : Bag) = cell
    have opened : cell + (funcCells + fs + (periphCells + ps)) = periphCells + ps + (cell + (funcCells + fs)) := by
      ac_rfl
    refine runsCall opened (itemsFolded (codegenDevice allocator) _ deviceCopies
      (fun _ _ ctx _ _ periph => deviceWritten allocator ctx periph) periphRoom peripherals _) ?_
    rintro _ _ ⟨rfl, cells, rfl, lost⟩
    exact runsPure ⟨rfl, cells, by ac_rfl, lost⟩

end generate

/-! The listing -/

section list

theorem listed {τ : Type} {At : τ → Pointer → Bag → Prop} {each : Unit → Pointer → Client Unit} {items : List τ}
    {array : Pointer} {slots : List Pointer} {arrayCells m : Bag}
    (ran : ∀ t ∈ items, ∀ p m, At t p m → Runs m (each () p) fun _ left => left = m)
    (room : ArrayAt array slots arrayCells) (held : EachAt At items slots m) :
    Runs (arrayCells + m) (foldSlots each array 0 items.length ()) fun _ left => left = arrayCells + m := by
  have folded := slotsFolded each (fun _ _ => ()) (fun _ => 0) (fun t member _ p m at_ =>
    runsWeaken (ran t member p m at_) fun _ left same => ⟨rfl, same ▸ leavesNone m⟩) [] room held ()
  refine runsWeaken folded ?_
  rintro _ _ ⟨-, cells, rfl, nothing⟩
  rw [List.map_const', List.sum_replicate, nsmul_zero] at nothing
  rw [Multiset.map_eq_zero.mp nothing, add_zero]

theorem functionListed {func : ASTFunctionDef} {p : Pointer} {m : Bag} (held : FunctionAt func p m) :
    Runs m (listFunction () p) fun _ left => left = m := by
  cases held with
  | function typed parameters body =>
    refine runsBind (nodeRead rfl rfl) ?_
    rintro _ _ ⟨rfl, rfl⟩
    exact runsPure rfl

theorem fieldListed {field : ASTField} {p : Pointer} {m : Bag} (held : FieldAt field p m) :
    Runs m (listField () p) fun _ left => left = m := by
  cases held with
  | field =>
    refine runsBind (nodeRead (add_zero _).symm rfl) ?_
    rintro _ _ ⟨rfl, rfl⟩
    exact runsPure rfl

theorem registerListed {reg : ASTRegister} (typed : reg.type.isSome) {p : Pointer} {m : Bag}
    (held : RegisterAt reg p m) : Runs m (listRegister () p) fun _ left => left = m := by
  cases held with
  | @register p reg t array slots typeCells arrayCells ms typeAt room each =>
    refine runsBind (nodeRead rfl rfl) ?_
    rintro _ _ ⟨rfl, rfl⟩
    dsimp only
    generalize ({⟨p, .register ⟨reg.name, t, reg.offset, array, reg.fields.length⟩⟩} : Bag) = cell
    cases reg with
    | mk name type offset fields =>
      cases typeAt with
      | null => cases typed
      | some =>
        refine runsBind (nodeRead (add_left_comm _ _ _) rfl) ?_
        rintro _ _ ⟨rfl, rfl⟩
        have opened (type : Bag) : cell + (type + (arrayCells + ms)) = arrayCells + ms + (cell + type) := by ac_rfl
        rw [opened]
        refine runsWeaken (runsFrame (listed (fun _ _ _ _ field => fieldListed field) room each) _) ?_
        rintro _ _ ⟨_, rfl, rfl⟩
        rfl

theorem peripheralListed {periph : ASTPeripheral} (typed : ∀ reg ∈ periph.registers, reg.type.isSome) {p : Pointer}
    {m : Bag} (held : PeripheralAt periph p m) : Runs m (listPeripheral () p) fun _ left => left = m := by
  cases held with
  | @peripheral p periph array slots arrayCells ms room each =>
    refine runsBind (nodeRead rfl rfl) ?_
    rintro _ _ ⟨rfl, rfl⟩
    rw [add_comm]
    refine runsWeaken (runsFrame (listed (fun reg member _ _ held => registerListed (typed reg member) held) room each)
      _) ?_
    rintro _ _ ⟨_, rfl, rfl⟩
    rfl

theorem programListed {program : ASTProgram} (typed : ∀ periph ∈ program.peripherals, ∀ reg ∈ periph.registers,
    reg.type.isSome) {p : Pointer} {m : Bag} (held : ProgramAt program p m) :
    Runs m (listProgram p) fun _ left => left = m := by
  cases held with
  | @program p program funcs slots funcCells fs periphs slots' periphCells ps funcRoom functions periphRoom
      peripherals =>
    refine runsBind (nodeRead rfl rfl) ?_
    rintro _ _ ⟨rfl, rfl⟩
    dsimp only
    generalize ({⟨p, .program ⟨funcs, program.functions.length, periphs, program.peripherals.length⟩⟩} : Bag) = cell
    refine runsCall (add_left_comm _ _ _) (listed (fun _ _ _ _ func => functionListed func) funcRoom functions) ?_
    rintro _ _ rfl
    have opened : funcCells + fs + (cell + (periphCells + ps)) = periphCells + ps + (cell + (funcCells + fs)) := by
      ac_rfl
    rw [opened]
    refine runsWeaken (runsFrame (listed (fun periph member _ _ held => peripheralListed (typed periph member) held)
      periphRoom peripherals) _) ?_
    rintro _ _ ⟨_, rfl, rfl⟩
    ac_rfl

end list

/-! The driver -/

section driver
variable (allocator : Allocator Block) (files : Files)

/-- The copies that a run with these options leaves. -/
def copiesLeft (options : Options) (program : ASTProgram) : Multiset Block :=
  if options.doCodegen ∧ files.writable (BitN.outputFile options) then programCopies program else 0

theorem contextOpened (outputFile target : CString) :
    Runs 0 (codegenInit allocator files outputFile target) fun p left =>
      if files.writable outputFile then ∃ ctx arch, p = some ctx ∧
        left = {⟨ctx, .codegen (some arch)⟩} + {⟨arch, .text target⟩}
      else p = none ∧ left = 0 := by
  refine runsBind (runsAlloc allocator _) ?_
  rintro ctx _ rfl
  by_cases writable : files.writable outputFile = true
  · simp only [writable, if_true]
    refine runsBind (runsAlloc allocator _) ?_
    rintro arch _ rfl
    refine runsBind (runsStore _ (add_left_comm _ _ _)) ?_
    rintro _ _ rfl
    exact runsPure ⟨ctx, arch, rfl, by rw [add_zero]⟩
  · simp only [writable]
    refine runsBind (runsFree rfl) ?_
    rintro _ _ rfl
    exact runsPure ⟨rfl, rfl⟩

theorem contextClosed (ctx arch : Nat) (target : CString) :
    Runs ({⟨ctx, .codegen (some arch)⟩} + {⟨arch, .text target⟩}) (codegenCleanup (some ctx))
      fun _ left => left = 0 := by
  refine runsBind (runsKept rfl (loadedAs rfl)) ?_
  rintro _ _ ⟨rfl, rfl⟩
  refine runsBind (runsFree (p := arch) (add_comm _ _)) ?_
  rintro _ _ rfl
  exact runsFree (add_zero _).symm

/-- The path of the header is longer than `output_buf`. -/
def TooLong (options : Options) : Prop := outputBufSize < (BitN.outputFile options).length + 1

/-- The last dot is where the path without its extension ends. -/
theorem dotFound {outputBuf : CString} (dotted : '.' ∈ outputBuf) : ∃ dot ≤ outputBuf.length,
    strrchr outputBuf '.' = some dot ∧
      outputBuf.take dot = (outputBuf.reverse.dropWhile (· ≠ '.')).tail.reverse := by
  obtain ⟨stem, extension, rfl, free⟩ := Texts.lastExists dotted
  have before : ((stem ++ '.' :: extension).reverse.dropWhile (· ≠ '.')).tail.reverse = stem := by
    have found := Texts.beforeFound free stem
    unfold Texts.beforeLast List.rdropWhile at found
    rwa [List.dropLast_reverse] at found
  have index : strrchr (stem ++ '.' :: extension) '.' = some stem.length := by
    unfold strrchr
    rw [if_pos dotted, ← List.length_reverse, before]
  refine ⟨stem.length, ?_, index, ?_⟩
  · rw [List.length_append]
    exact Nat.le_add_right _ _
  · rw [before, List.take_left]

theorem suffixCopied (outputBuf : CString) {i : Nat} (inside : i ≤ outputBuf.length) (owned : Bag) :
    RunsUnless (outputBufSize < (outputBuf.take i ++ ".h".toList).length + 1) owned (strcpy outputBuf i ".h".toList)
      fun name left => name = outputBuf.take i ++ ".h".toList ∧ left = owned := by
  have length : (outputBuf.take i ++ ".h".toList).length = i + ".h".toList.length := by
    rw [List.length_append, List.length_take, Nat.min_eq_left inside]
  rw [length]
  unfold strcpy
  by_cases fits : i + ".h".toList.length + 1 ≤ outputBufSize
  · rw [if_pos fits]
    exact unlessNever (Nat.not_lt.mpr fits) (runsPure ⟨rfl, rfl⟩)
  · rw [if_neg fits]
    exact ⟨fun _ _ _ _ => rfl, fun never => absurd (Nat.not_le.mp fits) never⟩

theorem bufferNamed (options : Options) (owned : Bag) : RunsUnless (TooLong options) owned (outputFile options)
    fun name left => name = BitN.outputFile options ∧ left = owned := by
  unfold TooLong outputFile BitN.outputFile
  cases options.inputFile with
  | none => exact unlessNever (by decide) (runsPure ⟨rfl, rfl⟩)
  | some path =>
    have size : outputBufSize - 1 = 255 := rfl
    simp only [size]
    by_cases dotted : '.' ∈ path.take 255
    · obtain ⟨dot, inside, index, front⟩ := dotFound dotted
      rw [index, if_pos dotted, ← front]
      exact suffixCopied _ inside owned
    · have none : strrchr (path.take 255) '.' = none := if_neg dotted
      have whole := suffixCopied (path.take 255) (Nat.le_refl _) owned
      rw [none, if_neg dotted]
      rwa [List.take_length] at whole

theorem codeGenerated (options : Options) {program : ASTProgram} {p : Pointer} {m : Bag} (held : ProgramAt program p m) :
    RunsUnless (TooLong options) m (generateCode allocator files options p) fun out left =>
      out = BitN.generateCode files options program ∧
        Leaves m (if files.writable (BitN.outputFile options) then programCopies program else 0) left := by
  rw [DriverExit.codeGenerated]
  refine unlessCall (zero_add m).symm (bufferNamed options 0) ?_
  rintro _ _ ⟨rfl, rfl⟩
  rw [zero_add]
  have opened := contextOpened allocator files (BitN.outputFile options) (normalizeTarget options.target)
  refine runsNew opened fun q cells found => ?_
  by_cases writable : files.writable (BitN.outputFile options) = true
  · simp only [writable, if_true] at found ⊢
    obtain ⟨ctx, arch, rfl, rfl⟩ := found
    refine runsCall (add_comm _ _) (programWritten allocator BitN.codegenInit held) ?_
    rintro _ _ ⟨rfl, copies, rfl, lost⟩
    refine runsCall (add_comm _ _) (contextClosed ctx arch _) ?_
    rintro _ _ rfl
    exact runsPure ⟨rfl, copies, zero_add _, lost⟩
  · simp only [writable] at found ⊢
    obtain ⟨rfl, rfl⟩ := found
    exact runsPure ⟨rfl, 0, by rw [zero_add, add_zero], rfl⟩

/-! The source text -/

/-- Where the text lies: nowhere on the heap, or in a block of its own. -/
inductive SourceAt (source : Source) : Pointer → Bag → Prop where
  | argument : SourceAt source none 0
  | buffer {p} : SourceAt source (some p) {⟨p, .text source.text⟩}

theorem bufferLoaded (options : Options) (source : Source) :
    Runs 0 (loadBuffer allocator options source) fun p left => SourceAt source p left := by
  unfold loadBuffer
  cases options.inputFile with
  | none => exact runsPure .argument
  | some path =>
    refine runsMap (runsWeaken (runsAlloc allocator _) ?_)
    rintro p _ rfl
    exact .buffer

theorem sourceRead {source : Source} {p : Pointer} {text owned rest : Bag} (held : SourceAt source p text)
    (split : owned = text + rest) : Runs owned (readSource p source) fun found left => found = source ∧ left = owned := by
  cases held with
  | argument => exact runsPure ⟨rfl, rfl⟩
  | buffer =>
    refine runsMap (runsWeaken (runsKept split (loadedAs rfl)) ?_)
    rintro _ _ ⟨rfl, rfl⟩
    exact ⟨DriverExit.sourceBuffered source, rfl⟩

theorem sourceFreed {source : Source} {p : Pointer} {text : Bag} (held : SourceAt source p text) :
    Runs text (freePointer p) fun _ left => left = 0 := by
  cases held with
  | argument => exact runsPure rfl
  | buffer => exact runsFree (add_zero _).symm

theorem programCompiled (options : Options) {program : ASTProgram} (typed : ∀ periph ∈ program.peripherals,
    ∀ reg ∈ periph.registers, reg.type.isSome) {p buffer : Pointer} {m text : Bag} {source : Source}
    (held : ProgramAt program p m) (lies : SourceAt source buffer text) :
    RunsUnless (options.doCodegen = true ∧ program.peripherals ≠ [] ∧ TooLong options) (m + text)
      (compileProgram allocator files options buffer source p) fun out left =>
        out = BitN.compileProgram files options program ∧ Leaves (m + text) (copiesLeft files options program) left := by
  refine unlessBind (sourceRead lies (add_comm _ _)) ?_
  rintro _ _ ⟨-, rfl⟩
  have listed : Runs (m + text) (listProgram p) fun _ left => left = m + text := by
    refine runsWeaken (runsFrame (programListed typed held) text) ?_
    rintro _ _ ⟨_, rfl, rfl⟩
    rfl
  refine unlessBind listed ?_
  rintro _ _ rfl
  have read : Runs (m + text) (loadNode Block.program? p) fun node left =>
      node.peripheralCount = program.peripherals.length ∧ left = m + text := by
    cases held with
    | program funcRoom functions periphRoom peripherals =>
      refine runsWeaken (nodeRead (add_assoc _ _ _) rfl) ?_
      rintro _ _ ⟨rfl, rfl⟩
      exact ⟨rfl, rfl⟩
  refine unlessBind read ?_
  rintro node _ ⟨count, rfl⟩
  unfold BitN.compileProgram copiesLeft
  rw [count]
  by_cases generate : options.doCodegen = true
  · simp only [generate, if_true, true_and]
    by_cases some_ : program.peripherals.length > 0
    · simp only [some_, if_true]
      have others : program.peripherals ≠ [] := List.length_pos_iff.mp some_
      refine unlessBind (sourceRead lies (add_comm _ _)) ?_
      rintro _ _ ⟨-, rfl⟩
      refine unlessSame (by simp [others]) (unlessFrame (codeGenerated allocator files options held) text ?_)
      rintro _ _ ⟨rfl, copies, rfl, lost⟩
      exact ⟨rfl, copies, by ac_rfl, lost⟩
    · have none : program.peripherals = [] := List.length_eq_zero_iff.mp (by omega)
      have nothing : programCopies program = 0 := by
        rw [programCopies, none]
        rfl
      simp only [some_, if_false, nothing, ite_self]
      exact unlessNever (by simp [none]) (runsPure ⟨rfl, leavesNone _⟩)
  · rw [if_neg generate, if_neg generate, if_neg fun both => generate both.1]
    exact unlessNever (fun bad => generate bad.1) (runsPure ⟨rfl, leavesNone _⟩)

/-! The parser's own blocks -/

theorem lexerAllocated (owned : Bag) : Runs owned (ParserMemory.lexerCreate allocator) fun p left =>
    ∃ q, p = some q ∧ left = {⟨q, .lexer⟩} + owned := by
  refine runsMap (runsWeaken (runsAlloc allocator _) ?_)
  rintro q _ rfl
  exact ⟨q, rfl, rfl⟩

theorem parserAllocated : Runs 0 (ParserMemory.parserCreate allocator) fun p left =>
    Runs left (parserFree p) fun _ last => last = 0 := by
  refine runsBind (runsAlloc allocator _) ?_
  rintro parser _ rfl
  refine runsBind (lexerAllocated allocator _) ?_
  rintro _ _ ⟨lexer, rfl, rfl⟩
  refine runsBind (runsStore _ (add_left_comm _ _ _)) ?_
  rintro _ _ rfl
  refine runsPure ?_
  refine runsBind (runsKept rfl (loadedAs rfl)) ?_
  rintro _ _ ⟨rfl, rfl⟩
  refine runsBind (runsFree (p := lexer) (add_left_comm _ _ _)) ?_
  rintro _ _ rfl
  exact runsFree rfl

/-! What is reported tells what is lost -/

instance : ParserRun.Stepped fun p last =>
    (p.error = false → lostTypes p = 0) → last.error = false → lostTypes last = 0 where
  refl _ holds := holds
  trans _ _ _ first second holds := second (first holds)
  advance _ holds := holds
  fail _ _ _ clear := nomatch clear
  note e p noted holds clear := by
    rw [← holds clear]
    cases noted <;> exact List.countP_cons_of_neg (by simp [Event.losesType])

theorem clearLoses {fuel : Nat} {source : Source} {program : ASTProgram} {window : Parser}
    (parsed : parseSource fuel source = (some program, window)) (clear : window.error = false) :
    lostTypes window = 0 := by
  have moves := ParserRun.movesProgram (R := fun p last =>
    (p.error = false → lostTypes p = 0) → last.error = false → lostTypes last = 0) fuel (BitN.parserCreate source)
  rw [show BitN.parserParseProgram fuel (BitN.parserCreate source) = _ from parsed] at moves
  exact moves (fun _ => rfl) clear

theorem clearTyped {fuel : Nat} {source : Source} {program : ASTProgram} {window : Parser}
    (parsed : parseSource fuel source = (some program, window)) (clear : window.error = false) :
    ∀ periph ∈ program.peripherals, ∀ reg ∈ periph.registers, reg.type.isSome := by
  intro periph member reg member'
  have writable := ProgramText.acceptedWritable ⟨fuel, parsed⟩ clear
  have width := writable.widths _ (List.mem_map_of_mem member) _ (List.mem_map_of_mem member')
  obtain ⟨kind, -, typed⟩ := List.mem_map.mp width
  exact typed ▸ rfl

/-- The blocks that a run leaves. -/
inductive Leftover (fuel : Nat) (argv : List CString) : Multiset Block → Prop where
  | arguments {message} (refused : parseArguments defaultOptions argv = .error message) : Leftover fuel argv 0
  | source {options message} (accepted : parseArguments defaultOptions argv = .ok options)
      (refused : loadSource files options = .error message) : Leftover fuel argv 0
  | failed {options source program window declared} (accepted : parseArguments defaultOptions argv = .ok options)
      (loaded : loadSource files options = .ok source) (parsed : parseSource fuel source = (some program, window))
      (error : window.error = true) (count : declared.card = lostTypes window)
      (types : ∀ block ∈ declared, ∃ kind, block = .type kind) :
      Leftover fuel argv ((program.functions.map returnTypes).sum + declared)
  | parsed {options source program window} (accepted : parseArguments defaultOptions argv = .ok options)
      (loaded : loadSource files options = .ok source) (parsed : parseSource fuel source = (some program, window))
      (clear : window.error = false) :
      Leftover fuel argv ((program.functions.map returnTypes).sum + copiesLeft files options program)

theorem signaturesKept {functions : List ASTFunctionDef} (none : ∀ func ∈ functions, func.params = [])
    {slots : List Pointer} {left : Bag} (kept : EachAt SignatureAt functions slots left) :
    left.map Sigma.snd = (functions.map returnTypes).sum := by
  have bare : ∀ func ∈ functions, parameterless func = func := by
    intro func member
    rw [parameterless, ← none func member]
  have same : functions.map parameterless = functions := (List.map_congr_left bare).trans (List.map_id functions)
  rw [← same] at kept
  exact signaturesLeft kept

/-- The end of every path through the driver. -/
theorem cleanedUp {program : ASTProgram} {p parser buffer : Pointer} {tree cells text rest : Bag}
    (held : ParsedProgramAt program p tree) (parserCells : Runs cells (parserFree parser) fun _ last => last = 0)
    (bufferCells : Runs text (freePointer buffer) fun _ last => last = 0) (outcome : Outcome) :
    Runs (tree + (cells + text) + rest) (do
        parserFree parser
        astFreeProgram p
        freePointer buffer
        pure (some outcome)) fun out left => out = some outcome ∧
      ∃ returned, left = returned + rest ∧ returned.map Sigma.snd = (program.functions.map returnTypes).sum := by
  have opened : tree + (cells + text) + rest = cells + (tree + (text + rest)) := by ac_rfl
  refine runsCall opened parserCells ?_
  rintro _ _ rfl
  rw [zero_add]
  refine runsCall rfl (programFreed held.1) ?_
  rintro _ returned ⟨slots, signatures⟩
  refine runsCall (add_left_comm _ _ _) bufferCells ?_
  rintro _ _ rfl
  exact runsPure ⟨rfl, returned, zero_add _, signaturesKept held.2 signatures⟩

/-- The run comes to write the path of the header, and behind the buffer for it. -/
def Overruns (fuel : Nat) (argv : List CString) : Prop := ∃ options source program window,
  parseArguments defaultOptions argv = .ok options ∧ loadSource files options = .ok source ∧
    parseSource fuel source = (some program, window) ∧ window.error = false ∧ options.doCodegen = true ∧
    program.peripherals ≠ [] ∧ TooLong options

section parsed
variable {fuel : Nat} {argv : List CString} {options : Options} {source : Source} {program : ASTProgram} {window : Parser}
  (arguments : parseArguments defaultOptions argv = .ok options) (loaded : loadSource files options = .ok source)
  (parsed : parseSource fuel source = (some program, window))
include arguments loaded parsed

theorem overrunsParsed : Overruns files fuel argv ↔
    window.error = false ∧ options.doCodegen = true ∧ program.peripherals ≠ [] ∧ TooLong options := by
  constructor
  · rintro ⟨other, source', program', window', accepted, found, parsed', rest⟩
    obtain rfl := Except.ok.inj (arguments.symm.trans accepted)
    obtain rfl := Except.ok.inj (loaded.symm.trans found)
    obtain ⟨same, rfl⟩ := Prod.mk.inj (parsed.symm.trans parsed')
    obtain rfl := Option.some.inj same
    exact rest
  · exact fun rest => ⟨options, source, program, window, arguments, loaded, parsed, rest⟩

variable {p parser buffer : Pointer} {tree lost cells text : Bag} (held : ParsedProgramAt program p tree)
  (losses : parserLosses.Lost (BitN.parserCreate source) window lost)
  (parserCells : Runs cells (parserFree parser) fun _ last => last = 0) (lies : SourceAt source buffer text)
include held losses parserCells lies

theorem failedRuns (error : window.error = true) : RunsUnless (Overruns files fuel argv) (tree + (cells + text) + lost)
    (do
      let outcome ← (pure ⟨0, [.parsingFailed], none⟩ : Client Outcome)
      parserFree parser
      astFreeProgram p
      freePointer buffer
      pure (some outcome)) fun outcome left =>
        outcome = some ⟨0, [.parsingFailed], none⟩ ∧ (outcome ≠ none → Leftover files fuel argv (left.map Sigma.snd)) := by
  have said : Runs (tree + (cells + text) + lost) (pure ⟨0, [.parsingFailed], none⟩ : Client Outcome)
      fun outcome left => outcome = ⟨0, [.parsingFailed], none⟩ ∧ left = tree + (cells + text) + lost :=
    runsPure ⟨rfl, rfl⟩
  refine unlessNever (fun bad => ?_) (runsBind said ?_)
  · have clear := ((overrunsParsed files arguments loaded parsed).mp bad).1
    rw [clear] at error
    cases error
  rintro _ _ ⟨rfl, rfl⟩
  refine runsWeaken (cleanedUp held parserCells (sourceFreed lies) _) ?_
  rintro _ _ ⟨rfl, returned, rfl, types⟩
  refine ⟨rfl, fun _ => ?_⟩
  rw [Multiset.map_add, types]
  refine .failed arguments loaded parsed error ?_ ?_
  · rw [Multiset.card_map, losses.1]
    exact (Nat.zero_add lost.card).symm
  · rintro _ member
    obtain ⟨cell, among, rfl⟩ := Multiset.mem_map.mp member
    exact losses.2 cell among

theorem acceptedRuns (clear : window.error = false) :
    RunsUnless (Overruns files fuel argv) (tree + (cells + text) + lost)
      (do
        let outcome ← compileProgram allocator files options buffer source p
        parserFree parser
        astFreeProgram p
        freePointer buffer
        pure (some outcome)) fun outcome left =>
          outcome = some (BitN.compileProgram files options program) ∧
            (outcome ≠ none → Leftover files fuel argv (left.map Sigma.snd)) := by
  have nothing : lost = 0 := by
    have none := clearLoses parsed clear
    rw [losses.1] at none
    exact Multiset.card_eq_zero.mp (Nat.eq_zero_of_add_eq_zero_left none)
  have opened : tree + (cells + text) = tree + text + cells := by ac_rfl
  have compiled := programCompiled allocator files options (clearTyped parsed clear) held.1 lies
  rw [nothing, add_zero]
  refine unlessSame ?_ (unlessCall opened compiled ?_)
  · rw [overrunsParsed files arguments loaded parsed, and_iff_right clear]
  rintro _ _ ⟨rfl, copies, rfl, left_⟩
  have closed : tree + text + copies + cells = tree + (cells + text) + copies := by ac_rfl
  rw [closed]
  refine runsWeaken (cleanedUp held parserCells (sourceFreed lies) _) ?_
  rintro _ _ ⟨rfl, returned, rfl, types⟩
  refine ⟨rfl, fun _ => ?_⟩
  rw [Multiset.map_add, types, left_]
  exact .parsed arguments loaded parsed clear

end parsed

theorem driverRuns (fuel : Nat) (argv : List CString) : RunsUnless (Overruns files fuel argv) 0
    (driverMain allocator files fuel argv) fun outcome left =>
      outcome = BitN.driverMain files fuel argv ∧ (outcome ≠ none → Leftover files fuel argv (left.map Sigma.snd)) := by
  unfold driverMain BitN.driverMain
  rcases arguments : parseArguments defaultOptions argv with message | options
  · refine unlessNever ?_ (runsPure ⟨rfl, fun _ => .arguments arguments⟩)
    rintro ⟨options, _, _, _, accepted, _⟩
    exact nomatch arguments.symm.trans accepted
  dsimp only
  rcases loaded : loadSource files options with message | source
  · refine unlessNever ?_ (runsPure ⟨rfl, fun _ => .source arguments loaded⟩)
    rintro ⟨other, source, _, _, accepted, found, _⟩
    obtain rfl := Except.ok.inj (arguments.symm.trans accepted)
    exact nomatch loaded.symm.trans found
  dsimp only
  refine unlessBind (bufferLoaded allocator options source) fun buffer text lies => ?_
  refine unlessBind (lexerAllocated allocator text) ?_
  rintro _ _ ⟨lexer, rfl, rfl⟩
  refine unlessBind (sourceRead lies (add_comm _ _)) ?_
  rintro _ _ ⟨-, rfl⟩
  refine unlessBind (runsFree (p := lexer) rfl) fun _ left same => ?_
  rw [same]
  refine unlessBind (runsFrame (parserAllocated allocator) text |> fun ran => by rwa [zero_add] at ran) ?_
  rintro parser _ ⟨cells, rfl, parserCells⟩
  refine unlessBind (sourceRead lies (add_comm _ _)) ?_
  rintro _ _ ⟨found, rfl⟩
  rw [found]
  have made := runsFrame (programMade allocator fuel (BitN.parserCreate source)) (cells + text)
  rw [zero_add] at made
  refine unlessBind made ?_
  rintro out _ ⟨left, rfl, ends⟩
  change Routine.Ends _ _ _ (parseSource fuel source) out left at ends
  rcases parsed : parseSource fuel source with ⟨_ | program, window⟩
  · rw [parsed] at ends
    cases ends
    refine unlessNever ?_ (runsPure ⟨rfl, fun some_ => absurd rfl some_⟩)
    rintro ⟨other, source', _, _, accepted, found, parsed', -⟩
    obtain rfl := Except.ok.inj (arguments.symm.trans accepted)
    obtain rfl := Except.ok.inj (loaded.symm.trans found)
    exact nomatch parsed.symm.trans parsed'
  rw [parsed] at ends
  cases ends with
  | @returned _ p _ tree lost held losses =>
    rw [add_right_comm]
    dsimp only
    by_cases error : window.error = true
    · rw [if_pos error, if_pos error]
      exact failedRuns files arguments loaded parsed held losses parserCells lies error
    · rw [if_neg error, if_neg error]
      exact acceptedRuns allocator files arguments loaded parsed held losses parserCells lies (Bool.eq_false_iff.mpr error)

example : Overruns ⟨fun _ => some HeaderNames.spacedSource.text, fun _ => true⟩ 3
    ["--compile".toList, List.replicate 254 'a'] :=
  ⟨{ defaultOptions with doCodegen := true, inputFile := some (List.replicate 254 'a') },
    .ofBuffer HeaderNames.spacedSource.text, HeaderNames.spacedProgram, _, rfl, rfl, Prod.ext rfl rfl, rfl, rfl, nofun,
    by unfold TooLong; decide +kernel⟩

end driver

end BitN.DriverMemory
