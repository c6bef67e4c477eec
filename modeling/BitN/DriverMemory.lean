import BitN.Driver
import BitN.ParserMemory

/-! The code generator and the driver as they work in memory: names are copied to be sanitized, the tree is
read where it lies, and what was allocated on the way is released at the end. -/
namespace BitN.DriverMemory
open Heap AstMemory CheckerMemory ParserMemory

def loadNode {α : Type} (view : Block → Option α) : Pointer → Client α
  | none => fault
  | some p => loadAs view p

def Block.field? : Block → Option ASTField
  | .field field => some field
  | _ => none

def foldSlots {γ : Type} (each : γ → Pointer → Client γ) (array : Pointer) (i : Nat) : Nat → γ → Client γ
  | 0, acc => pure acc
  | n + 1, acc => do
    let acc ← each acc (← getSlot array i)
    foldSlots each array (i + 1) n acc

-- An array that may not be there.
def foldItems {γ : Type} (each : γ → Pointer → Client γ) (array : Pointer) (count : Nat) (acc : γ) : Client γ :=
  match array with
  | none => pure acc
  | some p => foldSlots each (some p) 0 count acc

/-! The code generator -/

section generate
variable (allocator : Allocator Block)

def sanitizeIdentifier (name : CString) : Client Pointer :=
  some <$> alloc allocator (.text (BitN.sanitizeIdentifier name))

-- The copy is not released.
def codegenMember (ctx : CodegenContext) (reg : Pointer) : Client CodegenContext := do
  let reg ← loadNode Block.register? reg
  let safeName ← sanitizeIdentifier allocator reg.name
  let name ← loadText safeName
  pure (codegenWrite ctx (.member name reg.offset))

def codegenPeripheral (ctx : CodegenContext) : Pointer → Client (Int × CodegenContext)
  | none => pure (-1, ctx)
  | some p => do
    let periph ← loadPeripheral p
    let safeName ← sanitizeIdentifier allocator periph.name
    let ctx := codegenWrite ctx (.peripheralComment periph.name)
    let ctx := codegenWrite ctx (.baseAddress periph.baseAddress)
    let ctx := codegenWrite ctx .structOpen
    let ctx := { ctx with indentLevel := ctx.indentLevel + 1 }
    let ctx ← foldItems (codegenMember allocator) periph.registers periph.registerCount ctx
    let ctx := { ctx with indentLevel := ctx.indentLevel - 1 }
    let name ← loadText safeName
    let ctx := codegenWrite ctx (.structClose name)
    let ctx := codegenWrite ctx (.pointerMacro name periph.baseAddress)
    freePointer safeName
    pure (0, ctx)

-- The copy is not released.
def codegenFieldMember (ctx : CodegenContext) (field : Pointer) : Client CodegenContext := do
  let field ← loadNode Block.field? field
  let safeName ← sanitizeIdentifier allocator field.name
  let name ← loadText safeName
  pure (codegenWrite ctx (.fieldMember name))

def codegenRegister (ctx : CodegenContext) : Pointer → Client (Int × CodegenContext)
  | none => pure (-1, ctx)
  | some p => do
    let reg ← loadRegister p
    let safeRegName ← sanitizeIdentifier allocator reg.name
    let ctx := codegenWrite ctx (.registerComment reg.name reg.offset)
    let ctx := codegenWrite ctx (.fieldCount reg.fieldCount)
    let ctx := codegenWrite ctx .structOpen
    let ctx := { ctx with indentLevel := ctx.indentLevel + 1 }
    let ctx ← foldItems (codegenFieldMember allocator) reg.fields reg.fieldCount ctx
    let ctx := { ctx with indentLevel := ctx.indentLevel - 1 }
    let name ← loadText safeRegName
    let ctx := codegenWrite ctx (.bitfieldClose name)
    freePointer safeRegName
    pure (0, ctx)

def codegenFieldAccessor (ctx : CodegenContext) (field : Pointer) : Client CodegenContext := do
  let field ← loadNode Block.field? field
  let safeField ← sanitizeIdentifier allocator field.name
  let name ← loadText safeField
  freePointer safeField
  pure (codegenWrite ctx (.fieldAccessor name))

def codegenFieldAccessors (ctx : CodegenContext) : Pointer → Client (Int × CodegenContext)
  | none => pure (-1, ctx)
  | some p => do
    let reg ← loadRegister p
    match reg.fields with
    | none => pure (-1, ctx)
    | some fields => do
      let safeReg ← sanitizeIdentifier allocator reg.name
      let ctx ← foldSlots (codegenFieldAccessor allocator) (some fields) 0 reg.fieldCount ctx
      freePointer safeReg
      pure (0, ctx)

def codegenParts (ctx : CodegenContext) (reg : Pointer) : Client CodegenContext := do
  let (_, ctx) ← codegenRegister allocator ctx reg
  let (_, ctx) ← codegenFieldAccessors allocator ctx reg
  pure ctx

def codegenDevice (ctx : CodegenContext) (periph : Pointer) : Client CodegenContext := do
  let (_, ctx) ← codegenPeripheral allocator ctx periph
  let periph ← loadNode Block.peripheral? periph
  let ctx ← foldItems (codegenParts allocator) periph.registers periph.registerCount ctx
  pure (codegenWrite ctx .newline)

def codegenGenerate (ctx : CodegenContext) : Pointer → Client (Int × CodegenContext)
  | none => pure (-1, ctx)
  | some p => do
    let program ← loadProgram p
    let ctx := codegenFileHeader ctx "bitn source".toList
    let ctx := (codegenHelpers ctx).2
    let ctx ← foldItems (codegenDevice allocator) program.peripherals program.peripheralCount ctx
    pure (0, codegenFileFooter ctx)

def codegenInit (files : Files) (outputFile target : CString) : Client Pointer := do
  let ctx ← alloc allocator (.codegen none)
  if files.writable outputFile then
    let targetArch ← alloc allocator (.text target)
    store ctx (.codegen (some targetArch))
    pure (some ctx)
  else
    free ctx
    pure none

end generate

def Block.codegen? : Block → Option Pointer
  | .codegen targetArch => some targetArch
  | _ => none

def codegenCleanup : Pointer → Client Unit
  | none => pure ()
  | some p => do
    freePointer (← loadAs Block.codegen? p)
    free p

/-! The driver -/

def normalizeTarget (user : CString) : CString :=
  if user = "rp2040".toList then "rp2040".toList
  else if user = "rp2040-arm".toList then "rp2040".toList
  else if user = "pico".toList then "rp2040".toList
  else if user = "cortex-m0".toList then "arm-cortex-m0".toList
  else if user = "arm-cortex-m0".toList then "arm-cortex-m0".toList
  else user

-- What the listings read; what they print is left out.
def listFunction (_ : Unit) (func : Pointer) : Client Unit := do
  let _ ← loadNode Block.function? func

def listField (_ : Unit) (field : Pointer) : Client Unit := do
  let _ ← loadNode Block.field? field

def listRegister (_ : Unit) (reg : Pointer) : Client Unit := do
  let reg ← loadNode Block.register? reg
  let _ ← loadNode Block.type? reg.type
  foldSlots listField reg.fields 0 reg.fieldCount ()

def listPeripheral (_ : Unit) (periph : Pointer) : Client Unit := do
  let periph ← loadNode Block.peripheral? periph
  foldSlots listRegister periph.registers 0 periph.registerCount ()

def listProgram (program : Pointer) : Client Unit := do
  let program ← loadNode Block.program? program
  foldSlots listFunction program.functions 0 program.functionCount ()
  foldSlots listPeripheral program.peripherals 0 program.peripheralCount ()

-- `output_buf[256]`: `strncpy` leaves 255 characters, and `strcpy` and `strcat` go on to write.
def outputBufSize : Nat := 256

def strcpy (outputBuf : CString) (i : Nat) (text : CString) : Client CString :=
  if i + text.length + 1 ≤ outputBufSize then pure (outputBuf.take i ++ text) else fault

def strrchr (outputBuf : CString) (c : Char) : Option Nat :=
  if c ∈ outputBuf then some (outputBuf.reverse.dropWhile (· ≠ c)).tail.length else none

def outputFile (options : Options) : Client CString :=
  match options.inputFile with
  | none => pure "generated.h".toList
  | some inputFile =>
    let outputBuf := inputFile.take (outputBufSize - 1)
    match strrchr outputBuf '.' with
    | some dot => strcpy outputBuf dot ".h".toList
    | none => strcpy outputBuf outputBuf.length ".h".toList

section driver
variable (allocator : Allocator Block) (files : Files)

def generateCode (options : Options) (program : Pointer) : Client Outcome := do
  let outputFile ← outputFile options
  match ← codegenInit allocator files outputFile (normalizeTarget options.target) with
  | none => pure ⟨1, [.parsed, .generating outputFile, .initFailed], none⟩
  | some p => do
    let (result, ctx) ← codegenGenerate allocator BitN.codegenInit program
    codegenCleanup (some p)
    if result = 0 then
      pure ⟨0, [.parsed, .generating outputFile, .generated, .successful], some (outputFile, ctx.output)⟩
    else pure ⟨1, [.parsed, .generating outputFile, .generationFailed], some (outputFile, ctx.output)⟩

-- The text of a file lies in a buffer of its own.
def loadBuffer (options : Options) (source : Source) : Client Pointer :=
  match options.inputFile with
  | none => pure none
  | some _ => some <$> alloc allocator (.text source.text)

-- What goes through the text, or through names that point into it, first reads it.
def readSource (buffer : Pointer) (source : Source) : Client Source :=
  match buffer with
  | none => pure source
  | some p => Source.ofBuffer <$> loadAs Block.text? p

def compileProgram (options : Options) (buffer : Pointer) (source : Source) (program : Pointer) : Client Outcome := do
  let _ ← readSource buffer source
  listProgram program
  let node ← loadNode Block.program? program
  if options.doCodegen then
    if node.peripheralCount > 0 then do
      let _ ← readSource buffer source
      generateCode allocator files options program
    else pure ⟨0, [.parsed, .noPeripherals, .successful], none⟩
  else pure ⟨0, [.parsed, .successful], none⟩

def driverMain (fuel : Nat) (argv : List CString) : Client (Option Outcome) :=
  match parseArguments defaultOptions argv with
  | .error message => pure (some ⟨1, [message], none⟩)
  | .ok options =>
    match loadSource files options with
    | .error message => pure (some ⟨1, [message], none⟩)
    | .ok source => do
      let buffer ← loadBuffer allocator options source
      let lexer ← ParserMemory.lexerCreate allocator
      let _ ← readSource buffer source
      lexerFree lexer
      let parser ← ParserMemory.parserCreate allocator
      let text ← readSource buffer source
      match ← ParserMemory.parserParseProgram allocator fuel (BitN.parserCreate text) with
      | (none, _) => pure none
      | (some program, window) => do
        let outcome ←
          if window.error then pure ⟨0, [.parsingFailed], none⟩
          else compileProgram allocator files options buffer source program
        parserFree parser
        astFreeProgram program
        freePointer buffer
        pure (some outcome)

end driver

end BitN.DriverMemory
