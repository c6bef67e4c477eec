import BitN.AST
import BitN.Numeral

/-! The header written for a program. A `Format` is one `codegen_write` call: the format
string with its arguments. `calls` is a record of these calls that the code does not keep. -/
namespace BitN

def sanitizeIdentifier (name : CString) : CString :=
  name.filterMap fun c => if isAlnum c || c = '_' then some c else if c = '.' then some '_' else none

-- %lx
def hex (n : UInt32) : CString := Nat.toDigits 16 n.toNat

-- %08lx
def hex8 (n : UInt32) : CString := (hex n).leftpad 8 '0'

inductive Format where
  | fileHeader (sourceFile : CString)
  | includes
  | mmioReg (useVolatile : Bool)
  | fileFooter
  | peripheralComment (name : CString)
  | baseAddress (base : UInt32)
  | structOpen
  | member (name : CString) (offset : UInt32)
  | structClose (name : CString)
  | pointerMacro (name : CString) (base : UInt32)
  | registerComment (name : CString) (offset : UInt32)
  | fieldCount (count : Nat)
  | fieldMember (name : CString)
  | bitfieldClose (name : CString)
  | fieldAccessor (name : CString)
  | helpers
  | newline
  deriving DecidableEq

/-- What `vsnprintf` makes of it, in a buffer that is large enough. -/
def Format.expansion : Format → CString
  | .fileHeader sourceFile => "/**\n * Auto-generated from: ".toList ++ sourceFile ++
      "\n * Generated by bit(N) compiler\n * DO NOT EDIT MANUALLY\n */\n\n".toList
  | .includes => ("#ifndef __BITN_GENERATED_H\n#define __BITN_GENERATED_H\n\n" ++
      "#include <stdint.h>\n#include <stdbool.h>\n\n").toList
  | .mmioReg true => "#define MMIO_REG volatile uint32_t\n\n".toList
  | .mmioReg false => "#define MMIO_REG uint32_t\n\n".toList
  | .fileFooter => "\n#endif // __BITN_GENERATED_H\n".toList
  | .peripheralComment name => "// Peripheral: ".toList ++ name ++ "\n".toList
  | .baseAddress base => "// Base Address: 0x".toList ++ hex8 base ++ "\n".toList
  | .structOpen => "typedef struct \x7b\n".toList
  | .member name offset => "MMIO_REG ".toList ++ name ++ "; // @ offset 0x".toList ++ hex offset ++ "\n".toList
  | .structClose name => "\x7d ".toList ++ name ++ "_t;\n\n".toList
  | .pointerMacro name base => "#define ".toList ++ name ++ " ((volatile ".toList ++ name ++ "_t *)0x".toList ++
      hex8 base ++ ")\n\n".toList
  | .registerComment name offset => "// Register: ".toList ++ name ++ " (Offset: 0x".toList ++ hex offset ++
      ")\n".toList
  | .fieldCount count => "// Fields: ".toList ++ decimal count ++ "\n".toList
  | .fieldMember name => "uint32_t ".toList ++ name ++ "; // Field placeholder\n".toList
  | .bitfieldClose name => "\x7d ".toList ++ name ++ "_bitfield_t;\n\n".toList
  | .fieldAccessor name => "// Field accessor for ".toList ++ name ++ "\n".toList
  | .helpers => ("// Utility Macros\n#define BIT_SET(reg, bit) ((reg) |= (1U << (bit)))\n" ++
      "#define BIT_CLR(reg, bit) ((reg) &= ~(1U << (bit)))\n#define BIT_TST(reg, bit) ((reg) & (1U << (bit)))\n" ++
      "#define BIT_TGL(reg, bit) ((reg) ^= (1U << (bit)))\n\n").toList
  | .newline => "\n".toList

structure CodegenContext where
  output : CString
  indentLevel : Int
  useVolatile : Bool
  calls : List Format

-- The context on an output file that could be opened.
def codegenInit : CodegenContext := ⟨[], 0, true, []⟩

def codegenIndent (ctx : CodegenContext) : CodegenContext :=
  { ctx with output := ctx.output ++ List.replicate (wrapInt (ctx.indentLevel * 4)).toNat ' ' }

def codegenPut (ctx : CodegenContext) : Bool → CString → CodegenContext
  | _, [] => ctx
  | atLineStart, c :: cs =>
    let ctx := if atLineStart && c ≠ '\n' then codegenIndent ctx else ctx
    codegenPut { ctx with output := ctx.output ++ [c] } (c = '\n') cs

/-- `codegen_write` with what the format and its arguments expand to. -/
def codegenPrint (ctx : CodegenContext) (expansion : CString) : CodegenContext :=
  let buffer := expansion.take 4095
  codegenPut ctx true buffer

def codegenWrite (ctx : CodegenContext) (fmt : Format) : CodegenContext :=
  let ctx := codegenPrint ctx fmt.expansion
  { ctx with calls := ctx.calls ++ [fmt] }

def codegenFileHeader (ctx : CodegenContext) (sourceFile : CString) : CodegenContext :=
  let ctx := codegenWrite ctx (.fileHeader sourceFile)
  let ctx := codegenWrite ctx .includes
  if ctx.useVolatile then codegenWrite ctx (.mmioReg true) else codegenWrite ctx (.mmioReg false)

def codegenFileFooter (ctx : CodegenContext) : CodegenContext := codegenWrite ctx .fileFooter

def codegenMembers (ctx : CodegenContext) (registers : List ASTRegister) : CodegenContext :=
  registers.foldl (fun ctx reg => codegenWrite ctx (.member (sanitizeIdentifier reg.name) reg.offset)) ctx

def codegenPeripheral (ctx : CodegenContext) (periph : ASTPeripheral) : Int × CodegenContext :=
  let safeName := sanitizeIdentifier periph.name
  let ctx := codegenWrite ctx (.peripheralComment periph.name)
  let ctx := codegenWrite ctx (.baseAddress periph.baseAddress)
  let ctx := codegenWrite ctx .structOpen
  let ctx := { ctx with indentLevel := ctx.indentLevel + 1 }
  let ctx := codegenMembers ctx periph.registers
  let ctx := { ctx with indentLevel := ctx.indentLevel - 1 }
  let ctx := codegenWrite ctx (.structClose safeName)
  let ctx := codegenWrite ctx (.pointerMacro safeName periph.baseAddress)
  (0, ctx)

def codegenRegister (ctx : CodegenContext) (reg : ASTRegister) : Int × CodegenContext :=
  let safeRegName := sanitizeIdentifier reg.name
  let ctx := codegenWrite ctx (.registerComment reg.name reg.offset)
  let ctx := codegenWrite ctx (.fieldCount reg.fields.length)
  let ctx := codegenWrite ctx .structOpen
  let ctx := { ctx with indentLevel := ctx.indentLevel + 1 }
  let ctx := reg.fields.foldl (fun ctx field => codegenWrite ctx (.fieldMember (sanitizeIdentifier field.name))) ctx
  let ctx := { ctx with indentLevel := ctx.indentLevel - 1 }
  let ctx := codegenWrite ctx (.bitfieldClose safeRegName)
  (0, ctx)

-- fields is NULL until the first one is added.
def codegenFieldAccessors (ctx : CodegenContext) (reg : ASTRegister) : Int × CodegenContext :=
  if reg.fields.isEmpty then (-1, ctx)
  else (0, reg.fields.foldl (fun ctx field => codegenWrite ctx (.fieldAccessor (sanitizeIdentifier field.name))) ctx)

def codegenHelpers (ctx : CodegenContext) : Int × CodegenContext := (0, codegenWrite ctx .helpers)

def codegenDevice (ctx : CodegenContext) (periph : ASTPeripheral) : CodegenContext :=
  let ctx := (codegenPeripheral ctx periph).2
  let ctx := periph.registers.foldl
    (fun ctx reg => (codegenFieldAccessors (codegenRegister ctx reg).2 reg).2) ctx
  codegenWrite ctx .newline

def codegenGenerate (ctx : CodegenContext) (program : ASTProgram) : Int × CodegenContext :=
  let ctx := codegenFileHeader ctx "bitn source".toList
  let ctx := (codegenHelpers ctx).2
  let ctx := program.peripherals.foldl codegenDevice ctx
  (0, codegenFileFooter ctx)

end BitN
