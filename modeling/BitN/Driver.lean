import BitN.Codegen
import BitN.Parser

/-! The driver: options, source, parsing and code generation, and what it leaves of them: its exit
status, the lines that tell how it went, and the header file. -/
namespace BitN

inductive Message where
  | noTarget | noCode | cannotOpen (inputFile : CString)
  | parsed | parsingFailed
  | generating (outputFile : CString) | generated | initFailed | generationFailed
  | noPeripherals
  | successful
  deriving DecidableEq

/-- What the driver finds: the files that can be read, with their bytes, and the paths that can be
opened for writing. -/
structure Files where
  read : CString → Option (List Char)
  writable : CString → Bool

/-- What it leaves; the header is the file created or truncated, with what is written to it. -/
structure Outcome where
  status : Int
  messages : List Message
  header : Option (CString × CString)
  deriving DecidableEq

structure Options where
  doCodegen : Bool
  verbose : Bool
  target : CString
  source : CString
  inputFile : Option CString
  deriving DecidableEq

def defaultOptions : Options where
  doCodegen := false
  verbose := false
  target := "arm-cortex-m0".toList
  source := "fn main() -> u32 \x7b return 42; \x7d".toList
  inputFile := none

def parseArguments (options : Options) : List CString → Except Message Options
  | [] => .ok options
  | arg :: rest =>
    if arg = "--compile".toList then parseArguments { options with doCodegen := true } rest
    else if arg = "--verbose".toList then parseArguments { options with verbose := true } rest
    else if arg = "--target".toList then
      match rest with
      | target :: rest => parseArguments { options with target } rest
      | [] => .error .noTarget
    else if arg = "-c".toList then
      match rest with
      | source :: rest => parseArguments { options with source } rest
      | [] => .error .noCode
    else if arg.headD '\x00' ≠ '-' then parseArguments { options with inputFile := some arg } rest
    else parseArguments options rest

-- A buffer with its terminator, read as a C string.
def Source.ofBuffer (buffer : List Char) : Source where
  text := buffer.takeWhile (· ≠ '\x00')
  noNul := fun inside => absurd (List.mem_takeWhile_imp inside) (by decide)

-- `source == default_source` holds with `-c` as well, so an input file is read whenever there is one.
def loadSource (files : Files) (options : Options) : Except Message Source :=
  match options.inputFile with
  | none => .ok (.ofBuffer options.source)
  | some inputFile =>
    match files.read inputFile with
    | none => .error (.cannotOpen inputFile)
    | some bytes => .ok (.ofBuffer bytes)

def outputFile (options : Options) : CString :=
  match options.inputFile with
  | none => "generated.h".toList
  | some inputFile =>
    let outputBuf := inputFile.take 255
    if '.' ∈ outputBuf then (outputBuf.reverse.dropWhile (· ≠ '.')).tail.reverse ++ ".h".toList
    else outputBuf ++ ".h".toList

def generateCode (files : Files) (options : Options) (program : ASTProgram) : Outcome :=
  let outputFile := outputFile options
  if files.writable outputFile then
    let (result, ctx) := codegenGenerate codegenInit program
    if result = 0 then
      ⟨0, [.parsed, .generating outputFile, .generated, .successful], some (outputFile, ctx.output)⟩
    else ⟨1, [.parsed, .generating outputFile, .generationFailed], some (outputFile, ctx.output)⟩
  else ⟨1, [.parsed, .generating outputFile, .initFailed], none⟩

def compileProgram (files : Files) (options : Options) (program : ASTProgram) : Outcome :=
  if options.doCodegen then
    if program.peripherals.length > 0 then generateCode files options program
    else ⟨0, [.parsed, .noPeripherals, .successful], none⟩
  else ⟨0, [.parsed, .successful], none⟩

-- No outcome where the fuel has not sufficed to parse.
def driverMain (files : Files) (fuel : Nat) (argv : List CString) : Option Outcome :=
  match parseArguments defaultOptions argv with
  | .error message => some ⟨1, [message], none⟩
  | .ok options =>
    match loadSource files options with
    | .error message => some ⟨1, [message], none⟩
    | .ok source =>
      match parseSource fuel source with
      | (none, _) => none
      | (some program, parser) =>
        if parser.error then some ⟨0, [.parsingFailed], none⟩
        else some (compileProgram files options program)

end BitN
