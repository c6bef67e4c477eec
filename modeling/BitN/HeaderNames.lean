import BitN.CodegenCalls
import BitN.Names

/-! The names of the source in the header. The code generator keeps names that are identifiers;
what it is given are not the identifiers, but the whole text from each of them on. -/
namespace BitN.HeaderNames

open CodegenCalls

def declares : Format → List CString
  | .member name _ => [name]
  | .structClose name => [name ++ "_t".toList]
  | .pointerMacro name _ => [name]
  | .fieldMember name => [name]
  | .bitfieldClose name => [name ++ "_bitfield_t".toList]
  | _ => []

def derivedNames (periph : ASTPeripheral) : List CString :=
  periph.registers.map ASTRegister.name ++ [periph.name ++ "_t".toList, periph.name] ++
    periph.registers.flatMap fun reg => reg.fields.map ASTField.name ++ [reg.name ++ "_bitfield_t".toList]

/-- Names are the identifiers they were read from, in the tree and in the header, and the header
has nothing else of the source. -/
structure NamesKept (program : ASTProgram) : Prop where
  stored : ∀ name ∈ program.names, name = lexeme name
  derived : (codegenGenerate codegenInit program).2.calls.flatMap declares =
    program.lexemes.peripherals.flatMap derivedNames
  header : (codegenGenerate codegenInit program).2.output = (codegenGenerate codegenInit program.lexemes).2.output

theorem sanitizeWord {name : CString} (word : ∀ c ∈ name, isWord c = true) : sanitizeIdentifier name = name := by
  induction name with
  | nil => rfl
  | cons c cs ih =>
    have tail := ih fun d member => word d (List.mem_cons_of_mem _ member)
    have first : (isAlnum c || decide (c = '_')) = true := word c List.mem_cons_self
    rw [sanitizeIdentifier, List.filterMap_cons, if_pos first]
    exact congrArg (c :: ·) tail

theorem sanitizeLexeme {name : CString} (kept : name = lexeme name) : sanitizeIdentifier name = name :=
  sanitizeWord fun _ member => List.mem_takeWhile_imp (kept ▸ member : _ ∈ lexeme name)

/-! What the calls declare -/

def sanitizedNames (periph : ASTPeripheral) : List CString := derivedNames (periph.renamed sanitizeIdentifier)

theorem peripheralDeclares (periph : ASTPeripheral) : (peripheralCalls periph).flatMap declares =
    periph.registers.map (fun reg => sanitizeIdentifier reg.name) ++
      [sanitizeIdentifier periph.name ++ "_t".toList, sanitizeIdentifier periph.name] := by
  have members : (periph.registers.map memberCall).flatMap declares =
      periph.registers.map fun reg => sanitizeIdentifier reg.name := by
    rw [List.flatMap_map, List.map_eq_flatMap]
    rfl
  rw [peripheralCalls, List.flatMap_append, List.flatMap_append, members]
  rfl

theorem registerDeclares (reg : ASTRegister) : (registerCalls reg ++ accessorCalls reg).flatMap declares =
    reg.fields.map (fun field => sanitizeIdentifier field.name) ++
      [sanitizeIdentifier reg.name ++ "_bitfield_t".toList] := by
  have members : (reg.fields.map fun field => Format.fieldMember (sanitizeIdentifier field.name)).flatMap declares =
      reg.fields.map fun field => sanitizeIdentifier field.name := by
    rw [List.flatMap_map, List.map_eq_flatMap]
    rfl
  have accessors : (accessorCalls reg).flatMap declares = [] := by
    rw [accessorCalls, List.flatMap_map, List.flatMap_eq_nil_iff]
    exact fun _ _ => rfl
  rw [List.flatMap_append, registerCalls, List.flatMap_append, List.flatMap_append, members, accessors]
  simp [declares]

theorem headerDeclares (program : ASTProgram) :
    (codegenGenerate codegenInit program).2.calls.flatMap declares = program.peripherals.flatMap sanitizedNames := by
  have device : ∀ periph, (deviceCalls periph).flatMap declares = sanitizedNames periph := by
    intro periph
    rw [deviceCalls, List.flatMap_append, List.flatMap_append, peripheralDeclares, List.flatMap_assoc]
    simp only [registerDeclares]
    simp [sanitizedNames, derivedNames, ASTPeripheral.renamed, ASTRegister.renamed, ASTField.renamed, declares,
      List.flatMap_map, Function.comp_def]
  rw [generateMakes, programCalls, List.flatMap_append, List.flatMap_append, List.flatMap_assoc]
  simp only [device]
  simp [declares]

theorem cleanKept {program : ASTProgram} (clean : ∀ name ∈ program.names, name = lexeme name) : NamesKept program := by
  have same : program.lexemes = program := ASTProgram.renamedSame fun name member => (clean name member).symm
  refine ⟨clean, ?_, by rw [same]⟩
  rw [headerDeclares, same]
  refine List.flatMap_congr fun periph member => ?_
  rw [sanitizedNames, ASTPeripheral.renamedSame fun name inside => sanitizeLexeme (clean name ?_)]
  exact ASTProgram.peripheralNamed member inside

theorem namesKept {input : Source} {program : ASTProgram} {p : Parser} (parsed : Parses input program p)
    (clear : p.error = false) : NamesKept program ↔ input.tokens = [] := by
  have names := Names.parsedNames parsed clear
  constructor
  · intro kept
    have derived := ParserDerives.parsesProgram parsed clear id
    exact Names.wordsClean derived fun name member => kept.stored name (names.mem_iff.mpr member)
  · intro none
    refine cleanKept fun name member => ?_
    rw [names.mem_iff, Source.named, none] at member
    cases member

-- peripheral A @ 0 {}
def spacedSource : Source := ⟨"peripheral A @ 0 \x7b\x7d".toList, by decide⟩

def spacedProgram : ASTProgram := ⟨[], [⟨"A @ 0 \x7b\x7d".toList, 0, []⟩]⟩

theorem spacedLeaks : ∃ p, Parses spacedSource spacedProgram p ∧ p.error = false ∧
    (codegenGenerate codegenInit spacedProgram).2.calls.flatMap declares = ["A0_t".toList, "A0".toList] ∧
    ¬ NamesKept spacedProgram := by
  refine ⟨(parseSource 3 spacedSource).2, ⟨3, Prod.ext rfl rfl⟩, rfl, ?_, fun kept => ?_⟩
  · rw [headerDeclares]
    decide
  · exact absurd (kept.stored _ List.mem_cons_self) (by decide)

-- A comment and no more.
def blankSource : Source := ⟨"// nothing\n".toList, by decide⟩

theorem blankKept : NamesKept ⟨[], []⟩ :=
  (namesKept (show Parses blankSource ⟨[], []⟩ (parseSource 3 blankSource).2 from ⟨3, Prod.ext rfl rfl⟩) rfl).mpr rfl

end BitN.HeaderNames
