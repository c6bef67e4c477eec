import BitN.Names
import BitN.ParserPeripherals
import BitN.PeripheralLayout
import BitN.SourceText

/-! Which devices accepted texts define: all that can be written, whatever their numbers are to
each other. -/
namespace BitN.AcceptedDevices

open Lexical LexerLayout Grammar SourceText PeripheralLayout

/-- Identifiers for names, and a width for each register; nothing of ranges, offsets and addresses. -/
structure Expressible (periph : ASTPeripheral) : Prop where
  names : ∀ name ∈ periph.names, Identifier name
  widths : ∀ reg ∈ periph.registers, reg.type ∈ (widthWords.map Prod.snd).map some

/-! Accepted devices are expressible -/

theorem wordsIdentifiers (input : Source) : ∀ name ∈ words input.terminals, Identifier name := by
  intro name member
  obtain ⟨_, inside, named⟩ := List.mem_filterMap.mp member
  obtain ⟨tok, token, rfl⟩ := List.mem_map.mp inside
  unfold Token.terminal at named
  split at named
  · rename_i ident
    obtain rfl := Option.some.inj named
    rcases LexerPartition.aheadEmitted _ tok token with ended | ⟨line, column, text, span, scan⟩
    · rw [ident] at ended
      cases ended
    · have spelling := Relexing.scannedSpelling scan (by rw [ident]; decide) fun string => by
        rw [ident] at string
        cases string
      have entry : tok.entry = (.tokIdentifier, lexeme tok.value) := Prod.ext ident (identifierLexeme scan ident)
      exact spellingIdentifier (entry ▸ spelling)
  · cases named
  · cases named

theorem registerWidth {piece : Piece ASTRegister} (derived : Register piece) :
    piece.2.type ∈ (widthWords.map Prod.snd).map some := by
  cases derived with
  | register chosen each =>
    cases chosen with
    | none =>
      have omitted : some TypeKind.typeU32 ∈ (widthWords.map Prod.snd).map some := by decide
      exact omitted
    | some listed => exact List.mem_map_of_mem (List.mem_map_of_mem (f := Prod.snd) listed)

theorem collectedPeripherals {definitions : List (Piece Definition)} (each : ∀ d ∈ definitions, Define d) :
    ∀ periph ∈ (collect (trees definitions)).peripherals, ∃ s, Peripheral (s, periph) := by
  induction definitions with
  | nil => simp [trees, collect]
  | cons d definitions ih =>
    have tail := ih fun d' member => each d' (List.mem_cons_of_mem _ member)
    have first := each d List.mem_cons_self
    cases first with
    | function inner => exact tail
    | @peripheral s periph inner =>
      intro other member
      rcases List.mem_cons.mp member with rfl | member
      · exact ⟨s, inner⟩
      · exact tail other member

theorem acceptedExpressible {input : Source} {program : ASTProgram} {p : Parser} (parsed : Parses input program p)
    (clear : p.error = false) : ∀ periph ∈ program.lexemes.peripherals, Expressible periph := by
  have derived : Program (input.terminals, program.lexemes) := ParserDerives.parsesProgram parsed clear lexeme
  have names := Names.programNames derived
  have identifiers := wordsIdentifiers input
  generalize input.terminals = terminals at derived names identifiers
  generalize program.lexemes = tree at derived names
  intro periph member
  refine ⟨fun name inside => identifiers name (names.mem_iff.mp ?_), ?_⟩
  · exact ASTProgram.peripheralNamed member inside
  · cases derived with
    | program each =>
      obtain ⟨s, peripheral⟩ := collectedPeripherals each periph member
      cases peripheral with
      | peripheral registers =>
        intro reg inside
        obtain ⟨piece, among, rfl⟩ := List.mem_map.mp inside
        exact registerWidth (registers piece among)

/-! Expressible devices are accepted -/

def mark (s : String) (type : TokenType) : TokenType × CString := (type, s.toList)

def accessEntry : AccessKind → TokenType × CString
  | .accessRo => mark "ro" .tokRo
  | .accessWo => mark "wo" .tokWo
  | .accessRw => mark "rw" .tokRw
  | .accessW1c => mark "w1c" .tokW1c

def widthEntry : Option TypeKind → TokenType × CString
  | some .typeU8 => mark "u8" .tokU8
  | some .typeU16 => mark "u16" .tokU16
  | some .typeU64 => mark "u64" .tokU64
  | _ => mark "u32" .tokU32

def numberEntry (n : UInt32) : TokenType × CString := (.tokNumber, decimal n.toNat)

def fieldEntries (field : ASTField) : List (TokenType × CString) :=
  [mark "field" .tokField, (.tokIdentifier, field.name), mark ":" .tokColon, mark "[" .tokLbracket,
    numberEntry field.startBit, mark ":" .tokColon, numberEntry field.endBit, mark "]" .tokRbracket,
    accessEntry field.access]

def registerEntries (reg : ASTRegister) : List (TokenType × CString) :=
  [mark "register" .tokRegister, (.tokIdentifier, reg.name), mark ":" .tokColon, widthEntry reg.type, mark "@" .tokAt,
    numberEntry reg.offset, mark "\x7b" .tokLbrace] ++ reg.fields.flatMap fieldEntries ++ [mark "\x7d" .tokRbrace]

def peripheralEntries (periph : ASTPeripheral) : List (TokenType × CString) :=
  [mark "peripheral" .tokPeripheral, (.tokIdentifier, periph.name), mark "@" .tokAt, numberEntry periph.baseAddress,
    mark "\x7b" .tokLbrace] ++ periph.registers.flatMap registerEntries ++ [mark "\x7d" .tokRbrace]

theorem numeralWritten (n : UInt32) : numeral32 (decimal n.toNat) = n := by
  have read := Numeral.strtoullDecimal n.toUInt64
  rw [UInt32.toNat_toUInt64] at read
  unfold numeral32
  rw [read]
  exact UInt32.toUInt32_toUInt64 n

theorem fieldDerived (field : ASTField) : Field ((fieldEntries field).map terminal, field) := by
  have chosen : Choice accessWords .accessRw [terminal (accessEntry field.access)] field.access := by
    cases field.access <;> exact .some (by decide)
  have derived := @Field.field field.name (decimal field.startBit.toNat) (decimal field.endBit.toNat) field.access _ _
    chosen .none
  rwa [numeralWritten, numeralWritten] at derived

theorem joinedEntries {τ : Type} (entries : τ → List (TokenType × CString)) (items : List τ) :
    joined (items.map fun t => ((entries t).map terminal, t)) = (items.flatMap entries).map terminal ∧
      trees (items.map fun t => ((entries t).map terminal, t)) = items := by
  simp [joined, trees, List.flatMap, List.map_flatten, Function.comp_def]

theorem registerDerived {reg : ASTRegister} (width : reg.type ∈ (widthWords.map Prod.snd).map some) :
    Register ((registerEntries reg).map terminal, reg) := by
  obtain ⟨kind, typed, chosen⟩ : ∃ kind, reg.type = some kind ∧
      Choice widthWords .typeU32 [terminal (widthEntry reg.type)] kind := by
    obtain ⟨kind, known, typed⟩ := List.mem_map.mp width
    refine ⟨kind, typed.symm, ?_⟩
    rw [← typed]
    cases kind <;> first | exact .some (by decide) | exact absurd known (by decide)
  obtain ⟨whole, items⟩ := joinedEntries fieldEntries reg.fields
  have each : ∀ piece ∈ reg.fields.map fun field => ((fieldEntries field).map terminal, field), Field piece := by
    intro piece member
    obtain ⟨field, -, rfl⟩ := List.mem_map.mp member
    exact fieldDerived field
  have derived := @Register.register reg.name kind _ (decimal reg.offset.toNat) _ chosen each
  rw [whole, items, numeralWritten, ← typed] at derived
  unfold registerEntries
  rw [List.map_append, List.map_append, List.append_assoc]
  exact derived

theorem peripheralDerived {periph : ASTPeripheral} (expressible : Expressible periph) :
    Peripheral ((peripheralEntries periph).map terminal, periph) := by
  obtain ⟨whole, items⟩ := joinedEntries registerEntries periph.registers
  have each : ∀ piece ∈ periph.registers.map fun reg => ((registerEntries reg).map terminal, reg), Register piece := by
    intro piece member
    obtain ⟨reg, among, rfl⟩ := List.mem_map.mp member
    exact registerDerived (expressible.widths reg among)
  have derived := @Peripheral.peripheral periph.name (decimal periph.baseAddress.toNat) _ each
  rw [whole, items, numeralWritten] at derived
  unfold peripheralEntries
  rw [List.map_append, List.map_append, List.append_assoc]
  exact derived

theorem fieldSpelled {field : ASTField} (identifier : Identifier field.name) :
    ∀ entry ∈ fieldEntries field, Spelling entry.2 entry := by
  have access : Spelling (accessEntry field.access).2 (accessEntry field.access) := by
    cases field.access <;> exact keywordSpelling (by decide)
  have colon : Spelling ":".toList (mark ":" .tokColon) := .operator (by decide)
  unfold fieldEntries
  simp only [List.forall_mem_cons]
  exact ⟨keywordSpelling (by decide), identifierSpelling identifier, colon, .operator (by decide), decimalSpelling _, colon,
    decimalSpelling _, .operator (by decide), access, by simp⟩

theorem registerSpelled {reg : ASTRegister} (identifiers : ∀ name ∈ reg.names, Identifier name) :
    ∀ entry ∈ registerEntries reg, Spelling entry.2 entry := by
  have width : Spelling (widthEntry reg.type).2 (widthEntry reg.type) := by
    unfold widthEntry
    split <;> exact keywordSpelling (by decide)
  have fields : ∀ field ∈ reg.fields, ∀ entry ∈ fieldEntries field, Spelling entry.2 entry := fun field member =>
    fieldSpelled (identifiers _ (ASTRegister.fieldNamed member))
  unfold registerEntries
  simp only [List.forall_mem_append, List.forall_mem_cons, List.forall_mem_flatMap]
  exact ⟨⟨⟨keywordSpelling (by decide), identifierSpelling (identifiers _ List.mem_cons_self), .operator (by decide), width,
    .operator (by decide), decimalSpelling _, .operator (by decide), by simp⟩, fields⟩, .operator (by decide), by simp⟩

theorem peripheralSpelled {periph : ASTPeripheral} (identifiers : ∀ name ∈ periph.names, Identifier name) :
    ∀ entry ∈ peripheralEntries periph, Spelling entry.2 entry := by
  have registers : ∀ reg ∈ periph.registers, ∀ entry ∈ registerEntries reg, Spelling entry.2 entry := fun reg member =>
    registerSpelled fun name inside => identifiers name (ASTPeripheral.registerNamed member inside)
  unfold peripheralEntries
  simp only [List.forall_mem_append, List.forall_mem_cons, List.forall_mem_flatMap]
  exact ⟨⟨⟨keywordSpelling (by decide), identifierSpelling (identifiers _ List.mem_cons_self), .operator (by decide),
    decimalSpelling _, .operator (by decide), by simp⟩, registers⟩, .operator (by decide), by simp⟩

theorem peripheralsSpelled {peripherals : List ASTPeripheral} (each : ∀ periph ∈ peripherals, Expressible periph) :
    ∀ entry ∈ peripherals.flatMap peripheralEntries, Spelling entry.2 entry := by
  intro entry member
  obtain ⟨periph, among, inside⟩ := List.mem_flatMap.mp member
  exact peripheralSpelled (each periph among).names entry inside

theorem expressibleAccepted {peripherals : List ASTPeripheral} (each : ∀ periph ∈ peripherals, Expressible periph) :
    ∃ program p, Parses (spacedSource _ (peripheralsSpelled each)) program p ∧ p.error = false ∧
      program.lexemes = ⟨[], peripherals⟩ := by
  have text := spacedTerminals (peripheralsSpelled each)
  obtain ⟨whole, items⟩ := joinedEntries peripheralEntries peripherals
  rw [← whole] at text
  obtain ⟨program, p, parsed, clear, same⟩ := ParserPeripherals.peripheralsAccepted (fun q member => by
    obtain ⟨periph, among, rfl⟩ := List.mem_map.mp member
    exact peripheralDerived (each periph among)) text
  exact ⟨program, p, parsed, clear, same.trans (by rw [items])⟩

theorem devicesAccepted :
    (∀ input program p, Parses input program p → p.error = false →
      ∀ periph ∈ program.lexemes.peripherals, Expressible periph) ∧
    ∀ peripherals : List ASTPeripheral, (∀ periph ∈ peripherals, Expressible periph) →
      ∃ input program p, Parses input program p ∧ p.error = false ∧ program.lexemes = ⟨[], peripherals⟩ :=
  ⟨fun _ _ _ => acceptedExpressible, fun _ each => ⟨_, expressibleAccepted each⟩⟩

/-! The relations that nothing checks -/

structure Valid (periph : ASTPeripheral) : Prop where
  ranges : ∀ reg ∈ periph.registers, ∀ field ∈ reg.fields,
    field.startBit < field.endBit ∧ field.endBit.toNat ≤ 8 * width reg
  apart : periph.registers.Pairwise fun a b =>
    a.offset.toNat + width a ≤ b.offset.toNat ∨ b.offset.toNat + width b ≤ a.offset.toNat
  within : ∀ reg ∈ periph.registers, periph.baseAddress.toNat + reg.offset.toNat + width reg ≤ 2 ^ 32

-- peripheral U@0xffffffff{register D:u32@0{field F:[7:0]rw}register E:u32@2{}}
def overlapping : Source :=
  ⟨"peripheral U@0xffffffff\x7bregister D:u32@0\x7bfield F:[7:0]rw\x7dregister E:u32@2\x7b\x7d\x7d".toList, by decide⟩

def overlappingProgram : ASTProgram := (parseSource 6 overlapping).1.getD ⟨[], []⟩

theorem overlappingParsed :
    Parses overlapping overlappingProgram (parseSource 6 overlapping).2 ∧ (parseSource 6 overlapping).2.error = false :=
  ⟨⟨6, Prod.ext rfl rfl⟩, by decide +kernel⟩

theorem overlappingWritten : (∀ periph ∈ overlappingProgram.lexemes.peripherals, Expressible periph) ∧
    ∃ input program p, Parses input program p ∧ p.error = false ∧
      program.lexemes = ⟨[], overlappingProgram.lexemes.peripherals⟩ := by
  have expressible := devicesAccepted.1 _ _ _ overlappingParsed.1 overlappingParsed.2
  exact ⟨expressible, devicesAccepted.2 _ expressible⟩

theorem invalidAccepted : ∃ input program p, Parses input program p ∧ p.error = false ∧
    ∃ periph ∈ program.peripherals, ¬ Valid periph := by
  refine ⟨overlapping, overlappingProgram, _, overlappingParsed.1, overlappingParsed.2, ?_⟩
  have backwards : (overlappingProgram.peripherals.all fun periph => periph.registers.all fun reg =>
      reg.fields.all fun field => decide (field.startBit < field.endBit)) = false := rfl
  simp only [← Bool.not_eq_true, List.all_eq_true, decide_eq_true_eq] at backwards
  by_contra none
  refine backwards fun periph member reg inside field among => ?_
  have valid : Valid periph := not_not.mp fun invalid => none ⟨periph, member, invalid⟩
  exact (valid.ranges reg inside field among).1

end BitN.AcceptedDevices
