import BitN.CodegenText
import BitN.Lib.Codes

/-! What of a device its header tells: names, base addresses and offsets, and nothing of types,
bit ranges and access. -/
namespace BitN.HeaderOutline

open Codes CodegenText

structure RegisterOutline where
  name : CString
  offset : UInt32
  fields : List CString
  deriving DecidableEq

structure PeripheralOutline where
  name : CString
  baseAddress : UInt32
  registers : List RegisterOutline
  deriving DecidableEq

def registerOutline (reg : ASTRegister) : RegisterOutline := ⟨reg.name, reg.offset, reg.fields.map ASTField.name⟩

def outline (periph : ASTPeripheral) : PeripheralOutline :=
  ⟨periph.name, periph.baseAddress, periph.registers.map registerOutline⟩

def header (program : ASTProgram) : CString := (codegenGenerate codegenInit program).2.output

/-! Numbers -/

theorem hexValue (n : UInt32) : positional 16 (hex n) = n.toNat := by
  unfold hex
  exact Numeral.writtenValue (by decide) (by decide) n.toNat

theorem hexInjective {n m : UInt32} (same : hex n = hex m) : n = m := by
  have value := congrArg (positional 16) same
  rw [hexValue, hexValue] at value
  exact UInt32.toNat_inj.mp value

theorem hex8Value (n : UInt32) : positional 16 (hex8 n) = n.toNat := by
  have zeros : ∀ k text, positional 16 (List.replicate k '0' ++ text) = positional 16 text := by
    intro k text
    rw [Numeral.positionalAppend]
    induction k with
    | zero => rfl
    | succ k ih =>
      rw [List.replicate_succ', Numeral.positionalSnoc]
      simpa [digitValue, isDigit] using ih
  unfold hex8 List.leftpad
  rw [zeros, hexValue]

theorem hex8Injective {n m : UInt32} (same : hex8 n = hex8 m) : n = m := by
  have value := congrArg (positional 16) same
  rw [hex8Value, hex8Value] at value
  exact UInt32.toNat_inj.mp value

/-! Reading the parts -/

theorem identifierFree {name : CString} {stop : Char} (identifier : HeaderScope.CIdentifier name)
    (no : isWord stop = false) : stop ∉ name := fun inside =>
  absurd (identifier.2.2 _ inside) (by rw [no]; decide)

def Identified (reg : ASTRegister) : Prop := ∀ name ∈ reg.names, HeaderScope.CIdentifier name

theorem tellsField : Tells (fun field : ASTField => HeaderScope.CIdentifier field.name) fieldText ASTField.name := by
  have name : Tells (fun field : ASTField => HeaderScope.CIdentifier field.name)
      (fun field => field.name ++ "; // Field placeholder\n".toList) ASTField.name :=
    tellsWord fun field identifier => identifierFree identifier (by decide)
  exact (((tellsConstant "    ".toList).then "uint32_t ".toList).pair name).reads fun _ _ _ _ same =>
    congrArg Prod.snd same

theorem tellsMember : Tells (fun reg : ASTRegister => HeaderScope.CIdentifier reg.name) memberText
    (fun reg => (reg.name, reg.offset)) := by
  have name : Tells (fun reg : ASTRegister => HeaderScope.CIdentifier reg.name)
      (fun reg => reg.name ++ "; // @ offset 0x".toList) ASTRegister.name :=
    tellsWord fun reg identifier => identifierFree identifier (by decide)
  have offset : Tells (fun reg : ASTRegister => HeaderScope.CIdentifier reg.name)
      (fun reg => hex reg.offset ++ "\n".toList) (fun reg => hex reg.offset) :=
    tellsWord fun reg _ => hexLine reg.offset
  refine ((((tellsConstant "    ".toList).then "MMIO_REG ".toList).pair name).pair offset).reads fun a b _ _ same => ?_
  simp only [Prod.mk.injEq] at same ⊢
  exact ⟨same.1.2, hexInjective same.2⟩

theorem tellsRegister : Tells Identified registerText registerOutline := by
  have name : Tells Identified (fun reg => reg.name ++ " (Offset: 0x".toList) ASTRegister.name :=
    tellsWord fun reg identified => identifierFree (identified _ List.mem_cons_self) (by decide)
  have offset : Tells Identified (fun reg => hex reg.offset ++ ")\n".toList) (fun reg => hex reg.offset) :=
    tellsWord fun reg _ inside => absurd (hexWord reg.offset _ inside) (by decide)
  have count : Tells Identified (fun reg => decimal reg.fields.length ++ "\n".toList)
      (fun reg => decimal reg.fields.length) :=
    tellsWord fun reg _ inside => absurd (Numeral.decimalDigits _ _ inside) (by decide)
  have fields : Tells Identified (fun reg => reg.fields.flatMap fieldText ++ "\x7d ".toList)
      (fun reg => reg.fields.map ASTField.name) :=
    (tellsField.many fun field _ => ⟨' ', _, rfl, by decide⟩).part fun reg identified field member =>
      identified _ (ASTRegister.fieldNamed member)
  have all : Tells Identified _ registerOutline := (((((((tellsConstant "// Register: ".toList).pair name).pair
    offset).then "// Fields: ".toList).pair count).then "typedef struct \x7b\n".toList).pair fields).reads
      fun a b _ _ same => by
        simp only [Prod.mk.injEq] at same
        unfold registerOutline
        rw [same.1.1.1.2, hexInjective same.1.1.2, same.2]
  refine all.again fun a b _ _ same => ?_
  have accessors : ∀ reg : ASTRegister, reg.fields.flatMap accessorText =
      (registerOutline reg).fields.flatMap fun name => "// Field accessor for ".toList ++ name ++ "\n".toList := by
    intro reg
    unfold registerOutline
    rw [List.flatMap_map]
    rfl
  rw [accessors, accessors, same, show a.name = b.name from congrArg RegisterOutline.name same]

theorem tellsDevice : Tells Readable deviceText outline := by
  have base : Tells Readable (fun periph => hex8 periph.baseAddress) (fun periph => hex8 periph.baseAddress) :=
    tellsFixed fun periph _ => HeaderScope.hex8Length periph.baseAddress
  have name : Tells Readable (fun periph => periph.name ++ "\n".toList) ASTPeripheral.name :=
    tellsWord fun periph readable => wordLine (readable.identifiers _ List.mem_cons_self)
  have identified : ∀ periph, Readable periph → ∀ reg ∈ periph.registers, Identified reg :=
    fun periph readable reg member name inside =>
      readable.identifiers name (ASTPeripheral.registerNamed member inside)
  have members : Tells Readable (fun periph => periph.registers.flatMap memberText ++ "\x7d ".toList)
      (fun periph => periph.registers.map fun reg => (reg.name, reg.offset)) :=
    (tellsMember.many fun reg _ => ⟨' ', _, rfl, by decide⟩).part fun periph readable reg member =>
      identified periph readable reg member _ List.mem_cons_self
  have registers : Tells Readable (fun periph => periph.registers.flatMap registerText ++ "\n".toList)
      (fun periph => periph.registers.map registerOutline) :=
    (tellsRegister.many fun reg _ => ⟨'/', _, rfl, by decide⟩).part identified
  have head : Tells Readable peripheralText (fun periph => (periph.name, hex8 periph.baseAddress)) := by
    have all : Tells Readable _ (fun periph => (periph.name, hex8 periph.baseAddress)) :=
      ((((((tellsConstant "// Peripheral: ".toList).pair name).then "// Base Address: 0x".toList).pair base).then
        "\n".toList).then "typedef struct \x7b\n".toList).pair members |>.reads fun a b _ _ same => by
          simp only [Prod.mk.injEq] at same ⊢
          exact ⟨same.1.1.2, same.1.2⟩
    refine all.again fun a b _ _ same => ?_
    simp only [Prod.mk.injEq] at same
    rw [same.1, same.2]
  exact (head.pair registers).reads fun a b _ _ same => by
    simp only [Prod.mk.injEq] at same
    unfold outline
    rw [same.1.1, hex8Injective same.1.2, same.2]

theorem tellsHeader : Tells (fun peripherals => ∀ periph ∈ peripherals, Readable periph) headerText
    (fun peripherals => peripherals.map outline) :=
  ((tellsConstant prelude).pair (tellsDevice.many fun periph _ => ⟨'/', _, rfl, by decide⟩)).reads
    fun _ _ _ _ same => congrArg Prod.snd same

/-! The outline is all there is -/

def plainRegister (reg : RegisterOutline) : ASTRegister :=
  ⟨reg.name, none, reg.offset, reg.fields.map fun name => ⟨name, 0, 0, .accessRw⟩⟩

def plain (periph : PeripheralOutline) : ASTPeripheral :=
  ⟨periph.name, periph.baseAddress, periph.registers.map plainRegister⟩

theorem deviceOutlined (periph : ASTPeripheral) : deviceText periph = deviceText (plain (outline periph)) := by
  have register : ∀ reg, registerText (plainRegister (registerOutline reg)) = registerText reg := by
    intro reg
    unfold registerText plainRegister registerOutline
    simp only [List.flatMap_map, List.length_map]
    rfl
  unfold deviceText peripheralText plain outline
  simp only [List.flatMap_map, register]
  rfl

theorem headerOutlined {peripherals others : List ASTPeripheral} (same : peripherals.map outline = others.map outline) :
    headerText peripherals = headerText others := by
  have plainly : ∀ peripherals : List ASTPeripheral,
      peripherals.flatMap deviceText = (peripherals.map outline).flatMap (deviceText ∘ plain) := by
    intro peripherals
    rw [List.flatMap_map]
    exact List.flatMap_congr fun periph _ => deviceOutlined periph
  unfold headerText
  rw [plainly, plainly, same]

theorem headerTells {program other : ASTProgram} (readable : ∀ periph ∈ program.peripherals, Readable periph)
    (readable' : ∀ periph ∈ other.peripherals, Readable periph) :
    header program = header other ↔ program.peripherals.map outline = other.peripherals.map outline := by
  unfold header
  rw [headerWrote readable, headerWrote readable']
  exact ⟨tellsHeader.whole readable readable', headerOutlined⟩

theorem outlineBare {peripherals others : List ASTPeripheral} (bare : ∀ periph ∈ peripherals, periph.registers = [])
    (same : peripherals.map outline = others.map outline) : peripherals = others := by
  induction peripherals generalizing others with
  | nil => exact (List.map_eq_nil_iff.mp same.symm).symm
  | cons periph peripherals ih =>
    cases others with
    | nil => cases same
    | cons other others =>
      obtain ⟨first, rest⟩ := List.cons.inj same
      have none := bare periph List.mem_cons_self
      obtain ⟨name, base, registers⟩ := periph
      obtain ⟨name', base', registers'⟩ := other
      obtain rfl : registers = [] := none
      simp only [outline, List.map_nil, PeripheralOutline.mk.injEq] at first
      obtain ⟨rfl, rfl, none'⟩ := first
      rw [List.map_eq_nil_iff.mp none'.symm, ih (fun periph member => bare periph (List.mem_cons_of_mem _ member)) rest]

/-! Types that the header does not have -/

def retype (reg : ASTRegister) : ASTRegister :=
  { reg with type := if reg.type = some .typeU8 then some .typeU32 else some .typeU8 }

theorem retypeOther (reg : ASTRegister) : retype reg ≠ reg := by
  intro same
  have type := congrArg ASTRegister.type same
  unfold retype at type
  dsimp only at type
  split at type
  · rename_i narrow
    rw [narrow] at type
    cases type
  · rename_i wide
    exact wide type.symm

def retyped (periph : ASTPeripheral) : ASTPeripheral := { periph with registers := periph.registers.map retype }

theorem retypedReadable {periph : ASTPeripheral} (readable : Readable periph) : Readable (retyped periph) := by
  have names : (retyped periph).names = periph.names := by
    unfold ASTPeripheral.names retyped
    rw [List.map_map]
    rfl
  refine ⟨names ▸ readable.identifiers, readable.short.1, fun reg member => ?_⟩
  obtain ⟨reg, declared, rfl⟩ := List.mem_map.mp member
  exact readable.short.2 reg declared

theorem retypedOutline (peripherals : List ASTPeripheral) :
    (peripherals.map retyped).map outline = peripherals.map outline := by
  rw [List.map_map]
  refine List.map_congr_left fun periph _ => ?_
  unfold Function.comp outline retyped
  rw [List.map_map]
  rfl

theorem retypedSame {peripherals : List ASTPeripheral} (same : peripherals = peripherals.map retyped) :
    ∀ periph ∈ peripherals, periph.registers = [] := by
  intro periph member
  have kept : retyped periph = periph := List.map_inj_left.mp (same.symm.trans (List.map_id _).symm) periph member
  have registers : periph.registers.map retype = periph.registers.map id :=
    (congrArg ASTPeripheral.registers kept).trans (List.map_id _).symm
  exact List.eq_nil_iff_forall_not_mem.mpr fun reg inside => retypeOther reg (List.map_inj_left.mp registers reg inside)

/-- Two programs have one header exactly when they have one outline; a program that no other has the
header of has no register. -/
theorem deviceDetermined (program : ASTProgram) (readable : ∀ periph ∈ program.peripherals, Readable periph) :
    (∀ other : ASTProgram, (∀ periph ∈ other.peripherals, Readable periph) →
      ((header program = header other → program.peripherals = other.peripherals) ↔
        program.peripherals = other.peripherals ∨
          program.peripherals.map outline ≠ other.peripherals.map outline)) ∧
    ((∀ other : ASTProgram, (∀ periph ∈ other.peripherals, Readable periph) →
      header program = header other → program.peripherals = other.peripherals) ↔
        ∀ periph ∈ program.peripherals, periph.registers = []) := by
  refine ⟨fun other readable' => ?_, fun determined => ?_, fun bare other readable' same => ?_⟩
  · rw [headerTells readable readable']
    exact imp_iff_or_not
  · have readable' : ∀ periph ∈ program.peripherals.map retyped, Readable periph := by
      intro periph member
      obtain ⟨periph, declared, rfl⟩ := List.mem_map.mp member
      exact retypedReadable (readable periph declared)
    exact retypedSame (determined ⟨[], program.peripherals.map retyped⟩ readable'
      ((headerTells readable readable').mpr (retypedOutline _).symm))
  · exact outlineBare bare ((headerTells readable readable').mp same)

-- peripheral UART0 @ 0x40034000 { register UARTDR: type @ 0x00 { field DATA: [0..bits] access } }
def uart (type : TypeKind) (bits : UInt32) (access : AccessKind) : ASTPeripheral :=
  ⟨"UART0".toList, 0x40034000, [⟨"UARTDR".toList, some type, 0x00, [⟨"DATA".toList, 0, bits, access⟩]⟩]⟩

theorem uartReadable (type : TypeKind) (bits : UInt32) (access : AccessKind) :
    ∀ periph ∈ [uart type bits access], Readable periph := by
  intro periph member
  obtain rfl := List.mem_singleton.mp member
  have identifiers : ∀ name ∈ ["UART0".toList, "UARTDR".toList, "DATA".toList], HeaderScope.CIdentifier name := by decide
  have lengths : 2 * "UART0".toList.length ≤ 4057 ∧ "UARTDR".toList.length + (hex 0x00).length ≤ 4068 ∧
      (decimal 1).length ≤ 4083 ∧ "DATA".toList.length ≤ 4063 := by decide
  refine ⟨identifiers, lengths.1, fun reg member => ?_⟩
  obtain rfl := List.mem_singleton.mp member
  refine ⟨lengths.2.1, lengths.2.2.1, fun field member => ?_⟩
  obtain rfl := List.mem_singleton.mp member
  exact lengths.2.2.2

theorem uartTold : ¬ ∀ other : ASTProgram, (∀ periph ∈ other.peripherals, Readable periph) →
    header ⟨[], [uart .typeU32 8 .accessRw]⟩ = header other → [uart .typeU32 8 .accessRw] = other.peripherals := by
  intro told
  have bare := (deviceDetermined ⟨[], [uart .typeU32 8 .accessRw]⟩ (uartReadable _ _ _)).2.mp told
  exact absurd (bare _ List.mem_cons_self) (by decide)

theorem uartsAlike : header ⟨[], [uart .typeU32 8 .accessRw]⟩ = header ⟨[], [uart .typeU8 4 .accessRo]⟩ ∧
    [uart .typeU32 8 .accessRw] ≠ [uart .typeU8 4 .accessRo] := by
  refine ⟨?_, by decide⟩
  unfold header
  rw [headerWrote (uartReadable _ _ _), headerWrote (uartReadable _ _ _)]
  exact headerOutlined (by decide)

end BitN.HeaderOutline
