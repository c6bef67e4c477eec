import BitN.CutDeclarations

/-! When the declarations of a header, read from its text, are the program's and mean what they say. -/
namespace BitN.HeaderMeaning

open CodegenCalls CodegenText CutDeclarations HeaderDeclarations HeaderNames HeaderScope
open CText (Item)

/-- The declarations are those that are meant, each name of the file is declared once, and no macro has
the name of a later member. -/
structure Scoped (peripherals : List ASTPeripheral) (items : List Item) : Prop where
  meant : items = headerItems peripherals
  once : ((languageDeclarations ++ items.flatMap HeaderDeclarations.declares).filterMap fileScope).Nodup
  members : (languageDeclarations ++ items.flatMap HeaderDeclarations.declares).Pairwise Kept

/-! The calls behind the prelude -/

def bodyCalls (peripherals : List ASTPeripheral) : List Format := peripherals.flatMap deviceCalls ++ [.fileFooter]

section devices
variable {periph : ASTPeripheral} (identifiers : ∀ name ∈ periph.names, CIdentifier name)
include identifiers

theorem deviceMeant : (deviceCalls periph).flatMap HeaderDeclarations.meant = deviceItems periph := by
  have kept := fun name (member : name ∈ periph.names) => sanitizeWord (identifiers name member).2.2
  have registers : ∀ reg ∈ periph.registers, (registerCalls reg ++ accessorCalls reg).flatMap HeaderDeclarations.meant =
      registerItems reg := by
    intro reg member
    have inner := fun name inside => kept name (ASTPeripheral.registerNamed member inside)
    have fields : (reg.fields.map fun field => Format.fieldMember (sanitizeIdentifier field.name)).flatMap
        HeaderDeclarations.meant = reg.fields.map fun field => .member "uint32_t".toList field.name := by
      rw [List.flatMap_map, List.map_eq_flatMap]
      refine List.flatMap_congr fun field inside => ?_
      rw [inner _ (ASTRegister.fieldNamed inside)]
      rfl
    have accessors : (accessorCalls reg).flatMap HeaderDeclarations.meant = [] := by
      unfold accessorCalls
      rw [List.flatMap_map]
      exact List.flatMap_eq_nil_iff.mpr fun _ _ => rfl
    unfold registerCalls registerItems
    rw [List.flatMap_append, List.flatMap_append, List.flatMap_append, fields, accessors, inner _ List.mem_cons_self]
    simp [HeaderDeclarations.meant]
  have calls : deviceCalls periph = [.peripheralComment periph.name, .baseAddress periph.baseAddress] ++
      (structCalls periph ++
        ((periph.registers.flatMap fun reg => registerCalls reg ++ accessorCalls reg) ++ [.newline])) := by
    simp [deviceCalls, peripheralCalls, structCalls]
  have comments : [Format.peripheralComment periph.name, .baseAddress periph.baseAddress].flatMap
      HeaderDeclarations.meant = [] := rfl
  have newline : [Format.newline].flatMap HeaderDeclarations.meant = [] := rfl
  rw [calls, List.flatMap_append, List.flatMap_append, List.flatMap_append, comments, newline, structMeant,
    ASTPeripheral.renamedSame kept, List.flatMap_assoc, List.flatMap_congr registers, List.append_nil]
  rfl

theorem deviceWorded : ∀ fmt ∈ deviceCalls periph, Worded fmt := by
  have word := fun name (member : name ∈ periph.names) => (identifiers name member).2.2
  unfold deviceCalls peripheralCalls registerCalls accessorCalls
  simp only [List.forall_mem_append, List.forall_mem_cons, List.forall_mem_map, List.forall_mem_flatMap]
  refine ⟨⟨⟨⟨⟨word _ List.mem_cons_self, trivial, trivial, nofun⟩, fun reg _ => sanitizedWord reg.name⟩,
    sanitizedWord _, sanitizedWord _, nofun⟩, fun reg member => ?_⟩, trivial, nofun⟩
  exact ⟨⟨⟨⟨word _ (ASTPeripheral.registerNamed member List.mem_cons_self), trivial, trivial, nofun⟩,
    fun field _ => sanitizedWord field.name⟩, sanitizedWord _, nofun⟩, fun field _ => sanitizedWord field.name⟩

theorem deviceSlashless : ∀ item ∈ deviceItems periph, '/' ∉ spelled [item] := by
  have word := fun name (member : name ∈ periph.names) => (identifiers name member).2.2
  have inner := fun reg (member : reg ∈ periph.registers) name inside =>
    word name (ASTPeripheral.registerNamed member (inside : name ∈ reg.names))
  have struct := @structSlashless periph (List.forall_mem_cons.mpr ⟨word _ List.mem_cons_self,
    List.forall_mem_map.mpr fun reg member => inner reg member _ List.mem_cons_self⟩)
  refine List.forall_mem_append.mpr ⟨struct, List.forall_mem_flatMap.mpr fun reg member => ?_⟩
  unfold registerItems
  simp only [List.forall_mem_append, List.forall_mem_cons, List.forall_mem_map]
  refine ⟨⟨by decide, fun field inside => memberSlashless ?_ (by decide)⟩,
    closeSlashless (@bitfieldCloseLine 0 _ ?_), nofun⟩
  · exact inner reg member _ (ASTRegister.fieldNamed inside)
  · exact inner reg member _ List.mem_cons_self

end devices

theorem bodyRead {program : ASTProgram}
    (identifiers : ∀ periph ∈ program.peripherals, ∀ name ∈ periph.names, CIdentifier name)
    (read : CText.scan CText.fresh (codegenGenerate codegenInit program).2.output =
      ((headerItems program.peripherals).flatMap Item.tokens, CText.fresh)) : Read 0 4 (bodyCalls program.peripherals) := by
  have means : (bodyCalls program.peripherals).flatMap HeaderDeclarations.meant =
      program.peripherals.flatMap deviceItems ++ [.directive "endif ".toList] := by
    unfold bodyCalls
    rw [List.flatMap_append, List.flatMap_assoc,
      List.flatMap_congr fun periph member => deviceMeant (identifiers periph member)]
    rfl
  have worded : ∀ fmt ∈ bodyCalls program.peripherals, Worded fmt := by
    refine List.forall_mem_append.mpr ⟨List.forall_mem_flatMap.mpr fun periph member => ?_, by simp [Worded]⟩
    exact deviceWorded (identifiers periph member)
  refine ⟨fun c mark fmt member => ?_, ?_, ?_⟩
  · cases comment : remark fmt with
    | none => exact lineShares (worded fmt member) comment mark
    | some body => exact commentShares (worded fmt member) comment mark
  · have calls : programCalls program =
        [.fileHeader "bitn source".toList, .includes, .mmioReg true, .helpers] ++ bodyCalls program.peripherals :=
      List.append_assoc ..
    rw [generateLaid, calls, List.flatMap_append, CText.scanAppend, preludeScans] at read
    unfold headerItems at read
    rw [List.flatMap_append] at read
    rw [means]
    have whole := Prod.mk.inj read
    exact Prod.ext (List.append_cancel_left whole.1) whole.2
  · rw [means]
    refine spelledFree (List.forall_mem_append.mpr ⟨List.forall_mem_flatMap.mpr fun periph member => ?_, by decide⟩)
    exact deviceSlashless (identifiers periph member)

section written
variable {peripherals : List ASTPeripheral} {periph : ASTPeripheral} {reg : ASTRegister} (member : periph ∈ peripherals)
  (among : reg ∈ periph.registers)
include member

theorem within {calls : List Format} (part : calls <:+: deviceCalls periph) : calls <:+: bodyCalls peripherals := by
  have device : deviceCalls periph <:+: peripherals.flatMap deviceCalls :=
    List.infix_of_mem_flatten (List.mem_map_of_mem member)
  exact part.trans (List.infix_append_of_infix_left device)

include among in
theorem registerWithin : registerCalls reg <:+: bodyCalls peripherals := by
  obtain ⟨front, back, split⟩ := List.append_of_mem among
  refine within member ⟨peripheralCalls periph ++ (front.flatMap fun reg => registerCalls reg ++ accessorCalls reg),
    accessorCalls reg ++ (back.flatMap fun reg => registerCalls reg ++ accessorCalls reg) ++ [.newline], ?_⟩
  simp [deviceCalls, split]

variable (reads : Read 0 4 (bodyCalls peripherals))
include reads

theorem structWritten : (sanitizeIdentifier periph.name).length ≤ 2029 ∧
    ∀ reg ∈ periph.registers, (sanitizeIdentifier reg.name).length + (hex reg.offset).length ≤ 4069 ∨
      (sanitizeIdentifier reg.name).length ∈ [4084, 4085] := by
  refine reads.struct (within member ⟨[.peripheralComment periph.name, .baseAddress periph.baseAddress],
    (periph.registers.flatMap fun reg => registerCalls reg ++ accessorCalls reg) ++ [.newline], ?_⟩)
  simp [deviceCalls, peripheralCalls, structCalls]

include among

theorem closeWritten : (sanitizeIdentifier reg.name).length ≤ 4081 := by
  have listed : .bitfieldClose (sanitizeIdentifier reg.name) ∈ registerCalls reg := by simp [registerCalls]
  have fits := reads.close ((registerWithin member among).subset listed) (bitfieldCloseLine (sanitizedWord reg.name))
  rw [List.length_append] at fits
  change _ + 11 ≤ 4092 at fits
  omega

theorem countWritten : (decimal reg.fields.length).length ≤ 4083 := by
  have part : [.fieldCount reg.fields.length, .structOpen] <:+: registerCalls reg := by
    refine ⟨[.registerComment reg.name reg.offset], (reg.fields.map fun field =>
      .fieldMember (sanitizeIdentifier field.name)) ++ [.bitfieldClose (sanitizeIdentifier reg.name)], ?_⟩
    simp [registerCalls]
  have fits := reads.comment (part.trans (registerWithin member among)) trivial rfl
  rw [List.length_append] at fits
  change 9 + _ ≤ 4092 at fits
  omega

theorem fieldsWritten : ∀ field ∈ reg.fields, (sanitizeIdentifier field.name).length ≤ 4063 ∨
    (sanitizeIdentifier field.name).length ∈ [4084, 4085] := by
  intro field inside
  have part : (reg.fields.map fun field => .fieldMember (sanitizeIdentifier field.name)) ++
      [.bitfieldClose (sanitizeIdentifier reg.name)] <:+: registerCalls reg := by
    refine ⟨[.registerComment reg.name reg.offset, .fieldCount reg.fields.length, .structOpen], [], ?_⟩
    simp [registerCalls]
  have fits := reads.members (part.trans (registerWithin member among)) (fun (field : ASTField) _ =>
    fieldLine (sanitizedWord field.name)) (bitfieldCloseLine (sanitizedWord reg.name)) field inside
  change _ + 18 ≤ 4081 ∨ _ at fits
  exact fits.imp_left fun fits => by omega

end written

/-! Names and lengths that the declarations need -/

section names
variable {program : ASTProgram} (clean : Clean program.peripherals)
include clean

theorem allWritten (reads : Read 0 4 (bodyCalls program.peripherals)) : ∀ periph ∈ program.peripherals,
    periph.name.length ≤ 2029 ∧ ∀ reg ∈ periph.registers, WrittenRegister reg := by
  intro periph member
  have kept := fun name (inside : name ∈ periph.names) =>
    sanitizeWord (clean.identifiers periph member name inside).1.2.2
  obtain ⟨named, members⟩ := structWritten member reads
  rw [kept _ List.mem_cons_self] at named
  refine ⟨named, fun reg among => ⟨?_, countWritten member among reads, fun field inside => ?_⟩⟩
  · have line := members reg among
    have close := closeWritten member among reads
    rw [kept _ (ASTPeripheral.registerNamed among List.mem_cons_self)] at line close
    simp only [List.mem_cons, List.not_mem_nil, or_false] at line
    omega
  · have line := fieldsWritten member among reads field inside
    rwa [kept _ (ASTPeripheral.registerNamed among (ASTRegister.fieldNamed inside))] at line

theorem scopedSeparate {items : List Item}
    (found : CText.declarations (codegenGenerate codegenInit program).2.output = some items)
    (means : Scoped program.peripherals items) : Separate program.peripherals := by
  have identifiers := fun periph member name inside => (clean.identifiers periph member name inside).1
  obtain ⟨rfl, once, members⟩ := means
  rw [headerDeclares identifiers] at once members
  obtain ⟨registers, suffixes, pointers⟩ := (onceSeparate clean.distinct).mp once
  obtain ⟨fixed, own, later⟩ := (membersSeparate _).mp members
  refine ⟨registers, suffixes, fun periph member => ?_, fun periph member name inside => ?_, own, later,
    allWritten clean (bodyRead identifiers (CText.declarationsRead.mp found).1)⟩
  · obtain ⟨name, typedef⟩ := pointers periph member
    rw [fixedNamed, not_or] at name
    exact ⟨name.1, mt suffixFixed.mpr typedef⟩
  · rcases List.mem_cons.mp inside with rfl | inside
    · exact fun reserved => (pointers periph member).1 ((fixedNamed _).mpr (.inr reserved))
    · exact fixed periph member name inside

theorem separateScoped (separate : Separate program.peripherals) :
    ∃ items, CText.declarations (codegenGenerate codegenInit program).2.output = some items ∧
      Scoped program.peripherals items := by
  have identifiers := fun periph member name inside => (clean.identifiers periph member name inside).1
  obtain ⟨registers, suffixes, standard, fixed, own, later, written⟩ := separate
  refine ⟨headerItems program.peripherals,
    CText.declarationsRead.mpr ⟨headerGives identifiers written, headerFormed identifiers⟩, rfl, ?_, ?_⟩
  · rw [headerDeclares identifiers]
    refine (onceSeparate clean.distinct).mpr ⟨registers, suffixes, fun periph member => ?_⟩
    rw [fixedNamed, not_or]
    exact ⟨⟨(standard periph member).1, fixed periph member _ List.mem_cons_self⟩,
      mt suffixFixed.mp (standard periph member).2⟩
  · rw [headerDeclares identifiers]
    exact (membersSeparate _).mpr
      ⟨fun periph member name inside => fixed periph member name (List.mem_cons_of_mem _ inside), own, later⟩

end names

/-- The header, read from its text, declares what it is to declare exactly when names are apart in the whole
program and none of them is too long. -/
theorem headerScoped (program : ASTProgram) (clean : Clean program.peripherals) :
    (∃ items, CText.declarations (codegenGenerate codegenInit program).2.output = some items ∧
      Scoped program.peripherals items) ↔ Separate program.peripherals :=
  ⟨fun ⟨_, found, means⟩ => scopedSeparate clean found means, separateScoped clean⟩

theorem uartScoped : ∃ items, CText.declarations
      (codegenGenerate codegenInit ⟨[], [uart "UART0".toList 0x40034000]⟩).2.output = some items ∧
    Scoped [uart "UART0".toList 0x40034000] items :=
  (headerScoped ⟨[], [uart "UART0".toList 0x40034000]⟩ ⟨by decide, by decide, by decide, by decide⟩).mpr
    ⟨by decide, by decide, by decide +kernel, by decide +kernel, by decide, by decide, by decide⟩

theorem uartsClash : Clean [uart "UART0".toList 0x40034000, uart "UART1".toList 0x40038000] ∧
    ¬ ∃ items, CText.declarations (codegenGenerate codegenInit
        ⟨[], [uart "UART0".toList 0x40034000, uart "UART1".toList 0x40038000]⟩).2.output = some items ∧
      Scoped [uart "UART0".toList 0x40034000, uart "UART1".toList 0x40038000] items := by
  have clean : Clean [uart "UART0".toList 0x40034000, uart "UART1".toList 0x40038000] :=
    ⟨by decide, by decide, by decide, by decide⟩
  refine ⟨clean, fun ⟨items, found, means⟩ => ?_⟩
  have separate := @scopedSeparate ⟨[], _⟩ clean items found means
  exact absurd separate.registers (by decide)

end BitN.HeaderMeaning
