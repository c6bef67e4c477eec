import BitN.Codegen

/-! Which calls of `codegen_write` the generator makes, as lists: they depend on the program
alone, not on the context. -/
namespace BitN.CodegenCalls

theorem putKeeps (ctx : CodegenContext) (atLineStart : Bool) (text : CString) :
    (codegenPut ctx atLineStart text).calls = ctx.calls ∧
      (codegenPut ctx atLineStart text).useVolatile = ctx.useVolatile := by
  induction text generalizing ctx atLineStart with
  | nil => exact ⟨rfl, rfl⟩
  | cons c cs ih =>
    rw [codegenPut]
    obtain ⟨calls, volatile⟩ := ih _ _
    rw [calls, volatile]
    dsimp only
    split <;> exact ⟨rfl, rfl⟩

@[simp] theorem writeCalls (ctx : CodegenContext) (fmt : Format) :
    (codegenWrite ctx fmt).calls = ctx.calls ++ [fmt] := by
  unfold codegenWrite codegenPrint
  dsimp only
  rw [(putKeeps _ _ _).1]

@[simp] theorem writeVolatile (ctx : CodegenContext) (fmt : Format) :
    (codegenWrite ctx fmt).useVolatile = ctx.useVolatile := (putKeeps _ _ _).2

theorem foldCalls {α : Type} {step : CodegenContext → α → CodegenContext} {made : α → List Format}
    (each : ∀ ctx a, (step ctx a).calls = ctx.calls ++ made a) (items : List α) (ctx : CodegenContext) :
    (items.foldl step ctx).calls = ctx.calls ++ items.flatMap made := by
  induction items generalizing ctx with
  | nil => simp
  | cons a items ih => rw [List.foldl_cons, ih, each, List.flatMap_cons, List.append_assoc]

theorem loopCalls {α : Type} (call : α → Format) (items : List α) (ctx : CodegenContext) :
    (items.foldl (fun ctx a => codegenWrite ctx (call a)) ctx).calls = ctx.calls ++ items.map call := by
  rw [foldCalls (fun ctx a => writeCalls ctx (call a)), ← List.map_eq_flatMap]

def memberCall (reg : ASTRegister) : Format := .member (sanitizeIdentifier reg.name) reg.offset

def peripheralCalls (periph : ASTPeripheral) : List Format :=
  [.peripheralComment periph.name, .baseAddress periph.baseAddress, .structOpen] ++ periph.registers.map memberCall ++
    [.structClose (sanitizeIdentifier periph.name),
      .pointerMacro (sanitizeIdentifier periph.name) periph.baseAddress]

def registerCalls (reg : ASTRegister) : List Format :=
  [.registerComment reg.name reg.offset, .fieldCount reg.fields.length, .structOpen] ++
    reg.fields.map (fun field => .fieldMember (sanitizeIdentifier field.name)) ++
    [.bitfieldClose (sanitizeIdentifier reg.name)]

def accessorCalls (reg : ASTRegister) : List Format :=
  reg.fields.map fun field => .fieldAccessor (sanitizeIdentifier field.name)

def deviceCalls (periph : ASTPeripheral) : List Format :=
  peripheralCalls periph ++ (periph.registers.flatMap fun reg => registerCalls reg ++ accessorCalls reg) ++ [.newline]

def programCalls (program : ASTProgram) : List Format :=
  [.fileHeader "bitn source".toList, .includes, .mmioReg true, .helpers] ++ program.peripherals.flatMap deviceCalls ++
    [.fileFooter]

theorem peripheralMakes (ctx : CodegenContext) (periph : ASTPeripheral) :
    (codegenPeripheral ctx periph).2.calls = ctx.calls ++ peripheralCalls periph := by
  simp [codegenPeripheral, codegenMembers, loopCalls memberCall, peripheralCalls, ← memberCall.eq_1]

theorem registerMakes (ctx : CodegenContext) (reg : ASTRegister) :
    (codegenRegister ctx reg).2.calls = ctx.calls ++ registerCalls reg := by
  simp [codegenRegister, registerCalls, loopCalls fun field : ASTField => .fieldMember (sanitizeIdentifier field.name)]

theorem accessorsMake (ctx : CodegenContext) (reg : ASTRegister) :
    (codegenFieldAccessors ctx reg).2.calls = ctx.calls ++ accessorCalls reg := by
  rw [codegenFieldAccessors, accessorCalls]
  split
  · rename_i none
    simp [List.isEmpty_iff.mp none]
  · exact loopCalls (fun field : ASTField => .fieldAccessor (sanitizeIdentifier field.name)) reg.fields ctx

theorem deviceMakes (ctx : CodegenContext) (periph : ASTPeripheral) :
    (codegenDevice ctx periph).calls = ctx.calls ++ deviceCalls periph := by
  have registers := @foldCalls _ (fun ctx reg => (codegenFieldAccessors (codegenRegister ctx reg).2 reg).2)
    (fun reg => registerCalls reg ++ accessorCalls reg)
    (fun ctx reg => by rw [accessorsMake, registerMakes, List.append_assoc]) periph.registers
  rw [codegenDevice, writeCalls, registers, peripheralMakes, deviceCalls, List.append_assoc, List.append_assoc,
    List.append_assoc]

theorem generateMakes (program : ASTProgram) : (codegenGenerate codegenInit program).2.calls =
    programCalls program := by
  have header : (codegenHelpers (codegenFileHeader codegenInit "bitn source".toList)).2.calls =
      [.fileHeader "bitn source".toList, .includes, .mmioReg true, .helpers] := by
    simp [codegenHelpers, codegenFileHeader, codegenInit]
  rw [codegenGenerate]
  dsimp only
  rw [codegenFileFooter, writeCalls, foldCalls deviceMakes, header, programCalls]

end BitN.CodegenCalls
