import BitN.AcceptedDevices
import BitN.CodegenText
import BitN.Driver
import BitN.ParserTermination
import BitN.TypeInference

/-! What the exit of the driver says of the run. -/
namespace BitN.DriverExit

open CodegenCalls CodegenText Texts

/-- The struct of a peripheral, with a member for each register, as far as each of its lines is shown. -/
def structText (shown : CString → CString) (periph : ASTPeripheral) : CString :=
  Format.structOpen.expansion ++
    periph.registers.flatMap (fun reg =>
      "    ".toList ++ shown (Format.member (sanitizeIdentifier reg.name) reg.offset).expansion) ++
    shown (Format.structClose (sanitizeIdentifier periph.name)).expansion

-- codegen_write's buffer
def buffered (line : CString) : CString := line.take 4095

structure Built (shown : CString → CString) (options : Options) (program : ASTProgram) (outcome : Outcome) : Prop where
  header : outcome.header = some (outputFile options, (codegenGenerate codegenInit program).2.output)
  structs : ∀ periph ∈ program.peripherals, structText shown periph <:+: (codegenGenerate codegenInit program).2.output

structure Parsed (files : Files) (argv : List CString) (options : Options) (program : ASTProgram) (p : Parser) :
    Prop where
  arguments : parseArguments defaultOptions argv = .ok options
  source : ∃ source, loadSource files options = .ok source ∧ Parses source program p

structure Exits (files : Files) (argv : List CString) (outcome : Outcome) : Prop where
  success : .successful ∈ outcome.messages → outcome.status = 0 ∧ ∃ options program p,
    Parsed files argv options program p ∧ p.error = false ∧
      (options.doCodegen = true → program.peripherals ≠ [] → Built buffered options program outcome)
  failure : .successful ∉ outcome.messages → outcome.header = none ∧
    ((∀ options program p, Parsed files argv options program p → p.error = false) → outcome.status ≠ 0)

def structCalls (periph : ASTPeripheral) : List Format :=
  .structOpen :: periph.registers.map memberCall ++ [.structClose (sanitizeIdentifier periph.name)]

theorem structLaid (periph : ASTPeripheral) :
    structText buffered periph = (structCalls periph).flatMap (laid 0 4) := by
  have members : (periph.registers.map memberCall).flatMap (laid 0 4) = periph.registers.flatMap (fun reg =>
      "    ".toList ++ buffered (Format.member (sanitizeIdentifier reg.name) reg.offset).expansion) := by
    rw [List.flatMap_map]
    exact List.flatMap_congr fun reg _ => laidMember (sanitizedWord reg.name) reg.offset
  rw [structCalls, List.flatMap_append, List.flatMap_cons, List.flatMap_singleton, laidOpen,
    laidClose (sanitizedWord periph.name), members]
  rfl

theorem structsWritten (program : ASTProgram) : ∀ periph ∈ program.peripherals,
    structText buffered periph <:+: (codegenGenerate codegenInit program).2.output := by
  intro periph member
  have inside : structCalls periph <:+: peripheralCalls periph := by
    refine ⟨[.peripheralComment periph.name, .baseAddress periph.baseAddress],
      [.pointerMacro (sanitizeIdentifier periph.name) periph.baseAddress], ?_⟩
    unfold structCalls peripheralCalls
    simp
  have device : peripheralCalls periph <:+: deviceCalls periph := by
    unfold deviceCalls
    rw [List.append_assoc]
    exact (List.prefix_append ..).isInfix
  have devices : deviceCalls periph <:+: program.peripherals.flatMap deviceCalls :=
    List.infix_of_mem_flatten (List.mem_map_of_mem member)
  have whole : program.peripherals.flatMap deviceCalls <:+: programCalls program := by
    unfold programCalls
    exact List.infix_append ..
  obtain ⟨before, after, calls⟩ := inside.trans (device.trans (devices.trans whole))
  refine ⟨before.flatMap (laid 0 4), after.flatMap (laid 0 4), ?_⟩
  rw [generateLaid, structLaid, ← List.flatMap_append, ← List.flatMap_append]
  exact congrArg (List.flatMap (laid 0 4)) calls

theorem codeGenerated (files : Files) (options : Options) (program : ASTProgram) :
    generateCode files options program =
      if files.writable (outputFile options) then
        ⟨0, [.parsed, .generating (outputFile options), .generated, .successful],
          some (outputFile options, (codegenGenerate codegenInit program).2.output)⟩
      else ⟨1, [.parsed, .generating (outputFile options), .initFailed], none⟩ := by
  unfold generateCode
  dsimp only
  split
  · exact if_pos rfl
  · rfl

theorem argumentsRefused {options : Options} {argv : List CString} {message : Message}
    (refused : parseArguments options argv = .error message) : message = .noTarget ∨ message = .noCode := by
  fun_induction parseArguments options argv with
  | case1 => cases refused
  | case5 => cases refused; exact .inl rfl
  | case7 => cases refused; exact .inr rfl
  | _ => rename_i ih; exact ih refused

theorem sourceRefused {files : Files} {options : Options} {message : Message}
    (refused : loadSource files options = .error message) : ∃ inputFile, message = .cannotOpen inputFile := by
  unfold loadSource at refused
  split at refused
  · cases refused
  · split at refused
    · cases refused
      exact ⟨_, rfl⟩
    · cases refused

theorem mainCases {files : Files} {fuel : Nat} {argv : List CString} {outcome : Outcome}
    (ran : driverMain files fuel argv = some outcome) :
    (∃ message, message ≠ .successful ∧ outcome = ⟨1, [message], none⟩) ∨
      ∃ options program p, Parsed files argv options program p ∧
        ((p.error = true ∧ outcome = ⟨0, [.parsingFailed], none⟩) ∨
          (p.error = false ∧ outcome = compileProgram files options program)) := by
  unfold driverMain at ran
  rcases arguments : parseArguments defaultOptions argv with message | options
  · rw [arguments] at ran
    refine .inl ⟨message, ?_, (Option.some.inj ran).symm⟩
    rcases argumentsRefused arguments with rfl | rfl <;> decide
  · rw [arguments] at ran
    dsimp only at ran
    rcases loaded : loadSource files options with message | source
    · rw [loaded] at ran
      obtain ⟨inputFile, rfl⟩ := sourceRefused loaded
      exact .inl ⟨.cannotOpen inputFile, nofun, (Option.some.inj ran).symm⟩
    · rw [loaded] at ran
      dsimp only at ran
      rcases parses : parseSource fuel source with ⟨_ | program, p⟩
      · rw [parses] at ran
        cases ran
      · rw [parses] at ran
        dsimp only at ran
        refine .inr ⟨options, program, p, ⟨arguments, source, loaded, fuel, parses⟩, ?_⟩
        split at ran
        · rename_i error
          exact .inl ⟨error, (Option.some.inj ran).symm⟩
        · rename_i clear
          exact .inr ⟨Bool.eq_false_iff.mpr clear, (Option.some.inj ran).symm⟩

theorem compileExits {files : Files} {argv : List CString} {options : Options} {program : ASTProgram} {p : Parser}
    (parsed : Parsed files argv options program p) (clear : p.error = false) :
    Exits files argv (compileProgram files options program) := by
  unfold compileProgram
  split
  · split
    · rw [codeGenerated]
      split
      · refine ⟨fun _ => ⟨rfl, options, program, p, parsed, clear, fun _ _ => ⟨rfl, structsWritten program⟩⟩, fun none => ?_⟩
        exact absurd none (by simp)
      · refine ⟨fun said => absurd said (by simp), fun _ => ⟨rfl, fun _ => Int.one_ne_zero⟩⟩
    · rename_i none
      refine ⟨fun _ => ⟨rfl, options, program, p, parsed, clear, fun _ some => ?_⟩, fun none => absurd none (by simp)⟩
      exact absurd (List.length_pos_iff.mpr some) none
  · rename_i plain
    refine ⟨fun _ => ⟨rfl, options, program, p, parsed, clear, fun compile => absurd compile plain⟩, fun none => ?_⟩
    exact absurd none (by simp)

theorem mainExits {files : Files} {fuel : Nat} {argv : List CString} {outcome : Outcome}
    (ran : driverMain files fuel argv = some outcome) : Exits files argv outcome := by
  rcases mainCases ran with ⟨message, other, rfl⟩ | ⟨options, program, p, parsed, ⟨error, rfl⟩ | ⟨clear, rfl⟩⟩
  · refine ⟨fun said => absurd (List.mem_singleton.mp said).symm other, fun _ => ⟨rfl, fun _ => Int.one_ne_zero⟩⟩
  · refine ⟨fun said => absurd said (by simp), fun _ => ⟨rfl, fun all => ?_⟩⟩
    rw [all options program p parsed] at error
    cases error
  · exact compileExits parsed clear

theorem mainReturns (files : Files) (argv : List CString) : (∃ fuel outcome, driverMain files fuel argv = some outcome) ↔
    ∀ options source, parseArguments defaultOptions argv = .ok options → loadSource files options = .ok source →
      ∃ program p, Parses source program p := by
  unfold driverMain
  rcases parseArguments defaultOptions argv with message | options
  · exact ⟨fun _ _ _ refused => (nomatch refused), fun _ => ⟨0, _, rfl⟩⟩
  · dsimp only
    constructor
    · rintro ⟨fuel, outcome, ran⟩ options source same loaded
      cases same
      rw [loaded] at ran
      dsimp only at ran
      rcases parses : parseSource fuel source with ⟨_ | program, p⟩
      · rw [parses] at ran
        cases ran
      · exact ⟨program, p, fuel, parses⟩
    · intro ends
      rcases loaded : loadSource files options with message | source
      · exact ⟨0, _, rfl⟩
      · obtain ⟨program, p, fuel, parses⟩ := ends options source rfl loaded
        refine ⟨fuel, if p.error then ⟨0, [.parsingFailed], none⟩ else compileProgram files options program, ?_⟩
        dsimp only
        rw [parses]
        dsimp only
        split <;> rfl

/-- The stricter exits: none without the type checker's consent, nor with `--compile` without a header
that has every struct as a whole. -/
structure Trustworthy (files : Files) (argv : List CString) (outcome : Outcome) : Prop where
  success : outcome.status = 0 ∧ .successful ∈ outcome.messages → ∃ options program p,
    Parsed files argv options program p ∧ p.error = false ∧ (checkProgramTypes typeContextCreate program).1 = true ∧
      (options.doCodegen = true → Built id options program outcome)
  failure : ¬ (outcome.status = 0 ∧ .successful ∈ outcome.messages) → outcome.status ≠ 0 ∧ outcome.header = none

def emptyDisk : Files := ⟨fun _ => none, fun _ => true⟩

-- A use of a name that nothing declares.
def undeclared : CString := "fn f()->u8\x7breturn x;\x7d".toList

/-! A device whose name is longer than the buffer -/

def lengthyName : CString := List.replicate 4100 'X'

theorem lengthyWord : ∀ c ∈ lengthyName, isWord c = true := by
  intro c member
  obtain rfl := List.eq_of_mem_replicate member
  decide

def lengthyDevice : ASTPeripheral := ⟨lengthyName, 0, []⟩

theorem lengthyExpressible : ∀ periph ∈ [lengthyDevice], AcceptedDevices.Expressible periph := by
  intro periph member
  obtain rfl := List.mem_singleton.mp member
  have short : ∀ k ∈ keywords, (decide ((4100 : Int) = k.1.length)) = false := by decide
  have length : wrapInt lengthyName.length = 4100 := by
    unfold lengthyName
    rw [List.length_replicate]
    decide
  have plain : lexerKeywordType lengthyName (wrapInt lengthyName.length) = .tokIdentifier := by
    have none : keywords.find? (fun k => wrapInt lengthyName.length = k.1.length && lengthyName.take k.1.length = k.1) =
        none := by
      rw [List.find?_eq_none]
      intro k listed
      rw [length, short k listed]
      simp
    unfold lexerKeywordType
    rw [none]
  refine ⟨fun name named => ?_, fun reg inside => absurd inside List.not_mem_nil⟩
  obtain rfl := List.mem_singleton.mp named
  exact ⟨⟨'X', List.replicate 4099 'X', rfl, .inl (by decide), fun c member =>
    lengthyWord c (List.mem_cons_of_mem 'X' member)⟩, plain⟩

-- peripheral X...X @ 0 { }
def lengthySource : Source := SourceText.spacedSource _ (AcceptedDevices.peripheralsSpelled lengthyExpressible)

theorem sourceBuffered (source : Source) : Source.ofBuffer source.text = source := by
  have whole : source.text.takeWhile (· ≠ '\x00') = source.text := List.takeWhile_eq_self_iff.mpr fun c member =>
    decide_eq_true fun same => source.noNul (same ▸ member)
  unfold Source.ofBuffer
  simp only [whole]

theorem lengthyParsed : ∃ program p name, Parses lengthySource program p ∧ p.error = false ∧
    program.peripherals = [⟨name, 0, []⟩] ∧ lengthyName <+: name := by
  obtain ⟨⟨functions, peripherals⟩, p, parsed, clear, same⟩ := AcceptedDevices.expressibleAccepted lengthyExpressible
  obtain ⟨⟨name, base, registers⟩, rfl, device⟩ := List.map_eq_singleton_iff.mp (congrArg ASTProgram.peripherals same)
  obtain ⟨word, rfl, none⟩ : lexeme name = lengthyName ∧ base = 0 ∧ registers.map (ASTRegister.renamed lexeme) = [] := by
    simpa [ASTPeripheral.lexemes, ASTPeripheral.renamed, lengthyDevice] using device
  obtain rfl := List.map_eq_nil_iff.mp none
  exact ⟨_, p, name, parsed, clear, rfl, word ▸ List.takeWhile_prefix _⟩

theorem lengthyCut {name front : CString} (long : lengthyName <+: name) (free : ';' ∉ front) (rest : CString) :
    ';' ∉ (front ++ (name ++ rest)).take 4095 := by
  obtain ⟨tail, rfl⟩ := long
  have enough : 4095 ≤ (front ++ lengthyName).length := by
    rw [List.length_append, lengthyName, List.length_replicate]
    omega
  rw [List.append_assoc, ← List.append_assoc front, List.take_append_of_le_length enough]
  intro member
  cases List.mem_append.mp (List.mem_of_mem_take member) with
  | inl before => exact free before
  | inr inside => exact absurd (lengthyWord _ inside) (by decide)

theorem sanitizedLengthy {name : CString} (long : lengthyName <+: name) : lengthyName <+: sanitizeIdentifier name := by
  obtain ⟨tail, rfl⟩ := long
  have kept : sanitizeIdentifier (lengthyName ++ tail) = sanitizeIdentifier lengthyName ++ sanitizeIdentifier tail :=
    List.filterMap_append
  rw [kept, HeaderNames.sanitizeWord lengthyWord]
  exact List.prefix_append ..

theorem lengthyHeader {program : ASTProgram} {name : CString} (device : program.peripherals = [⟨name, 0, []⟩])
    (long : lengthyName <+: name) : ';' ∉ (codegenGenerate codegenInit program).2.output := by
  have safe := sanitizedLengthy long
  have free {fmt : Format} (outside : inner fmt = false) (none : ';' ∉ fmt.expansion) : ';' ∉ laid 0 4 fmt := by
    rw [laidFirst outside]
    exact fun member => none (List.mem_of_mem_take member)
  have file : ';' ∉ laid 0 4 (.fileHeader "bitn source".toList) := by
    refine free rfl ?_
    unfold Format.expansion
    exact List.not_mem_append (List.not_mem_append (literalFree (by decide)) (literalFree (by decide)))
      (literalFree (by decide))
  have includes : ';' ∉ laid 0 4 .includes := by
    refine free rfl ?_
    unfold Format.expansion
    dsimp only
    rw [String.toList_append]
    exact List.not_mem_append (literalFree (by decide)) (literalFree (by decide))
  have helpers : ';' ∉ laid 0 4 .helpers := by
    refine free rfl ?_
    unfold Format.expansion
    dsimp only
    rw [String.toList_append, String.toList_append]
    exact List.not_mem_append (List.not_mem_append (literalFree (by decide)) (literalFree (by decide)))
      (literalFree (by decide))
  have base : ';' ∉ laid 0 4 (.baseAddress 0) := by
    refine free rfl (List.not_mem_append (List.not_mem_append (literalFree (by decide)) ?_) (literalFree (by decide)))
    exact fun member => absurd (hex8Word 0 _ member) (by decide)
  have comment : ';' ∉ laid 0 4 (.peripheralComment name) := by
    have text : (Format.peripheralComment name).expansion = "// Peripheral: ".toList ++ (name ++ "\n".toList) :=
      List.append_assoc ..
    rw [laidFirst rfl, text]
    exact lengthyCut long (literalFree (by decide)) _
  have closed : ';' ∉ laid 0 4 (.structClose (sanitizeIdentifier name)) := by
    have text : (Format.structClose (sanitizeIdentifier name)).expansion =
        "\x7d ".toList ++ (sanitizeIdentifier name ++ "_t;\n\n".toList) := List.append_assoc ..
    rw [laidFirst rfl, text]
    exact lengthyCut safe (literalFree (by decide)) _
  have pointer : ';' ∉ laid 0 4 (.pointerMacro (sanitizeIdentifier name) 0) := by
    have text : (Format.pointerMacro (sanitizeIdentifier name) 0).expansion = "#define ".toList ++
        (sanitizeIdentifier name ++ (" ((volatile ".toList ++ sanitizeIdentifier name ++ "_t *)0x".toList ++ hex8 0 ++
          ")\n\n".toList)) := by
      unfold Format.expansion
      simp only [List.append_assoc]
    rw [laidFirst rfl, text]
    exact lengthyCut safe (literalFree (by decide)) _
  have register : ';' ∉ laid 0 4 (.mmioReg true) := free rfl (literalFree (by decide))
  have opened : ';' ∉ laid 0 4 .structOpen := free rfl (literalFree (by decide))
  have newline : ';' ∉ laid 0 4 .newline := free rfl (literalFree (by decide))
  have footer : ';' ∉ laid 0 4 .fileFooter := free rfl (literalFree (by decide))
  have all : ∀ fmt ∈ programCalls program, ';' ∉ laid 0 4 fmt := by
    unfold programCalls
    rw [device, List.flatMap_singleton]
    unfold deviceCalls peripheralCalls
    simp only [List.map_nil, List.flatMap_nil, List.append_nil, List.forall_mem_append, List.forall_mem_cons]
    exact ⟨⟨⟨file, includes, register, helpers, by simp⟩, ⟨⟨comment, base, opened, by simp⟩, closed, pointer, by simp⟩,
      newline, by simp⟩, footer, by simp⟩
  rw [generateLaid]
  intro member
  obtain ⟨fmt, made, inside⟩ := List.mem_flatMap.mp member
  exact all fmt made inside

def lengthyOptions : Options := { defaultOptions with doCodegen := true, source := lengthySource.text }

theorem lengthyExits : ∃ fuel outcome, driverMain emptyDisk fuel ["--compile".toList, "-c".toList, lengthySource.text] =
    some outcome ∧ outcome.status = 0 ∧ .successful ∈ outcome.messages ∧
      ¬ Trustworthy emptyDisk ["--compile".toList, "-c".toList, lengthySource.text] outcome := by
  obtain ⟨program, p, name, ⟨fuel, parses⟩, clear, device, long⟩ := lengthyParsed
  have given : parseArguments defaultOptions ["--compile".toList, "-c".toList, lengthySource.text] =
      .ok lengthyOptions := rfl
  have loaded : loadSource emptyDisk lengthyOptions = .ok lengthySource := congrArg Except.ok (sourceBuffered _)
  refine ⟨fuel, compileProgram emptyDisk lengthyOptions program, ?_, ?_⟩
  · unfold driverMain
    rw [given]
    dsimp only
    rw [loaded]
    dsimp only
    rw [parses]
    dsimp only
    rw [if_neg (by simp [clear])]
  · have some : program.peripherals.length > 0 := by simp [device]
    have compiles : lengthyOptions.doCodegen = true := rfl
    have opens : emptyDisk.writable (outputFile lengthyOptions) = true := rfl
    unfold compileProgram
    rw [if_pos compiles, if_pos some, codeGenerated, if_pos opens]
    refine ⟨rfl, by simp, fun trust => ?_⟩
    obtain ⟨options, program', p', ⟨arguments, source, from_, parsed⟩, -, -, built⟩ := trust.success ⟨rfl, by simp⟩
    obtain rfl := Except.ok.inj (given.symm.trans arguments)
    obtain rfl := Except.ok.inj (loaded.symm.trans from_)
    obtain rfl := (ParserRun.parsesUnique parsed ⟨fuel, parses⟩).1
    have struct := (built rfl).structs ⟨name, 0, []⟩ (by simp [device])
    refine lengthyHeader device long (struct.subset (List.mem_append_right _ ?_))
    exact List.mem_append_right _ (by simp)

end BitN.DriverExit
