import BitN.HeaderLines

/-! A header read back: its structs with their members, its guard and its braces. -/
namespace BitN.HeaderReading

open CodegenCalls CodegenText HeaderNames HeaderScope HeaderLines Texts

structure Member where
  type : CString
  name : CString
  deriving DecidableEq

structure Struct where
  name : CString
  members : List Member
  deriving DecidableEq

-- Four blanks, a type, a blank and a name up to the semicolon.
def readMember (line : CString) : Option Member :=
  if line.take 4 = "    ".toList then
    let declaration := line.drop 4
    some ⟨declaration.takeWhile (· ≠ ' '), ((declaration.dropWhile (· ≠ ' ')).drop 1).takeWhile (· ≠ ';')⟩
  else none

def readClose (line : CString) : Option CString :=
  if line.take 2 = "\x7d ".toList then some ((line.drop 2).takeWhile (· ≠ ';')) else none

/-- The structs of a file, with the members of the one that is open. Each is to be closed, and to
have nothing but members in it. -/
def structs : Option (List Member) → List CString → Option (List Struct)
  | none, [] => some []
  | some _, [] => none
  | none, line :: lines => if line = structLine then structs (some []) lines else structs none lines
  | some members, line :: lines =>
    if (readClose line).isSome then
      (structs none lines).map (⟨(readClose line).getD [], members⟩ :: ·)
    else (readMember line).bind fun member => structs (some (members ++ [member])) lines

-- #if, #ifdef, #ifndef, #else, #elif and #endif
def directives (lines : List CString) : List CString :=
  lines.filter fun line => line.take 3 ∈ ["#if".toList, "#el".toList, "#en".toList]

def deviceStructs (periph : ASTPeripheral) : List Struct :=
  ⟨periph.name ++ "_t".toList, periph.registers.map fun reg => ⟨"MMIO_REG".toList, reg.name⟩⟩ ::
    periph.registers.map fun reg =>
      ⟨reg.name ++ "_bitfield_t".toList, reg.fields.map fun field => ⟨"uint32_t".toList, field.name⟩⟩

/-- What the generator leaves of a program. -/
structure Complete (program : ASTProgram) (after : CodegenContext) : Prop where
  level : after.indentLevel = codegenInit.indentLevel
  text : after.output = (programCalls program).flatMap written
  braces : nesting '\x7b' '\x7d' 0 after.output = some 0
  guards : directives (after.output.splitOn '\n') = [guardLine, endLine]
  last : [endLine, []] <:+ after.output.splitOn '\n'
  structs : structs none (after.output.splitOn '\n') = some (program.peripherals.flatMap deviceStructs)

/-! Reading -/

theorem structsSkip {lines : List CString} (none : ∀ line ∈ lines, line.head? ≠ some 't') (rest : List CString) :
    structs .none (lines ++ rest) = structs .none rest := by
  induction lines with
  | nil => rfl
  | cons line lines ih =>
    have other : line ≠ structLine := by
      intro same
      refine none line List.mem_cons_self ?_
      rw [same]
      rfl
    rw [List.cons_append, structs, if_neg other]
    exact ih fun line' member => none line' (List.mem_cons_of_mem line member)

theorem structsMembers {α : Type} {items : List α} {made : α → CString} {member : α → Member} (each : ∀ a ∈ items,
      readClose (made a) = none ∧ readMember (made a) = some (member a)) (members : List Member) (rest : List CString) :
    structs (some members) (items.map made ++ rest) = structs (some (members ++ items.map member)) rest := by
  induction items generalizing members with
  | nil => rw [List.map_nil, List.map_nil, List.nil_append, List.append_nil]
  | cons a items ih =>
    obtain ⟨noClose, read⟩ := each a List.mem_cons_self
    rw [List.map_cons, List.cons_append, structs, noClose, if_neg (by decide), read, Option.bind_some,
      ih fun b inside => each b (List.mem_cons_of_mem a inside), List.append_assoc]
    rfl

theorem structsClose {line name : CString} (closes : readClose line = some name) (members : List Member)
    (rest : List CString) :
    structs (some members) (line :: rest) = (structs none rest).map (⟨name, members⟩ :: ·) := by
  rw [structs, closes]
  rfl

theorem headOther {fmt : Format} (named : ∀ name ∈ formatNames fmt, name ≠ []) (other : fmt ≠ .structOpen) :
    ∀ line ∈ callLines fmt, line.head? ≠ some 't' := by
  intro line member head
  have start : line.take 3 ∈ lineStarts fmt := callStarts named ▸ List.mem_map_of_mem member
  have same : (line.take 3).head? = some 't' := by
    cases line with
    | nil => cases head
    | cons c cs => exact head
  have heads : ∀ start ∈ lineStarts fmt, start.head? ≠ some 't' := by
    cases fmt with
    | structOpen => exact absurd rfl other
    | structClose name | bitfieldClose name => simp [lineStarts]
    | _ =>
      dsimp only [lineStarts]
      decide
  exact heads _ start same

theorem noDirectives {fmt : Format} (named : ∀ name ∈ formatNames fmt, name ≠ []) (notGuard : fmt ≠ .includes)
    (notEnd : fmt ≠ .fileFooter) : directives (callLines fmt) = [] := by
  unfold directives
  refine List.filter_eq_nil_iff.mpr fun line member directive => ?_
  have start : line.take 3 ∈ lineStarts fmt := callStarts named ▸ List.mem_map_of_mem member
  have plain : ∀ start ∈ lineStarts fmt, start ∉ ["#if".toList, "#el".toList, "#en".toList] := by
    cases fmt with
    | includes => exact absurd rfl notGuard
    | fileFooter => exact absurd rfl notEnd
    | structClose name | bitfieldClose name => simp [lineStarts]
    | _ =>
      dsimp only [lineStarts]
      decide
  exact plain _ start (of_decide_eq_true directive)

theorem declarationRead {type name : CString} (one : ' ' ∉ type) (ends : ';' ∉ name) (rest : CString) :
    readMember ("    ".toList ++ (type ++ ' ' :: (name ++ ';' :: rest))) = some ⟨type, name⟩ := by
  have start : ("    ".toList ++ (type ++ ' ' :: (name ++ ';' :: rest))).take 4 = "    ".toList := rfl
  have declaration : ("    ".toList ++ (type ++ ' ' :: (name ++ ';' :: rest))).drop 4 =
      type ++ ' ' :: (name ++ ';' :: rest) := rfl
  unfold readMember
  rw [if_pos start, declaration]
  dsimp only
  rw [(untilStop one _).1, (untilStop one _).2, List.drop_one, List.tail_cons, (untilStop ends _).1]

theorem closeRead {name : CString} (suffix : CString) (ends : ';' ∉ name ++ suffix) :
    readClose ("\x7d ".toList ++ name ++ (suffix ++ ";".toList)) = some (name ++ suffix) := by
  have all : ∀ c ∈ name ++ suffix, decide (c ≠ ';') = true := fun c member =>
    decide_eq_true fun same => ends (same ▸ member)
  have label : ("\x7d ".toList ++ name ++ (suffix ++ ";".toList)).drop 2 = name ++ suffix ++ ";".toList :=
    (List.append_assoc name suffix _).symm
  have start : ("\x7d ".toList ++ name ++ (suffix ++ ";".toList)).take 2 = "\x7d ".toList := rfl
  unfold readClose
  rw [if_pos start, label, List.takeWhile_append_of_pos all]
  simp

theorem wordEnds {name : CString} (word : ∀ c ∈ name, isWord c = true) : ';' ∉ name := fun inside =>
  absurd (word _ inside) (by decide)

/-- From these calls a reader has these structs. -/
def Reads (calls : List Format) (found : List Struct) : Prop :=
  ∀ rest, structs none (calls.flatMap callLines ++ rest) = (structs none rest).map (found ++ ·)

theorem Reads.append {calls calls' : List Format} {found found' : List Struct} (first : Reads calls found)
    (second : Reads calls' found') : Reads (calls ++ calls') (found ++ found') := by
  intro rest
  rw [List.flatMap_append, List.append_assoc, first, second, Option.map_map]
  exact congrArg (Option.map · _) (funext fun structs => (List.append_assoc ..).symm)

theorem readsAll {α : Type} {items : List α} {calls : α → List Format} {found : α → List Struct}
    (each : ∀ a ∈ items, Reads (calls a) (found a)) : Reads (items.flatMap calls) (items.flatMap found) := by
  induction items with
  | nil => exact fun rest => Option.map_id'.symm
  | cons a items ih =>
    rw [List.flatMap_cons, List.flatMap_cons]
    exact (each a List.mem_cons_self).append (ih fun b member => each b (List.mem_cons_of_mem a member))

theorem readsNothing {calls : List Format}
    (other : ∀ fmt ∈ calls, fmt ≠ .structOpen ∧ ∀ name ∈ formatNames fmt, name ≠ []) : Reads calls [] := by
  intro rest
  have heads : ∀ line ∈ calls.flatMap callLines, line.head? ≠ some 't' := by
    intro line member
    obtain ⟨fmt, made, inside⟩ := List.mem_flatMap.mp member
    exact headOther (other fmt made).2 (other fmt made).1 line inside
  rw [structsSkip heads]
  exact Option.map_id'.symm

theorem readsStruct {α : Type} {items : List α} {call : α → Format} {made : α → CString} {member : α → Member}
    {close : Format} {line name : CString} (lines : ∀ a ∈ items, callLines (call a) = [made a])
    (each : ∀ a ∈ items, readClose (made a) = none ∧ readMember (made a) = some (member a))
    (closed : callLines close = [line, []]) (closes : readClose line = some name) :
    Reads ([.structOpen] ++ items.map call ++ [close]) [⟨name, items.map member⟩] := by
  intro rest
  have inside : (items.map call).flatMap callLines = items.map made := by
    rw [List.flatMap_map, List.map_eq_flatMap]
    exact List.flatMap_congr lines
  have last : [close].flatMap callLines = [line, []] := by
    rw [List.flatMap_singleton]
    exact closed
  have blank : structs none ([] :: rest) = structs none rest := @structsSkip [[]] (by simp) rest
  rw [List.flatMap_append, List.flatMap_append, inside, last, List.append_assoc, List.append_assoc]
  change structs none (structLine :: (items.map made ++ line :: [] :: rest)) = _
  rw [structs, if_pos rfl, structsMembers each, structsClose closes, blank, List.nil_append]
  rfl

theorem peripheralReads {periph : ASTPeripheral} (identifiers : ∀ name ∈ periph.names, CIdentifier name) :
    Reads (peripheralCalls periph)
      [⟨periph.name ++ "_t".toList, periph.registers.map fun reg => ⟨"MMIO_REG".toList, reg.name⟩⟩] := by
  have kept : ∀ name ∈ periph.names, sanitizeIdentifier name = name := fun name member =>
    sanitizeWord (identifiers name member).2.2
  have name := identifiers _ List.mem_cons_self
  have members : ∀ reg ∈ periph.registers, readMember ("    ".toList ++ ("MMIO_REG ".toList ++
      sanitizeIdentifier reg.name ++ "; // @ offset 0x".toList ++ hex reg.offset)) =
        some ⟨"MMIO_REG".toList, reg.name⟩ := by
    intro reg inside
    have named := ASTPeripheral.registerNamed inside List.mem_cons_self
    rw [kept _ named, List.append_assoc _ "; // @ offset 0x".toList, List.append_assoc]
    exact declarationRead (show ' ' ∉ "MMIO_REG".toList by decide) (wordEnds (identifiers _ named).2.2) _
  have before : Reads [.peripheralComment periph.name, .baseAddress periph.baseAddress] [] :=
    readsNothing (by simp [formatNames, name.1])
  have struct : Reads ([.structOpen] ++ periph.registers.map memberCall ++ [.structClose periph.name])
      [⟨periph.name ++ "_t".toList, periph.registers.map fun reg => ⟨"MMIO_REG".toList, reg.name⟩⟩] :=
    readsStruct (fun _ _ => rfl) (fun reg inside => ⟨rfl, members reg inside⟩) rfl
      (closeRead "_t".toList (List.not_mem_append (wordEnds name.2.2) (by decide)))
  have after : Reads [.pointerMacro periph.name periph.baseAddress] [] := readsNothing (by simp [formatNames, name.1])
  have all := (before.append struct).append after
  unfold peripheralCalls
  rw [kept _ List.mem_cons_self]
  simpa using all

theorem registerReads {reg : ASTRegister} (identifiers : ∀ name ∈ reg.names, CIdentifier name) :
    Reads (registerCalls reg ++ accessorCalls reg)
      [⟨reg.name ++ "_bitfield_t".toList, reg.fields.map fun field => ⟨"uint32_t".toList, field.name⟩⟩] := by
  have kept : ∀ name ∈ reg.names, sanitizeIdentifier name = name := fun name member =>
    sanitizeWord (identifiers name member).2.2
  have name := identifiers _ List.mem_cons_self
  have members : ∀ field ∈ reg.fields, readMember ("    ".toList ++ ("uint32_t ".toList ++
      sanitizeIdentifier field.name ++ "; // Field placeholder".toList)) = some ⟨"uint32_t".toList, field.name⟩ := by
    intro field inside
    have named := ASTRegister.fieldNamed inside
    rw [kept _ named, List.append_assoc]
    exact declarationRead (show ' ' ∉ "uint32_t".toList by decide) (wordEnds (identifiers _ named).2.2) _
  have before : Reads [.registerComment reg.name reg.offset, .fieldCount reg.fields.length] [] :=
    readsNothing (by simp [formatNames, name.1])
  have struct : Reads ([.structOpen] ++ reg.fields.map (fun field => .fieldMember (sanitizeIdentifier field.name)) ++
        [.bitfieldClose reg.name])
      [⟨reg.name ++ "_bitfield_t".toList, reg.fields.map fun field => ⟨"uint32_t".toList, field.name⟩⟩] :=
    readsStruct (fun _ _ => rfl) (fun field inside => ⟨rfl, members field inside⟩) rfl
      (closeRead "_bitfield_t".toList (List.not_mem_append (wordEnds name.2.2) (by decide)))
  have after : Reads (accessorCalls reg) [] := by
    refine readsNothing fun fmt member => ?_
    obtain ⟨field, inside, rfl⟩ := List.mem_map.mp member
    have named := ASTRegister.fieldNamed inside
    rw [kept _ named]
    simp [formatNames, (identifiers _ named).1]
  have all := (before.append struct).append after
  unfold registerCalls
  rw [kept _ List.mem_cons_self]
  simpa using all

theorem programReads {program : ASTProgram}
    (identifiers : ∀ periph ∈ program.peripherals, ∀ name ∈ periph.names, CIdentifier name) :
    Reads (programCalls program) (program.peripherals.flatMap deviceStructs) := by
  have devices : Reads (program.peripherals.flatMap deviceCalls) (program.peripherals.flatMap deviceStructs) := by
    refine readsAll fun periph member => ?_
    have registers := readsAll fun reg inside => registerReads fun name named =>
      identifiers periph member name (ASTPeripheral.registerNamed inside named)
    have blank : Reads [.newline] [] := readsNothing (by simp [formatNames])
    have all := ((peripheralReads (identifiers periph member)).append registers).append blank
    rw [← List.map_eq_flatMap, List.append_nil] at all
    exact all
  have before : Reads [.fileHeader "bitn source".toList, .includes, .mmioReg true, .helpers] [] :=
    readsNothing (by simp [formatNames])
  have after : Reads [.fileFooter] [] := readsNothing (by simp [formatNames])
  have all := (before.append devices).append after
  rw [List.append_nil, List.nil_append] at all
  exact all

section program
variable {program : ASTProgram} (identifiers : ∀ periph ∈ program.peripherals, ∀ name ∈ periph.names, CIdentifier name)
include identifiers

theorem programDirectives : directives ((programCalls program).flatMap callLines) = [guardLine, endLine] := by
  have devices : directives ((program.peripherals.flatMap deviceCalls).flatMap callLines) = [] := by
    refine List.filter_eq_nil_iff.mpr fun line member => ?_
    obtain ⟨fmt, made, inside⟩ := List.mem_flatMap.mp member
    obtain ⟨periph, declared, made⟩ := List.mem_flatMap.mp made
    obtain ⟨notGuard, notEnd, named⟩ := deviceClean identifiers periph declared fmt made
    have none := noDirectives (fun name member => (named name member).some) notGuard notEnd
    exact List.filter_eq_nil_iff.mp none line inside
  have before : directives ([.fileHeader "bitn source".toList, .includes, .mmioReg true, .helpers].flatMap callLines) =
      [guardLine] := by
    have named := fun fmt member name inside => (preludeClean fmt member name inside).some
    have header := noDirectives (named (.fileHeader "bitn source".toList) (by simp)) (by simp) (by simp)
    have guard : directives (callLines .includes) = [guardLine] := by decide
    have register := noDirectives (named (.mmioReg true) (by simp)) (by simp) (by simp)
    have helpers := noDirectives (named .helpers (by simp)) (by simp) (by simp)
    simp only [List.flatMap_cons, List.flatMap_nil, List.append_nil]
    unfold directives at header guard register helpers ⊢
    rw [List.filter_append, List.filter_append, List.filter_append, header, guard, register, helpers]
    rfl
  have after : directives ([.fileFooter].flatMap callLines) = [endLine] := by decide
  unfold programCalls
  rw [List.flatMap_append, List.flatMap_append]
  unfold directives at devices before after ⊢
  rw [List.filter_append, List.filter_append, before, devices, after]
  rfl

end program

/-- The header of a program is complete, when its names are identifiers and each call fits into its
buffer. -/
theorem headerComplete (program : ASTProgram)
    (identifiers : ∀ periph ∈ program.peripherals, ∀ name ∈ periph.names, CIdentifier name)
    (fits : ∀ fmt ∈ (codegenGenerate codegenInit program).2.calls, fmt.expansion.length ≤ 4095) :
    (codegenGenerate codegenInit program).1 = 0 ∧ Complete program (codegenGenerate codegenInit program).2 := by
  have readable : ∀ periph ∈ program.peripherals, Readable periph := by
    intro periph member
    refine ⟨identifiers periph member, ?_⟩
    refine (deviceWhole periph fun name inside => sanitizeWord (identifiers periph member name inside).2.2).mp ?_
    intro fmt inside
    refine fits fmt ?_
    rw [generateMakes]
    exact List.mem_append_left _ (List.mem_append_right _ (List.mem_flatMap.mpr ⟨periph, member, inside⟩))
  have text : (codegenGenerate codegenInit program).2.output = (programCalls program).flatMap written := by
    rw [headerWrote readable, programCalled identifiers]
  have lines := (programWhole identifiers).split
  rw [← text] at lines
  refine ⟨rfl, (generateWrote program rfl).1, text, ?_, ?_, ?_, ?_⟩
  · rw [text]
    exact programBalanced identifiers 0
  · have directives := programDirectives identifiers
    unfold HeaderReading.directives at directives ⊢
    rw [lines, List.filter_append, directives]
    rfl
  · have footer : [.fileFooter].flatMap callLines = [[], endLine] := rfl
    rw [lines]
    unfold programCalls
    rw [List.flatMap_append, footer, List.append_assoc]
    exact (List.suffix_append [[]] [endLine, []]).trans (List.suffix_append _ _)
  · rw [lines, programReads identifiers]
    exact congrArg some (List.append_nil _)

-- The second peripheral has no register.
def uartAndSio : ASTProgram := ⟨[], [uart "UART0".toList 0x40034000, ⟨"SIO".toList, 0xd0000000, []⟩]⟩

theorem uartAndSioComplete : (codegenGenerate codegenInit uartAndSio).1 = 0 ∧
    Complete uartAndSio (codegenGenerate codegenInit uartAndSio).2 := by
  refine headerComplete uartAndSio (by decide) ?_
  rw [generateMakes]
  exact (headerWhole uartAndSio (by decide)).mpr (by decide)

end BitN.HeaderReading
