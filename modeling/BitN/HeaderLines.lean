import BitN.CodegenWrite

/-! What each call writes, by its lines and its braces. -/
namespace BitN.HeaderLines

open CodegenCalls CodegenText HeaderNames HeaderScope Texts

def structLine : CString := "typedef struct \x7b".toList

def guardLine : CString := "#ifndef __BITN_GENERATED_H".toList

def endLine : CString := "#endif // __BITN_GENERATED_H".toList

/-- The text of a call: four blanks more for a member. -/
def written : Format → CString
  | .member name offset => "    ".toList ++ (Format.member name offset).expansion
  | .fieldMember name => "    ".toList ++ (Format.fieldMember name).expansion
  | fmt => fmt.expansion

/-! The text by calls -/

theorem registerCalled {reg : ASTRegister} (kept : ∀ name ∈ reg.names, sanitizeIdentifier name = name) :
    (registerCalls reg ++ accessorCalls reg).flatMap written = registerText reg := by
  have members : (reg.fields.map fun field => Format.fieldMember (sanitizeIdentifier field.name)).flatMap written =
      reg.fields.flatMap fieldText := by
    rw [List.flatMap_map]
    refine List.flatMap_congr fun field member => ?_
    unfold written Format.expansion fieldText
    simp only [kept _ (ASTRegister.fieldNamed member), List.append_assoc]
  have accessors : (accessorCalls reg).flatMap written = reg.fields.flatMap accessorText := by
    unfold accessorCalls
    rw [List.flatMap_map]
    refine List.flatMap_congr fun field member => ?_
    unfold written Format.expansion accessorText
    simp only [kept _ (ASTRegister.fieldNamed member)]
  unfold registerCalls
  rw [kept _ List.mem_cons_self, List.flatMap_append, List.flatMap_append, List.flatMap_append, members, accessors]
  simp only [List.flatMap_cons, List.flatMap_nil]
  unfold written registerText Format.expansion
  simp only [List.append_assoc, List.append_nil]

theorem peripheralCalled {periph : ASTPeripheral} (kept : ∀ name ∈ periph.names, sanitizeIdentifier name = name) :
    (peripheralCalls periph).flatMap written = peripheralText periph := by
  have members : (periph.registers.map memberCall).flatMap written = periph.registers.flatMap memberText := by
    rw [List.flatMap_map]
    refine List.flatMap_congr fun reg member => ?_
    unfold memberCall written Format.expansion memberText
    simp only [kept _ (ASTPeripheral.registerNamed member List.mem_cons_self), List.append_assoc]
  unfold peripheralCalls
  rw [kept _ List.mem_cons_self, List.flatMap_append, List.flatMap_append, members]
  simp only [List.flatMap_cons, List.flatMap_nil]
  unfold written peripheralText Format.expansion
  simp only [List.append_assoc, List.append_nil]

theorem programCalled {program : ASTProgram}
    (identifiers : ∀ periph ∈ program.peripherals, ∀ name ∈ periph.names, CIdentifier name) :
    (programCalls program).flatMap written = headerText program.peripherals := by
  have devices : (program.peripherals.flatMap deviceCalls).flatMap written = program.peripherals.flatMap deviceText := by
    rw [List.flatMap_assoc]
    refine List.flatMap_congr fun periph member => ?_
    have kept : ∀ name ∈ periph.names, sanitizeIdentifier name = name := fun name inside =>
      sanitizeWord (identifiers periph member name inside).2.2
    unfold deviceCalls deviceText
    rw [List.flatMap_append, List.flatMap_append, peripheralCalled kept, List.flatMap_assoc,
      List.flatMap_congr fun reg inside =>
        registerCalled fun name named => kept name (ASTPeripheral.registerNamed inside named), List.append_assoc]
    rfl
  unfold programCalls headerText prelude
  rw [List.flatMap_append, List.flatMap_append, devices]
  simp only [List.flatMap_cons, List.flatMap_nil]
  unfold written
  simp only [List.append_assoc, List.append_nil]

/-! Lines of a call -/

def callLines : Format → List CString
  | .fileHeader sourceFile => ["/**".toList, " * Auto-generated from: ".toList ++ sourceFile,
      " * Generated by bit(N) compiler".toList, " * DO NOT EDIT MANUALLY".toList, " */".toList, []]
  | .includes => [guardLine, "#define __BITN_GENERATED_H".toList, [], "#include <stdint.h>".toList,
      "#include <stdbool.h>".toList, []]
  | .mmioReg true => ["#define MMIO_REG volatile uint32_t".toList, []]
  | .mmioReg false => ["#define MMIO_REG uint32_t".toList, []]
  | .fileFooter => [[], endLine]
  | .peripheralComment name => ["// Peripheral: ".toList ++ name]
  | .baseAddress base => ["// Base Address: 0x".toList ++ hex8 base]
  | .structOpen => [structLine]
  | .member name offset => ["    ".toList ++ ("MMIO_REG ".toList ++ name ++ "; // @ offset 0x".toList ++ hex offset)]
  | .structClose name => ["\x7d ".toList ++ name ++ "_t;".toList, []]
  | .pointerMacro name base => ["#define ".toList ++ name ++ " ((volatile ".toList ++ name ++ "_t *)0x".toList ++
      hex8 base ++ ")".toList, []]
  | .registerComment name offset => ["// Register: ".toList ++ name ++ " (Offset: 0x".toList ++ hex offset ++ ")".toList]
  | .fieldCount count => ["// Fields: ".toList ++ decimal count]
  | .fieldMember name => ["    ".toList ++ ("uint32_t ".toList ++ name ++ "; // Field placeholder".toList)]
  | .bitfieldClose name => ["\x7d ".toList ++ name ++ "_bitfield_t;".toList, []]
  | .fieldAccessor name => ["// Field accessor for ".toList ++ name]
  | .helpers => ["// Utility Macros".toList, "#define BIT_SET(reg, bit) ((reg) |= (1U << (bit)))".toList,
      "#define BIT_CLR(reg, bit) ((reg) &= ~(1U << (bit)))".toList,
      "#define BIT_TST(reg, bit) ((reg) & (1U << (bit)))".toList,
      "#define BIT_TGL(reg, bit) ((reg) ^= (1U << (bit)))".toList, []]
  | .newline => [[]]

def formatNames : Format → List CString
  | .fileHeader name | .peripheralComment name | .member name _ | .structClose name | .pointerMacro name _
  | .registerComment name _ | .fieldMember name | .bitfieldClose name | .fieldAccessor name => [name]
  | _ => []

theorem wholeLiteral (lines : List String) (text : String) (free : ∀ line ∈ lines, '\n' ∉ line.toList)
    (same : lines.foldr (fun line text => line ++ "\n" ++ text) "" = text) :
    Whole '\n' (lines.map String.toList) text.toList := by
  subst same
  induction lines with
  | nil =>
    refine ⟨fun line member => ?_, rfl⟩
    cases member
  | cons line lines ih =>
    have rest := ih fun other member => free other (List.mem_cons_of_mem line member)
    rw [List.map_cons, List.foldr_cons, String.toList_append, String.toList_append]
    exact (wholeLine (free line List.mem_cons_self)).append rest

theorem wholeBlank {line : CString} (free : '\n' ∉ line) : Whole '\n' [line, []] (line ++ ['\n', '\n']) := by
  have blank : Whole '\n' [[]] ['\n'] := wholeLine List.not_mem_nil
  have both := (wholeLine free).append blank
  rwa [List.append_assoc] at both

theorem fileHeaderWhole {sourceFile : CString} (free : '\n' ∉ sourceFile) :
    Whole '\n' (callLines (.fileHeader sourceFile)) (written (.fileHeader sourceFile)) := by
  have first := wholeLiteral ["/**"] "/**\n" (by decide) (by decide)
  have second : Whole '\n' [" * Auto-generated from: ".toList ++ sourceFile]
      (" * Auto-generated from: ".toList ++ sourceFile ++ "\n".toList) :=
    wholeLine (List.not_mem_append (by decide) free)
  have rest := wholeLiteral [" * Generated by bit(N) compiler", " * DO NOT EDIT MANUALLY", " */", ""]
    " * Generated by bit(N) compiler\n * DO NOT EDIT MANUALLY\n */\n\n" (by decide) (by decide)
  have front : "/**\n * Auto-generated from: " = "/**\n" ++ " * Auto-generated from: " := by decide
  have back : "\n * Generated by bit(N) compiler\n * DO NOT EDIT MANUALLY\n */\n\n" =
      "\n" ++ " * Generated by bit(N) compiler\n * DO NOT EDIT MANUALLY\n */\n\n" := by decide
  have all := first.append (second.append rest)
  unfold written Format.expansion
  dsimp only
  rw [front, back, String.toList_append, String.toList_append]
  simp only [List.append_assoc] at all ⊢
  exact all

theorem helpersWhole : Whole '\n' (callLines .helpers) (written .helpers) := by
  have free {cs cs' : List Char} (first : '\n' ∉ cs) (second : '\n' ∉ cs') :
      ∀ line ∈ [String.ofList cs, String.ofList cs'], '\n' ∉ line.toList := by
    simp only [List.forall_mem_cons]
    exact ⟨literalFree first, literalFree second, List.forall_mem_nil _⟩
  have set := wholeLiteral ["// Utility Macros", "#define BIT_SET(reg, bit) ((reg) |= (1U << (bit)))"]
    "// Utility Macros\n#define BIT_SET(reg, bit) ((reg) |= (1U << (bit)))\n" (free (by decide) (by decide)) (by decide)
  have clear := wholeLiteral ["#define BIT_CLR(reg, bit) ((reg) &= ~(1U << (bit)))",
    "#define BIT_TST(reg, bit) ((reg) & (1U << (bit)))"]
    "#define BIT_CLR(reg, bit) ((reg) &= ~(1U << (bit)))\n#define BIT_TST(reg, bit) ((reg) & (1U << (bit)))\n"
    (free (by decide) (by decide)) (by decide)
  have toggle := wholeLiteral ["#define BIT_TGL(reg, bit) ((reg) ^= (1U << (bit)))", ""]
    "#define BIT_TGL(reg, bit) ((reg) ^= (1U << (bit)))\n\n" (free (by decide) (by decide)) (by decide)
  have all := (set.append clear).append toggle
  rw [← String.toList_append, ← String.toList_append] at all
  exact all

theorem callWhole {fmt : Format} (oneLine : ∀ name ∈ formatNames fmt, '\n' ∉ name) :
    Whole '\n' (callLines fmt) (written fmt) := by
  have digits : ∀ n : UInt32, '\n' ∉ hex8 n := by
    intro n
    unfold hex8 List.leftpad
    refine List.not_mem_append (fun inside => ?_) (hexLine n)
    exact absurd (List.eq_of_mem_replicate inside) (by decide)
  cases fmt with
  | fileHeader => exact fileHeaderWhole (oneLine _ List.mem_cons_self)
  | includes =>
    refine wholeLiteral ["#ifndef __BITN_GENERATED_H", "#define __BITN_GENERATED_H", "", "#include <stdint.h>",
      "#include <stdbool.h>", ""] _ ?_ (by decide)
    simp only [List.forall_mem_cons]
    exact ⟨literalFree (by decide), literalFree (by decide), literalFree (by decide), literalFree (by decide),
      literalFree (by decide), literalFree (by decide), List.forall_mem_nil _⟩
  | mmioReg useVolatile => cases useVolatile <;> exact ⟨by decide, by decide⟩
  | fileFooter => exact ⟨by decide, by decide⟩
  | peripheralComment name =>
    exact wholeLine (List.not_mem_append (literalFree (by decide)) (oneLine name List.mem_cons_self))
  | baseAddress base => exact wholeLine (List.not_mem_append (literalFree (by decide)) (digits base))
  | structOpen => exact ⟨by decide, by decide⟩
  | member name offset =>
    have free : '\n' ∉ "MMIO_REG ".toList ++ name ++ "; // @ offset 0x".toList ++ hex offset := by
      simp only [List.mem_append, not_or]
      exact ⟨⟨⟨literalFree (by decide), oneLine name List.mem_cons_self⟩, literalFree (by decide)⟩, hexLine offset⟩
    have line := wholeLine (List.not_mem_append (show '\n' ∉ "    ".toList from literalFree (by decide)) free)
    rwa [List.append_assoc "    ".toList] at line
  | structClose name =>
    have free : '\n' ∉ "\x7d ".toList ++ name ++ "_t;".toList := by
      simp only [List.mem_append, not_or]
      exact ⟨⟨literalFree (by decide), oneLine name List.mem_cons_self⟩, literalFree (by decide)⟩
    have line := wholeBlank free
    rwa [List.append_assoc _ "_t;".toList] at line
  | pointerMacro name base =>
    have named := oneLine name List.mem_cons_self
    have free : '\n' ∉ "#define ".toList ++ name ++ " ((volatile ".toList ++ name ++ "_t *)0x".toList ++ hex8 base ++
        ")".toList := by
      simp only [List.mem_append, not_or]
      exact ⟨⟨⟨⟨⟨⟨literalFree (by decide), named⟩, literalFree (by decide)⟩, named⟩, literalFree (by decide)⟩,
        digits base⟩, literalFree (by decide)⟩
    have line := wholeBlank free
    rwa [List.append_assoc _ ")".toList] at line
  | registerComment name offset =>
    have free : '\n' ∉ "// Register: ".toList ++ name ++ " (Offset: 0x".toList ++ hex offset ++ ")".toList := by
      simp only [List.mem_append, not_or]
      exact ⟨⟨⟨⟨literalFree (by decide), oneLine name List.mem_cons_self⟩, literalFree (by decide)⟩, hexLine offset⟩,
        literalFree (by decide)⟩
    have line := wholeLine free
    rwa [List.append_assoc _ ")".toList] at line
  | fieldCount count =>
    refine wholeLine (List.not_mem_append (literalFree (by decide)) fun inside => ?_)
    exact absurd (Numeral.decimalDigits _ _ inside) (by decide)
  | fieldMember name =>
    have free : '\n' ∉ "    ".toList ++ ("uint32_t ".toList ++ name ++ "; // Field placeholder".toList) := by
      simp only [List.mem_append, not_or]
      exact ⟨literalFree (by decide), ⟨literalFree (by decide), oneLine name List.mem_cons_self⟩,
        literalFree (by decide)⟩
    have line := wholeLine free
    rwa [List.append_assoc "    ".toList, List.append_assoc _ "; // Field placeholder".toList ['\n']] at line
  | bitfieldClose name =>
    have free : '\n' ∉ "\x7d ".toList ++ name ++ "_bitfield_t;".toList := by
      simp only [List.mem_append, not_or]
      exact ⟨⟨literalFree (by decide), oneLine name List.mem_cons_self⟩, literalFree (by decide)⟩
    have line := wholeBlank free
    rwa [List.append_assoc _ "_bitfield_t;".toList] at line
  | fieldAccessor name =>
    exact wholeLine (List.not_mem_append (literalFree (by decide)) (oneLine name List.mem_cons_self))
  | helpers => exact helpersWhole
  | newline => exact ⟨by decide, by decide⟩

def lineStarts : Format → List CString
  | .fileHeader _ => ["/**".toList, " * ".toList, " * ".toList, " * ".toList, " */".toList, []]
  | .includes => ["#if".toList, "#de".toList, [], "#in".toList, "#in".toList, []]
  | .mmioReg _ | .pointerMacro _ _ => ["#de".toList, []]
  | .fileFooter => [[], "#en".toList]
  | .structOpen => ["typ".toList]
  | .member _ _ | .fieldMember _ => ["   ".toList]
  | .structClose name | .bitfieldClose name => ["\x7d ".toList ++ name.take 1, []]
  | .helpers => ["// ".toList, "#de".toList, "#de".toList, "#de".toList, "#de".toList, []]
  | .newline => [[]]
  | _ => ["// ".toList]

theorem callStarts {fmt : Format} (named : ∀ name ∈ formatNames fmt, name ≠ []) :
    (callLines fmt).map (List.take 3) = lineStarts fmt := by
  cases fmt with
  | mmioReg useVolatile => cases useVolatile <;> rfl
  | structClose name =>
    obtain ⟨c, cs, rfl⟩ := List.exists_cons_of_ne_nil (named name List.mem_cons_self)
    rfl
  | bitfieldClose name =>
    obtain ⟨c, cs, rfl⟩ := List.exists_cons_of_ne_nil (named name List.mem_cons_self)
    rfl
  | _ => rfl

/-! All calls -/

theorem deviceNames {periph : ASTPeripheral} (kept : ∀ name ∈ periph.names, sanitizeIdentifier name = name) :
    ∀ fmt ∈ deviceCalls periph,
      fmt ≠ .includes ∧ fmt ≠ .fileFooter ∧ ∀ name ∈ formatNames fmt, name ∈ periph.names := by
  have first : periph.name ∈ periph.names := List.mem_cons_self
  have registers : ∀ reg ∈ periph.registers,
      reg.name ∈ periph.names ∧ sanitizeIdentifier reg.name ∈ periph.names := by
    intro reg member
    have named := ASTPeripheral.registerNamed member List.mem_cons_self
    exact ⟨named, by rwa [kept _ named]⟩
  have fields : ∀ reg ∈ periph.registers, ∀ field ∈ reg.fields, sanitizeIdentifier field.name ∈ periph.names := by
    intro reg member field inside
    have named := ASTPeripheral.registerNamed member (ASTRegister.fieldNamed inside)
    rwa [kept _ named]
  unfold deviceCalls peripheralCalls registerCalls accessorCalls memberCall
  rw [kept _ first]
  simp only [List.forall_mem_append, List.forall_mem_cons, List.forall_mem_map, List.forall_mem_flatMap]
  simpa +contextual [formatNames, first, registers] using fields

def Braceless (text : CString) : Prop := '\x7b' ∉ text ∧ '\x7d' ∉ text
instance (text : CString) : Decidable (Braceless text) := inferInstanceAs (Decidable (_ ∧ _))

theorem Braceless.append {text rest : CString} (first : Braceless text) (second : Braceless rest) :
    Braceless (text ++ rest) := ⟨List.not_mem_append first.1 second.1, List.not_mem_append first.2 second.2⟩

theorem Braceless.balanced {text : CString} (free : Braceless text) : Balanced '\x7b' '\x7d' text :=
  balancedFree free.1 free.2

theorem literalBraceless {cs : List Char} (free : '\x7b' ∉ cs ∧ '\x7d' ∉ cs) : Braceless (String.ofList cs).toList :=
  ⟨literalFree free.1, literalFree free.2⟩

theorem Braceless.literal {text : CString} {cs : List Char} (first : Braceless text)
    (free : '\x7b' ∉ cs ∧ '\x7d' ∉ cs) : Braceless (text ++ (String.ofList cs).toList) :=
  first.append (literalBraceless free)

theorem literalAround {cs cs' : List Char} {text : CString} (front : '\x7b' ∉ cs ∧ '\x7d' ∉ cs)
    (inside : Braceless text) (back : '\x7b' ∉ cs' ∧ '\x7d' ∉ cs') :
    Braceless ((String.ofList cs).toList ++ text ++ (String.ofList cs').toList) :=
  ((literalBraceless front).append inside).literal back

theorem wordBraceless {text : CString} (word : ∀ c ∈ text, isWord c = true) : Braceless text :=
  ⟨fun inside => absurd (word _ inside) (by decide), fun inside => absurd (word _ inside) (by decide)⟩

theorem hex8Braceless (n : UInt32) : Braceless (hex8 n) := by
  unfold hex8 List.leftpad
  refine wordBraceless fun c member => ?_
  cases List.mem_append.mp member with
  | inl zero =>
    obtain rfl := List.eq_of_mem_replicate zero
    decide
  | inr digit => exact hexWord n c digit

/-- What a name of the header is, and the text that stands for the source file. -/
structure CleanName (name : CString) : Prop where
  some : name ≠ []
  oneLine : '\n' ∉ name
  braceless : Braceless name

theorem identifierClean {name : CString} (identifier : CIdentifier name) : CleanName name :=
  ⟨identifier.1, wordLine identifier, wordBraceless identifier.2.2⟩

def CleanCall (fmt : Format) : Prop := ∀ name ∈ formatNames fmt, CleanName name

/-! Braces -/

def bracing : Format → Bool
  | .structOpen | .structClose _ | .bitfieldClose _ => true
  | _ => false

theorem callBraceless {fmt : Format} (clean : CleanCall fmt) (plain : bracing fmt = false) :
    Braceless (written fmt) := by
  have word : ∀ name ∈ formatNames fmt, Braceless name := fun name member => (clean name member).braceless
  cases fmt with
  | structOpen | structClose | bitfieldClose => cases plain
  | mmioReg useVolatile => cases useVolatile <;> exact literalBraceless (by decide)
  | fileFooter | newline => exact literalBraceless (by decide)
  | includes =>
    unfold written Format.expansion
    dsimp only
    rw [String.toList_append]
    exact (literalBraceless (by decide)).literal (by decide)
  | helpers =>
    unfold written Format.expansion
    dsimp only
    rw [String.toList_append, String.toList_append]
    exact ((literalBraceless (by decide)).literal (by decide)).literal (by decide)
  | fileHeader | peripheralComment | fieldAccessor =>
    exact literalAround (by decide) (word _ List.mem_cons_self) (by decide)
  | baseAddress base => exact literalAround (by decide) (hex8Braceless base) (by decide)
  | member name offset =>
    have named := word name List.mem_cons_self
    have digits := wordBraceless (hexWord offset)
    exact (literalBraceless (by decide)).append (((literalAround (by decide) named (by decide)).append digits).literal
      (by decide))
  | pointerMacro name base =>
    have named := word name List.mem_cons_self
    exact ((((literalAround (by decide) named (by decide)).append named).literal (by decide)).append
      (hex8Braceless base)).literal (by decide)
  | registerComment name offset =>
    have named := word name List.mem_cons_self
    have digits := wordBraceless (hexWord offset)
    exact ((literalAround (by decide) named (by decide)).append digits).literal (by decide)
  | fieldCount count =>
    have digit := Numeral.decimalDigits count
    have digits : Braceless (decimal count) :=
      ⟨fun inside => absurd (digit _ inside) (by decide), fun inside => absurd (digit _ inside) (by decide)⟩
    exact literalAround (by decide) digits (by decide)
  | fieldMember name =>
    have named := word name List.mem_cons_self
    exact (literalBraceless (by decide)).append (literalAround (by decide) named (by decide))

theorem plainBalanced {calls : List Format} (clean : ∀ fmt ∈ calls, CleanCall fmt)
    (plain : ∀ fmt ∈ calls, bracing fmt = false) : Balanced '\x7b' '\x7d' (calls.flatMap written) :=
  balancedAll fun fmt member => (callBraceless (clean fmt member) (plain fmt member)).balanced

theorem structBalanced {members : List Format} (close : Format) {name suffix : CString}
    (clean : ∀ fmt ∈ members, CleanCall fmt) (plain : ∀ fmt ∈ members, bracing fmt = false)
    (closed : written close = "\x7d ".toList ++ name ++ suffix) (free : Braceless (name ++ suffix)) :
    Balanced '\x7b' '\x7d' (([Format.structOpen] ++ members ++ [close]).flatMap written) := by
  intro depth
  have opened : nesting '\x7b' '\x7d' depth ([Format.structOpen].flatMap written) = some (depth + 1) := rfl
  have last : nesting '\x7b' '\x7d' (depth + 1) ([close].flatMap written) = some depth := by
    rw [List.flatMap_singleton, closed, List.append_assoc, nestingAppend]
    exact free.balanced depth
  rw [List.flatMap_append, List.flatMap_append, nestingAppend, nestingAppend, opened, Option.bind_some,
    plainBalanced clean plain, Option.bind_some, last]

theorem peripheralBalanced {periph : ASTPeripheral} (clean : ∀ fmt ∈ peripheralCalls periph, CleanCall fmt) :
    Balanced '\x7b' '\x7d' ((peripheralCalls periph).flatMap written) := by
  have split : peripheralCalls periph = [Format.peripheralComment periph.name, .baseAddress periph.baseAddress] ++
      ([Format.structOpen] ++ periph.registers.map memberCall ++ [Format.structClose (sanitizeIdentifier periph.name)]) ++
      [Format.pointerMacro (sanitizeIdentifier periph.name) periph.baseAddress] := by
    simp [peripheralCalls]
  rw [split] at clean ⊢
  simp only [List.forall_mem_append] at clean
  obtain ⟨⟨comments, ⟨-, members⟩, close⟩, pointer⟩ := clean
  have name : CleanName (sanitizeIdentifier periph.name) := close _ List.mem_cons_self _ List.mem_cons_self
  have struct := structBalanced (.structClose _) members (by simp [memberCall, bracing]) rfl
    (name.braceless.append (show Braceless "_t;\n\n".toList by decide))
  rw [List.flatMap_append, List.flatMap_append]
  exact ((plainBalanced comments (by simp [bracing])).append struct).append (plainBalanced pointer (by simp [bracing]))

theorem registerBalanced {reg : ASTRegister} (clean : ∀ fmt ∈ registerCalls reg ++ accessorCalls reg, CleanCall fmt) :
    Balanced '\x7b' '\x7d' ((registerCalls reg ++ accessorCalls reg).flatMap written) := by
  have split : registerCalls reg = [Format.registerComment reg.name reg.offset, .fieldCount reg.fields.length] ++
      ([Format.structOpen] ++ reg.fields.map (fun field => Format.fieldMember (sanitizeIdentifier field.name)) ++
        [Format.bitfieldClose (sanitizeIdentifier reg.name)]) := by
    simp [registerCalls]
  rw [split] at clean ⊢
  simp only [List.forall_mem_append] at clean
  obtain ⟨⟨comments, ⟨-, members⟩, close⟩, accessors⟩ := clean
  have name : CleanName (sanitizeIdentifier reg.name) := close _ List.mem_cons_self _ List.mem_cons_self
  have struct := structBalanced (.bitfieldClose _) members (by simp [bracing]) rfl
    (name.braceless.append (show Braceless "_bitfield_t;\n\n".toList by decide))
  rw [List.flatMap_append, List.flatMap_append]
  exact ((plainBalanced comments (by simp [bracing])).append struct).append
    (plainBalanced accessors (by simp [accessorCalls, bracing]))

section program
variable {program : ASTProgram} (identifiers : ∀ periph ∈ program.peripherals, ∀ name ∈ periph.names, CIdentifier name)
include identifiers

theorem deviceClean : ∀ periph ∈ program.peripherals, ∀ fmt ∈ deviceCalls periph,
    fmt ≠ .includes ∧ fmt ≠ .fileFooter ∧ ∀ name ∈ formatNames fmt, CleanName name := by
  intro periph member fmt inside
  obtain ⟨notGuard, notEnd, named⟩ := deviceNames (fun name named =>
    sanitizeWord (identifiers periph member name named).2.2) fmt inside
  exact ⟨notGuard, notEnd, fun name made => identifierClean (identifiers periph member name (named name made))⟩

omit identifiers in
theorem preludeClean : ∀ fmt ∈ [Format.fileHeader "bitn source".toList, .includes, .mmioReg true, .helpers],
    ∀ name ∈ formatNames fmt, CleanName name := by
  have source : CleanName "bitn source".toList := ⟨by decide, by decide, by decide⟩
  simpa [formatNames] using source

theorem programClean : ∀ fmt ∈ programCalls program, ∀ name ∈ formatNames fmt, CleanName name := by
  unfold programCalls
  simp only [List.forall_mem_append, List.forall_mem_flatMap]
  refine ⟨⟨preludeClean, fun periph member fmt inside => (deviceClean identifiers periph member fmt inside).2.2⟩, ?_⟩
  simp [formatNames]

theorem programWhole :
    Whole '\n' ((programCalls program).flatMap callLines) ((programCalls program).flatMap written) :=
  wholeAll fun fmt member => callWhole fun name inside newline =>
    (programClean identifiers fmt member name inside).oneLine newline

theorem programBalanced : Balanced '\x7b' '\x7d' ((programCalls program).flatMap written) := by
  have devices : Balanced '\x7b' '\x7d' ((program.peripherals.flatMap deviceCalls).flatMap written) := by
    rw [List.flatMap_assoc]
    refine balancedAll fun periph member => ?_
    have clean : ∀ fmt ∈ deviceCalls periph, CleanCall fmt := fun fmt inside =>
      (deviceClean identifiers periph member fmt inside).2.2
    unfold deviceCalls at clean ⊢
    simp only [List.forall_mem_append, List.forall_mem_flatMap] at clean
    obtain ⟨⟨peripheral, registers⟩, newline⟩ := clean
    have all : Balanced '\x7b' '\x7d' ((periph.registers.flatMap fun reg =>
        registerCalls reg ++ accessorCalls reg).flatMap written) := by
      rw [List.flatMap_assoc]
      exact balancedAll fun reg inside => registerBalanced (List.forall_mem_append.mpr (registers reg inside))
    rw [List.flatMap_append, List.flatMap_append]
    exact ((peripheralBalanced peripheral).append all).append (plainBalanced newline (by simp [bracing]))
  have before := plainBalanced preludeClean (by simp [bracing])
  have after : Balanced '\x7b' '\x7d' ([.fileFooter].flatMap written) :=
    plainBalanced (by simp [CleanCall, formatNames]) (by simp [bracing])
  unfold programCalls
  rw [List.flatMap_append, List.flatMap_append]
  exact (before.append devices).append after

end program

end BitN.HeaderLines
