import BitN.HeaderScope

/-! The text that the calls write: cut to the buffer, and whole when each fits into it. -/
namespace BitN.CodegenText

open CodegenCalls HeaderNames HeaderScope

/-- `codegen_put` on a text without a context: blanks before each line that is not empty. -/
def indented (blanks : Nat) : Bool → CString → CString
  | _, [] => []
  | atLineStart, c :: cs =>
    (if atLineStart && c ≠ '\n' then List.replicate blanks ' ' else []) ++ c :: indented blanks (c = '\n') cs

theorem putText (ctx : CodegenContext) (atLineStart : Bool) (text : CString) :
    codegenPut ctx atLineStart text =
      { ctx with output := ctx.output ++ indented (wrapInt (ctx.indentLevel * 4)).toNat atLineStart text } := by
  induction text generalizing ctx atLineStart with
  | nil => simp [codegenPut, indented]
  | cons c cs ih =>
    unfold codegenPut indented
    rw [ih]
    split <;> simp [codegenIndent]

theorem indentedNone (atLineStart : Bool) (text : CString) : indented 0 atLineStart text = text := by
  induction text generalizing atLineStart with
  | nil => rfl
  | cons c cs ih =>
    unfold indented
    rw [ih]
    simp

theorem indentedNewlines (blanks : Nat) (atLineStart : Bool) (n : Nat) :
    indented blanks atLineStart (List.replicate n '\n') = List.replicate n '\n' := by
  induction n generalizing atLineStart with
  | zero => rfl
  | succ n ih =>
    rw [List.replicate_succ, indented, ih]
    simp

theorem indentedInner (blanks : Nat) {line : CString} (one : '\n' ∉ line) (n : Nat) :
    indented blanks false (line ++ List.replicate n '\n') = line ++ List.replicate n '\n' := by
  induction line with
  | nil => exact indentedNewlines blanks false n
  | cons c cs ih =>
    have inner : (c = '\n') = False := eq_false fun same => one (same ▸ List.mem_cons_self)
    rw [List.cons_append]
    unfold indented
    simp [inner, ih fun inside => one (List.mem_cons_of_mem _ inside)]

theorem indentedLine (blanks : Nat) {c : Char} {line : CString} (one : '\n' ∉ c :: line) (n : Nat) :
    indented blanks true (c :: line ++ List.replicate n '\n') =
      List.replicate blanks ' ' ++ (c :: line ++ List.replicate n '\n') := by
  have inner : c ≠ '\n' := fun same => one (same ▸ List.mem_cons_self)
  rw [List.cons_append]
  unfold indented
  simp [inner, indentedInner blanks fun inside => one (List.mem_cons_of_mem _ inside)]

/-! Steps that write -/

/-- Entered at this level, the step leaves it at this level, and the text written. -/
def Wrote (level : Int) (ctx after : CodegenContext) (text : CString) : Prop :=
  ctx.indentLevel = level → after.indentLevel = level ∧ after.output = ctx.output ++ text

section steps
variable {level : Int} {ctx between after : CodegenContext} {text text' : CString}

theorem Wrote.trans (first : Wrote level ctx between text) (second : Wrote level between after text') :
    Wrote level ctx after (text ++ text') := by
  intro entered
  obtain ⟨kept, output⟩ := first entered
  obtain ⟨left, output'⟩ := second kept
  exact ⟨left, by rw [output', output, List.append_assoc]⟩

theorem wroteNothing (ctx : CodegenContext) : Wrote level ctx ctx [] := fun entered => ⟨entered, (List.append_nil _).symm⟩

theorem wroteInside (inside : Wrote (level + 1) { ctx with indentLevel := ctx.indentLevel + 1 } after text) :
    Wrote level ctx { after with indentLevel := after.indentLevel - 1 } text := by
  intro entered
  obtain ⟨left, output⟩ := inside (congrArg (· + 1) entered)
  exact ⟨by dsimp only; omega, output⟩

theorem wroteAll {α : Type} {step : CodegenContext → α → CodegenContext} {made : α → CString} {items : List α}
    (each : ∀ a ∈ items, ∀ ctx, Wrote level ctx (step ctx a) (made a)) (ctx : CodegenContext) :
    Wrote level ctx (items.foldl step ctx) (items.flatMap made) := by
  induction items generalizing ctx with
  | nil => exact wroteNothing ctx
  | cons a items ih =>
    exact (each a List.mem_cons_self ctx).trans (ih (fun b member => each b (List.mem_cons_of_mem _ member)) _)

/-! Calls that are cut to the buffer -/

def blanks (level : Int) : Nat := (wrapInt (level * 4)).toNat

def inner : Format → Bool
  | .member _ _ | .fieldMember _ => true
  | _ => false

/-- The text of a call, with these blanks before a line outside and inside of a structure. -/
def laid (outside inside : Nat) (fmt : Format) : CString :=
  indented (if inner fmt then inside else outside) true (fmt.expansion.take 4095)

theorem indentedCount {c : Char} (other : c ≠ ' ') (blanks : Nat) (atLineStart : Bool) (text : CString) :
    (indented blanks atLineStart text).count c = text.count c := by
  induction text generalizing atLineStart with
  | nil => rfl
  | cons d ds ih =>
    have nothing : (List.replicate blanks ' ').count c = 0 := by simp [List.count_replicate, Ne.symm other]
    rw [indented, List.count_append, List.count_cons, List.count_cons, ih]
    split <;> simp [nothing]

theorem laidCount {c : Char} (other : c ≠ ' ') (outside inside : Nat) (fmt : Format) :
    (laid outside inside fmt).count c ≤ fmt.expansion.count c := by
  rw [laid, indentedCount other]
  exact (List.take_sublist 4095 fmt.expansion).count_le c

theorem laidFirst {inside : Nat} {fmt : Format} (outer : inner fmt = false) :
    laid 0 inside fmt = fmt.expansion.take 4095 := by
  rw [laid, outer]
  exact indentedNone true _

theorem laidWhole {inside : Nat} {fmt : Format} (outer : inner fmt = false) (short : fmt.expansion.length ≤ 4095) :
    laid 0 inside fmt = fmt.expansion := by
  rw [laidFirst outer, List.take_of_length_le short]

/-- A line and the newlines behind it, cut behind the blanks. -/
theorem laidLine {outside inside : Nat} {fmt : Format} (line : CString) (newlines : Nat)
    (is_line : fmt.expansion = line ++ List.replicate newlines '\n') (some : line ≠ []) (one : '\n' ∉ line) :
    laid outside inside fmt = List.replicate (if inner fmt then inside else outside) ' ' ++ fmt.expansion.take 4095 := by
  obtain ⟨c, cs, rfl⟩ := List.exists_cons_of_ne_nil some
  have cut : fmt.expansion.take 4095 =
      c :: cs.take 4094 ++ List.replicate (min (4094 - cs.length) newlines) '\n' := by
    rw [is_line, List.cons_append, List.take_succ_cons, List.take_append, List.take_replicate]
    rfl
  have inside : '\n' ∉ c :: cs.take 4094 := fun member =>
    one ((List.take_sublist 4095 (c :: cs)).subset member)
  rw [laid, cut, indentedLine _ inside]

theorem sanitizedWord (name : CString) : ∀ c ∈ sanitizeIdentifier name, isWord c = true := by
  intro c member
  obtain ⟨d, -, kept⟩ := List.mem_filterMap.mp member
  split_ifs at kept with word dot
  · obtain rfl := Option.some.inj kept
    exact word
  · obtain rfl := Option.some.inj kept
    decide

theorem wordNewline {name : CString} (word : ∀ c ∈ name, isWord c = true) : '\n' ∉ name := fun inside =>
  absurd (word _ inside) (by decide)

theorem hexWord (n : UInt32) : ∀ c ∈ hex n, isWord c = true := Numeral.writtenDigits (by decide) (by decide) _

theorem wordLine {name : CString} (identifier : CIdentifier name) : '\n' ∉ name := wordNewline identifier.2.2

theorem hexLine (n : UInt32) : '\n' ∉ hex n := wordNewline (hexWord n)

theorem hex8Word (n : UInt32) : ∀ c ∈ hex8 n, isWord c = true := by
  intro c member
  cases List.mem_append.mp member with
  | inl zero =>
    obtain rfl := List.eq_of_mem_replicate zero
    decide
  | inr digit => exact hexWord n c digit

section lines
variable {outside inside : Nat} {name : CString}

theorem laidOpen : laid outside inside .structOpen = List.replicate outside ' ' ++ Format.structOpen.expansion :=
  laidLine "typedef struct \x7b".toList 1 rfl (by decide) (by decide)

theorem laidMember (word : ∀ c ∈ name, isWord c = true) (offset : UInt32) : laid outside inside (.member name offset) =
    List.replicate inside ' ' ++ (Format.member name offset).expansion.take 4095 := by
  refine laidLine ("MMIO_REG ".toList ++ name ++ "; // @ offset 0x".toList ++ hex offset) 1 rfl (by simp) ?_
  simp only [List.mem_append, not_or]
  exact ⟨⟨⟨by decide, wordNewline word⟩, by decide⟩, wordNewline (hexWord offset)⟩

theorem laidClose (word : ∀ c ∈ name, isWord c = true) : laid outside inside (.structClose name) =
    List.replicate outside ' ' ++ (Format.structClose name).expansion.take 4095 := by
  refine laidLine ("\x7d ".toList ++ name ++ "_t;".toList) 2 ?_ (by simp) ?_
  · rw [List.append_assoc _ "_t;".toList]
    rfl
  · simp only [List.mem_append, not_or]
    exact ⟨⟨by decide, wordNewline word⟩, by decide⟩

theorem laidPointer (word : ∀ c ∈ name, isWord c = true) (base : UInt32) :
    laid outside inside (.pointerMacro name base) =
      List.replicate outside ' ' ++ (Format.pointerMacro name base).expansion.take 4095 := by
  refine laidLine ("#define ".toList ++ name ++ " ((volatile ".toList ++ name ++ "_t *)0x".toList ++ hex8 base ++
    ")".toList) 2 ?_ (by simp) ?_
  · rw [List.append_assoc _ ")".toList]
    rfl
  · simp only [List.mem_append, not_or]
    exact ⟨⟨⟨⟨⟨⟨by decide, wordNewline word⟩, by decide⟩, wordNewline word⟩, by decide⟩, wordNewline (hex8Word base)⟩,
      by decide⟩

theorem laidField (word : ∀ c ∈ name, isWord c = true) : laid outside inside (.fieldMember name) =
    List.replicate inside ' ' ++ (Format.fieldMember name).expansion.take 4095 := by
  refine laidLine ("uint32_t ".toList ++ name ++ "; // Field placeholder".toList) 1 ?_ (by simp) ?_
  · rw [List.append_assoc _ "; // Field placeholder".toList]
    rfl
  · simp only [List.mem_append, not_or]
    exact ⟨⟨by decide, wordNewline word⟩, by decide⟩

end lines

theorem laidOuter (fmt : Format) (outer : inner fmt = false) (ctx : CodegenContext) :
    Wrote level ctx (codegenWrite ctx fmt) (laid (blanks level) (blanks (level + 1)) fmt) := by
  intro entered
  unfold codegenWrite codegenPrint laid
  rw [putText, entered, outer]
  exact ⟨rfl, rfl⟩

theorem laidInner (fmt : Format) (inside : inner fmt = true) (ctx : CodegenContext) :
    Wrote (level + 1) ctx (codegenWrite ctx fmt) (laid (blanks level) (blanks (level + 1)) fmt) := by
  intro entered
  unfold codegenWrite codegenPrint laid
  rw [putText, entered, inside]
  exact ⟨rfl, rfl⟩

end steps

section calls
variable {level : Int} {made : Format → CString}
  (outside : ∀ fmt, inner fmt = false → ∀ ctx, Wrote level ctx (codegenWrite ctx fmt) (made fmt))
  (inside : ∀ fmt, inner fmt = true → ∀ ctx, Wrote (level + 1) ctx (codegenWrite ctx fmt) (made fmt))
include outside inside

theorem peripheralCallsWrote (periph : ASTPeripheral) (ctx : CodegenContext) :
    Wrote level ctx (codegenPeripheral ctx periph).2 ((peripheralCalls periph).flatMap made) := by
  have members := wroteAll fun (reg : ASTRegister) (_ : reg ∈ periph.registers) => inside (memberCall reg) rfl
  have comments := (outside (.peripheralComment periph.name) rfl ctx).trans (outside (.baseAddress periph.baseAddress) rfl _)
  have struct := ((comments.trans (outside .structOpen rfl _)).trans (wroteInside (members _))).trans
    (outside (.structClose (sanitizeIdentifier periph.name)) rfl _)
  have all := struct.trans (outside (.pointerMacro (sanitizeIdentifier periph.name) periph.baseAddress) rfl _)
  have text : (peripheralCalls periph).flatMap made =
      made (.peripheralComment periph.name) ++ made (.baseAddress periph.baseAddress) ++ made .structOpen ++
        periph.registers.flatMap (fun reg => made (memberCall reg)) ++
        made (.structClose (sanitizeIdentifier periph.name)) ++
        made (.pointerMacro (sanitizeIdentifier periph.name) periph.baseAddress) := by
    simp [peripheralCalls, List.flatMap_map]
  rw [text]
  exact all

theorem registerCallsWrote (reg : ASTRegister) (ctx : CodegenContext) :
    Wrote level ctx (codegenFieldAccessors (codegenRegister ctx reg).2 reg).2
      ((registerCalls reg ++ accessorCalls reg).flatMap made) := by
  have members := wroteAll fun (field : ASTField) (_ : field ∈ reg.fields) =>
    inside (.fieldMember (sanitizeIdentifier field.name)) rfl
  have struct := ((((outside (.registerComment reg.name reg.offset) rfl ctx).trans
    (outside (.fieldCount reg.fields.length) rfl _)).trans (outside .structOpen rfl _)).trans
    (wroteInside (members _))).trans (outside (.bitfieldClose (sanitizeIdentifier reg.name)) rfl _)
  have accessors (ctx : CodegenContext) :
      Wrote level ctx (codegenFieldAccessors ctx reg).2 ((accessorCalls reg).flatMap made) := by
    unfold codegenFieldAccessors accessorCalls
    rw [List.flatMap_map]
    split
    · rename_i none
      rw [List.isEmpty_iff.mp none]
      exact wroteNothing ctx
    · exact wroteAll (fun field _ => outside (.fieldAccessor (sanitizeIdentifier field.name)) rfl) ctx
  have text : (registerCalls reg).flatMap made =
      made (.registerComment reg.name reg.offset) ++ made (.fieldCount reg.fields.length) ++ made .structOpen ++
        reg.fields.flatMap (fun field => made (.fieldMember (sanitizeIdentifier field.name))) ++
        made (.bitfieldClose (sanitizeIdentifier reg.name)) := by
    simp [registerCalls, List.flatMap_map]
  rw [List.flatMap_append, text]
  exact struct.trans (accessors _)

theorem deviceCallsWrote (periph : ASTPeripheral) (ctx : CodegenContext) :
    Wrote level ctx (codegenDevice ctx periph) ((deviceCalls periph).flatMap made) := by
  have registers := wroteAll fun (reg : ASTRegister) (_ : reg ∈ periph.registers) =>
    registerCallsWrote outside inside reg
  have all := ((peripheralCallsWrote outside inside periph ctx).trans (registers _)).trans (outside .newline rfl _)
  unfold deviceCalls
  rw [List.flatMap_append, List.flatMap_append, List.flatMap_assoc, List.flatMap_singleton]
  exact all

end calls

theorem peripheralLaid {level : Int} (periph : ASTPeripheral) (ctx : CodegenContext) :
    Wrote level ctx (codegenPeripheral ctx periph).2
      ((peripheralCalls periph).flatMap (laid (blanks level) (blanks (level + 1)))) :=
  peripheralCallsWrote laidOuter laidInner periph ctx

theorem preludeWrote : Wrote 0 codegenInit (codegenHelpers (codegenFileHeader codegenInit "bitn source".toList)).2
    ([.fileHeader "bitn source".toList, .includes, .mmioReg true, .helpers].flatMap (laid 0 4)) := by
  have outside (fmt : Format) (outer : inner fmt = false) : ∀ ctx, Wrote 0 ctx (codegenWrite ctx fmt) (laid 0 4 fmt) :=
    laidOuter fmt outer
  have comment := outside (.fileHeader "bitn source".toList) rfl codegenInit
  have volatile : (codegenWrite (codegenWrite codegenInit (.fileHeader "bitn source".toList)) .includes).useVolatile =
      true := by
    rw [writeVolatile, writeVolatile]
    rfl
  have header : codegenFileHeader codegenInit "bitn source".toList =
      codegenWrite (codegenWrite (codegenWrite codegenInit (.fileHeader "bitn source".toList)) .includes) (.mmioReg true) := by
    unfold codegenFileHeader
    dsimp only
    rw [if_pos volatile]
  have all := ((comment.trans (outside .includes rfl _)).trans (outside (.mmioReg true) rfl _)).trans
    (outside .helpers rfl _)
  simp only [List.append_assoc] at all
  unfold codegenHelpers
  rw [header]
  simpa only [List.flatMap_cons, List.flatMap_nil, List.append_nil] using all

theorem generateWrote (program : ASTProgram) :
    Wrote 0 codegenInit (codegenGenerate codegenInit program).2 ((programCalls program).flatMap (laid 0 4)) := by
  have outside (fmt : Format) (outer : inner fmt = false) : ∀ ctx, Wrote 0 ctx (codegenWrite ctx fmt) (laid 0 4 fmt) :=
    laidOuter fmt outer
  have devices := wroteAll fun (periph : ASTPeripheral) (_ : periph ∈ program.peripherals) =>
    deviceCallsWrote outside laidInner periph
  have made : (codegenGenerate codegenInit program).2 = codegenWrite (program.peripherals.foldl codegenDevice
      (codegenHelpers (codegenFileHeader codegenInit "bitn source".toList)).2) .fileFooter := rfl
  unfold programCalls
  rw [made, List.flatMap_append, List.flatMap_append, List.flatMap_assoc, List.flatMap_singleton]
  exact (preludeWrote.trans (devices _)).trans (outside .fileFooter rfl _)

theorem generateLaid (program : ASTProgram) :
    (codegenGenerate codegenInit program).2.output = (programCalls program).flatMap (laid 0 4) :=
  (generateWrote program rfl).2.trans (List.nil_append _)

/-! The text of a header -/

def memberText (reg : ASTRegister) : CString :=
  "    ".toList ++ "MMIO_REG ".toList ++ (reg.name ++ "; // @ offset 0x".toList) ++ (hex reg.offset ++ "\n".toList)

def fieldText (field : ASTField) : CString :=
  "    ".toList ++ "uint32_t ".toList ++ (field.name ++ "; // Field placeholder\n".toList)

def accessorText (field : ASTField) : CString := "// Field accessor for ".toList ++ field.name ++ "\n".toList

def registerText (reg : ASTRegister) : CString :=
  "// Register: ".toList ++ (reg.name ++ " (Offset: 0x".toList) ++ (hex reg.offset ++ ")\n".toList) ++
    "// Fields: ".toList ++ (decimal reg.fields.length ++ "\n".toList) ++ "typedef struct \x7b\n".toList ++
    (reg.fields.flatMap fieldText ++ "\x7d ".toList) ++
    (reg.name ++ "_bitfield_t;\n\n".toList ++ reg.fields.flatMap accessorText)

def peripheralText (periph : ASTPeripheral) : CString :=
  "// Peripheral: ".toList ++ (periph.name ++ "\n".toList) ++ "// Base Address: 0x".toList ++ hex8 periph.baseAddress ++
    "\n".toList ++ "typedef struct \x7b\n".toList ++ (periph.registers.flatMap memberText ++ "\x7d ".toList) ++
    (periph.name ++ "_t;\n\n".toList ++ "#define ".toList ++ periph.name ++ " ((volatile ".toList ++ periph.name ++
      "_t *)0x".toList ++ hex8 periph.baseAddress ++ ")\n\n".toList)

def deviceText (periph : ASTPeripheral) : CString :=
  peripheralText periph ++ (periph.registers.flatMap registerText ++ "\n".toList)

def prelude : CString := (Format.fileHeader "bitn source".toList).expansion ++ Format.includes.expansion ++
  (Format.mmioReg true).expansion ++ Format.helpers.expansion

def headerText (peripherals : List ASTPeripheral) : CString :=
  prelude ++ (peripherals.flatMap deviceText ++ Format.fileFooter.expansion)

structure Readable (periph : ASTPeripheral) : Prop where
  identifiers : ∀ name ∈ periph.names, CIdentifier name
  short : 2 * periph.name.length ≤ 4057 ∧ ∀ reg ∈ periph.registers, ShortRegister reg

theorem memberLaid {reg : ASTRegister} (identifier : CIdentifier reg.name)
    (short : (memberCall reg).expansion.length ≤ 4095) : laid 0 4 (memberCall reg) = memberText reg := by
  unfold memberCall at short ⊢
  rw [sanitizeWord identifier.2.2] at short ⊢
  have blanks : "    ".toList = List.replicate 4 ' ' := rfl
  rw [laidMember identifier.2.2, List.take_of_length_le short, ← blanks]
  unfold Format.expansion memberText
  simp only [List.append_assoc]

theorem fieldLaid {field : ASTField} (identifier : CIdentifier field.name) (short : field.name.length ≤ 4063) :
    laid 0 4 (.fieldMember (sanitizeIdentifier field.name)) = fieldText field := by
  have blanks : "    ".toList = List.replicate 4 ' ' := rfl
  rw [sanitizeWord identifier.2.2, laidField identifier.2.2,
    List.take_of_length_le (by rw [fieldMemberLength]; omega), ← blanks]
  unfold Format.expansion fieldText
  simp only [List.append_assoc]

theorem peripheralCallsLaid {periph : ASTPeripheral} (readable : Readable periph) :
    (peripheralCalls periph).flatMap (laid 0 4) = peripheralText periph := by
  have name := sanitizeWord (readable.identifiers _ List.mem_cons_self).2.2
  have calls : ∀ fmt ∈ peripheralCalls periph, fmt.expansion.length ≤ 4095 := fun fmt member =>
    (deviceWhole periph fun name inside => sanitizeWord (readable.identifiers name inside).2.2).mpr readable.short fmt
      (List.mem_append_left _ (List.mem_append_left _ member))
  have whole (fmt : Format) (member : fmt ∈ peripheralCalls periph) (outer : inner fmt = false) :
      laid 0 4 fmt = fmt.expansion := laidWhole outer (calls fmt member)
  have members : (periph.registers.map memberCall).flatMap (laid 0 4) = periph.registers.flatMap memberText := by
    rw [List.flatMap_map]
    refine List.flatMap_congr fun reg member => memberLaid (readable.identifiers _ ?_) (calls _ ?_)
    · exact ASTPeripheral.registerNamed member List.mem_cons_self
    · exact List.mem_append_left _ (List.mem_append_right _ (List.mem_map_of_mem member))
  have comment := whole (.peripheralComment periph.name) (by simp [peripheralCalls]) rfl
  have base := whole (.baseAddress periph.baseAddress) (by simp [peripheralCalls]) rfl
  have opened := whole .structOpen (by simp [peripheralCalls]) rfl
  have closed := whole (.structClose (sanitizeIdentifier periph.name)) (by simp [peripheralCalls]) rfl
  have pointer := whole (.pointerMacro (sanitizeIdentifier periph.name) periph.baseAddress) (by simp [peripheralCalls]) rfl
  rw [name] at closed pointer
  unfold peripheralCalls peripheralText
  simp only [List.flatMap_append, List.flatMap_cons, List.flatMap_nil, members, comment, base, opened, closed, pointer, name]
  unfold Format.expansion
  simp only [List.append_assoc, List.append_nil]

theorem registerCallsLaid {reg : ASTRegister} (identifiers : ∀ name ∈ reg.names, CIdentifier name)
    (short : ShortRegister reg) : (registerCalls reg ++ accessorCalls reg).flatMap (laid 0 4) = registerText reg := by
  have kept : ∀ name ∈ reg.names, sanitizeIdentifier name = name := fun name member =>
    sanitizeWord (identifiers name member).2.2
  have whole (fmt : Format) (member : fmt ∈ registerCalls reg) (outer : inner fmt = false) :
      laid 0 4 fmt = fmt.expansion :=
    laidWhole outer (((registerWhole reg kept).mpr short).2 fmt (List.mem_append_left _ member))
  have fields : (reg.fields.map fun field => .fieldMember (sanitizeIdentifier field.name)).flatMap (laid 0 4) =
      reg.fields.flatMap fieldText := by
    rw [List.flatMap_map]
    exact List.flatMap_congr fun field member =>
      fieldLaid (identifiers _ (ASTRegister.fieldNamed member)) (short.2.2 field member)
  have accessors : (accessorCalls reg).flatMap (laid 0 4) = reg.fields.flatMap accessorText := by
    unfold accessorCalls
    rw [List.flatMap_map]
    refine List.flatMap_congr fun field member => ?_
    have fits := short.2.2 field member
    rw [kept _ (ASTRegister.fieldNamed member), laidWhole rfl (by rw [fieldAccessorLength]; omega)]
    rfl
  have comment := whole (.registerComment reg.name reg.offset) (by simp [registerCalls]) rfl
  have count := whole (.fieldCount reg.fields.length) (by simp [registerCalls]) rfl
  have opened := whole .structOpen (by simp [registerCalls]) rfl
  have closed := whole (.bitfieldClose (sanitizeIdentifier reg.name)) (by simp [registerCalls]) rfl
  rw [kept _ List.mem_cons_self] at closed
  unfold registerCalls registerText
  simp only [List.flatMap_append, List.flatMap_cons, List.flatMap_nil, fields, accessors, comment, count, opened, closed,
    kept _ List.mem_cons_self]
  unfold Format.expansion
  simp only [List.append_assoc, List.append_nil]

theorem deviceLaid {periph : ASTPeripheral} (readable : Readable periph) :
    (deviceCalls periph).flatMap (laid 0 4) = deviceText periph := by
  have newline : laid 0 4 .newline = "\n".toList := laidWhole rfl (by decide)
  unfold deviceCalls deviceText
  rw [List.flatMap_append, List.flatMap_append, List.flatMap_assoc, List.flatMap_singleton, newline,
    peripheralCallsLaid readable, List.append_assoc]
  have registers : ∀ reg ∈ periph.registers, (registerCalls reg ++ accessorCalls reg).flatMap (laid 0 4) =
      registerText reg := fun reg member => registerCallsLaid
    (fun name inside => readable.identifiers name (ASTPeripheral.registerNamed member inside)) (readable.short.2 reg member)
  rw [List.flatMap_congr registers]

theorem preludeLaid : [.fileHeader "bitn source".toList, .includes, .mmioReg true, .helpers].flatMap (laid 0 4) =
    prelude := by
  have whole : ∀ fmt ∈ [.fileHeader "bitn source".toList, .includes, .mmioReg true, .helpers],
      laid 0 4 fmt = fmt.expansion := by
    intro fmt member
    refine laidWhole ?_ (preludeWhole fmt member)
    simp only [List.mem_cons, List.not_mem_nil, or_false] at member
    rcases member with rfl | rfl | rfl | rfl <;> rfl
  rw [List.flatMap_congr whole]
  simp [prelude]

theorem headerWrote {program : ASTProgram} (readable : ∀ periph ∈ program.peripherals, Readable periph) :
    (codegenGenerate codegenInit program).2.output = headerText program.peripherals := by
  have calls : programCalls program = [.fileHeader "bitn source".toList, .includes, .mmioReg true, .helpers] ++
      (program.peripherals.flatMap deviceCalls ++ [.fileFooter]) := List.append_assoc ..
  have footer : laid 0 4 .fileFooter = Format.fileFooter.expansion := laidWhole rfl (by decide)
  rw [generateLaid, calls, List.flatMap_append, List.flatMap_append, preludeLaid, List.flatMap_assoc,
    List.flatMap_congr fun periph member => deviceLaid (readable periph member), List.flatMap_singleton, footer]
  rfl

end BitN.CodegenText
