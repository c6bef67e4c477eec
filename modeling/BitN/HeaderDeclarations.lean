import BitN.CodegenText

/-! The declarations of a header as a compiler reads them from its text, which `codegen_write` may
have cut: when they are those of the program, and mean what they say. -/
namespace BitN.HeaderDeclarations

open CodegenCalls CodegenText HeaderNames HeaderScope Texts
open CText (Item Gives Fresh Between Calm)

def pointerText (name : CString) (base : UInt32) : CString :=
  "define ".toList ++ name ++ " ((volatile ".toList ++ name ++ "_t *)0x".toList ++ hex8 base ++ ")".toList

def registerItems (reg : ASTRegister) : List Item :=
  .opened :: reg.fields.map (fun field => .member "uint32_t".toList field.name) ++
    [.closed (reg.name ++ "_bitfield_t".toList)]

def structItems (periph : ASTPeripheral) : List Item :=
  .opened :: periph.registers.map (fun reg => .member "MMIO_REG".toList reg.name) ++
    [.closed (periph.name ++ "_t".toList), .directive (pointerText periph.name periph.baseAddress)]

def deviceItems (periph : ASTPeripheral) : List Item := structItems periph ++ periph.registers.flatMap registerItems

def preludeItems : List Item := ["ifndef __BITN_GENERATED_H", "define __BITN_GENERATED_H", "include <stdint.h>",
  "include <stdbool.h>", "define MMIO_REG volatile uint32_t", "define BIT_SET(reg, bit) ((reg) |= (1U << (bit)))",
  "define BIT_CLR(reg, bit) ((reg) &= ~(1U << (bit)))", "define BIT_TST(reg, bit) ((reg) & (1U << (bit)))",
  "define BIT_TGL(reg, bit) ((reg) ^= (1U << (bit)))"].map fun text => .directive text.toList

def headerItems (peripherals : List ASTPeripheral) : List Item :=
  preludeItems ++ (peripherals.flatMap deviceItems ++ [.directive "endif ".toList])

-- The macros of the file itself count as such with arguments too.
def directiveDeclares (text : CString) : List Declaration :=
  if text = "include <stdint.h>".toList then stdintDeclarations
  else if text = "include <stdbool.h>".toList then CText.stdboolMacros.map .macroName
  else if text.take 7 = "define ".toList then [.macroName ((text.drop 7).takeWhile isWord)]
  else []

def declares : Item → List Declaration
  | .directive text => directiveDeclares text
  | .opened => []
  | .member _ name => [.member name]
  | .closed name => [.typedefName name]

/-! Lines that keep their declarations -/

theorem nameWord {name : CString} (word : ∀ c ∈ name, isWord c = true) : ∀ c ∈ name, CText.isName c = true := by
  intro c member
  have here := word c member
  unfold isWord isAlnum isAlpha isDigit at here
  unfold CText.isName Char.isAlphanum Char.isAlpha Char.isUpper Char.isLower Char.isDigit
  simp only [Bool.or_eq_true, Bool.and_eq_true, decide_eq_true_eq, Char.le_def] at here ⊢
  rcases here with ((lower | upper) | digit) | line
  · exact .inl (.inl (.inr lower))
  · exact .inl (.inl (.inl upper))
  · exact .inl (.inr digit)
  · exact .inr line

/-- The comment that the call is, without its slashes. -/
def remark : Format → Option CString
  | .peripheralComment name => some (" Peripheral: ".toList ++ name)
  | .baseAddress base => some (" Base Address: 0x".toList ++ hex8 base)
  | .registerComment name offset => some (" Register: ".toList ++ name ++ " (Offset: 0x".toList ++ hex offset ++ ")".toList)
  | .fieldCount count => some (" Fields: ".toList ++ decimal count)
  | .fieldAccessor name => some (" Field accessor for ".toList ++ name)
  | _ => none

/-- A call behind those before all peripherals, whose names hold nothing but letters, digits and underscores. -/
def Worded : Format → Prop
  | .peripheralComment name | .member name _ | .structClose name | .pointerMacro name _ | .registerComment name _
  | .fieldMember name | .bitfieldClose name | .fieldAccessor name => ∀ c ∈ name, isWord c = true
  | .baseAddress _ | .structOpen | .fieldCount _ | .newline | .fileFooter => True
  | .fileHeader _ | .includes | .mmioReg _ | .helpers => False

section comments
variable {inside : Nat} {fmt : Format} {body : CString}

theorem remarkText (comment : remark fmt = some body) : fmt.expansion = '/' :: '/' :: body ++ ['\n'] := by
  cases fmt <;> cases comment
  case registerComment name offset =>
    have opens : "// Register: ".toList = '/' :: '/' :: " Register: ".toList := rfl
    have ends : ")\n".toList = ")".toList ++ ['\n'] := rfl
    unfold Format.expansion
    rw [opens, ends]
    simp only [List.append_assoc, List.cons_append]
  all_goals rfl

theorem remarkLine (worded : Worded fmt) (comment : remark fmt = some body) : '\n' ∉ body := by
  cases fmt <;> cases comment
  case peripheralComment name => exact List.not_mem_append (by decide) (wordNewline worded)
  case baseAddress base => exact List.not_mem_append (by decide) (wordNewline (hex8Word base))
  case registerComment name offset =>
    simp only [List.mem_append, not_or]
    exact ⟨⟨⟨⟨by decide, wordNewline worded⟩, by decide⟩, wordNewline (hexWord offset)⟩, by decide⟩
  case fieldCount count =>
    exact List.not_mem_append (by decide) fun member => absurd (Numeral.decimalDigits _ _ member) (by decide)
  case fieldAccessor name => exact List.not_mem_append (by decide) (wordNewline worded)

theorem remarkOuter (comment : remark fmt = some body) : inner fmt = false := by
  cases fmt <;> cases comment <;> rfl

theorem commentGives (worded : Worded fmt) (comment : remark fmt = some body) :
    Gives Calm (laid 0 inside fmt) [] Calm := by
  rw [laidFirst (remarkOuter comment), remarkText comment]
  exact CText.cutCommentGives (remarkLine worded comment) (by decide)

theorem commentWhole (worded : Worded fmt) (comment : remark fmt = some body) (fits : body.length ≤ 4092) :
    Gives Calm (laid 0 inside fmt) [] Fresh := by
  have short : fmt.expansion.length ≤ 4095 := by
    rw [remarkText comment]
    simp only [List.length_append, List.length_cons, List.length_nil]
    omega
  rw [laidFirst (remarkOuter comment), List.take_of_length_le short, remarkText comment]
  exact CText.commentGives (remarkLine worded comment)

end comments

/-- What the call is to declare. -/
def meant : Format → List Item
  | .structOpen => [.opened]
  | .member name _ => [.member "MMIO_REG".toList name]
  | .fieldMember name => [.member "uint32_t".toList name]
  | .structClose name => [.closed (name ++ "_t".toList)]
  | .bitfieldClose name => [.closed (name ++ "_bitfield_t".toList)]
  | .pointerMacro name base => [.directive (pointerText name base)]
  | .fileFooter => [.directive "endif ".toList]
  | _ => []

section lines
variable {outside inside : Nat} {fmt : Format} {type name body : CString}

theorem openGives : Gives Fresh (laid outside inside .structOpen) Item.opened.tokens Fresh := by
  have opened := CText.givesOpened.trans CText.givesNewline
  rw [laidOpen]
  exact (CText.givesIndent outside).trans fun s here => opened s (CText.freshBetween here)

/-- The call writes a member and a comment behind it. -/
structure MemberLine (outside inside : Nat) (fmt : Format) (type name body : CString) : Prop where
  text : fmt.expansion = type ++ ' ' :: (name ++ [';']) ++ [' ', '/', '/'] ++ body ++ ['\n']
  cut : laid outside inside fmt = List.replicate inside ' ' ++ fmt.expansion.take 4095
  means : meant fmt = [.member type name]
  type : type ∈ ["MMIO_REG".toList, "uint32_t".toList]
  word : ∀ c ∈ name, isWord c = true
  line : '\n' ∉ body

theorem memberLine (word : ∀ c ∈ name, isWord c = true) (offset : UInt32) :
    MemberLine outside inside (.member name offset) "MMIO_REG".toList name (" @ offset 0x".toList ++ hex offset) := by
  refine ⟨?_, laidMember word offset, rfl, by decide, word, List.not_mem_append (by decide) (wordNewline (hexWord offset))⟩
  have opens : "MMIO_REG ".toList = "MMIO_REG".toList ++ [' '] := rfl
  have ends : "; // @ offset 0x".toList = [';', ' ', '/', '/'] ++ " @ offset 0x".toList := rfl
  unfold Format.expansion
  rw [opens, ends]
  simp only [List.append_assoc, List.cons_append, List.nil_append]
  rfl

theorem fieldLine (word : ∀ c ∈ name, isWord c = true) :
    MemberLine outside inside (.fieldMember name) "uint32_t".toList name " Field placeholder".toList := by
  refine ⟨?_, laidField word, rfl, by decide, word, by decide⟩
  have opens : "uint32_t ".toList = "uint32_t".toList ++ [' '] := rfl
  have ends : "; // Field placeholder\n".toList = [';', ' ', '/', '/'] ++ " Field placeholder".toList ++ ['\n'] := rfl
  unfold Format.expansion
  rw [opens, ends]
  simp only [List.append_assoc, List.cons_append, List.nil_append]

namespace MemberLine
variable (writes : MemberLine outside inside fmt type name body)
include writes

theorem typed : (∀ c ∈ type, CText.isName c = true) ∧ type.length = 8 := by
  have both : ∀ type ∈ ["MMIO_REG".toList, "uint32_t".toList], type.all CText.isName = true ∧ type.length = 8 := by decide
  obtain ⟨named, length⟩ := both type writes.type
  exact ⟨List.all_eq_true.mp named, length⟩

theorem front : (type ++ ' ' :: (name ++ [';'])).length = name.length + 10 := by
  simp only [List.length_append, List.length_cons, List.length_nil, writes.typed.2]
  omega

theorem gives (some : name ≠ []) (fits : name.length + body.length ≤ 4081 ∨ name.length ∈ [4084, 4085]) :
    Gives Between (laid outside inside fmt) (Item.member type name).tokens Between := by
  have typed : type ≠ [] := List.ne_nil_of_length_pos (by rw [writes.typed.2]; decide)
  have declares := CText.givesMember writes.typed.1 (nameWord writes.word) typed some
  rw [writes.cut, writes.text]
  refine (CText.givesBlanks inside).trans (CText.remarkGives declares writes.line ?_)
  rw [writes.front]
  simp only [List.mem_cons, List.not_mem_nil, or_false] at fits
  omega

end MemberLine

structure CloseLine (outside inside : Nat) (fmt : Format) (name : CString) : Prop where
  text : fmt.expansion = '\x7d' :: ' ' :: (name ++ [';']) ++ List.replicate 2 '\n'
  cut : laid outside inside fmt = List.replicate outside ' ' ++ fmt.expansion.take 4095
  means : meant fmt = [.closed name]
  word : ∀ c ∈ name, isWord c = true
  some : name ≠ []

theorem structCloseLine (word : ∀ c ∈ name, isWord c = true) :
    CloseLine outside inside (.structClose name) (name ++ "_t".toList) := by
  refine ⟨?_, laidClose word, rfl, fun c member => ?_, by simp⟩
  · have ends : "_t;\n\n".toList = "_t".toList ++ [';', '\n', '\n'] := rfl
    unfold Format.expansion
    rw [ends]
    simp only [List.append_assoc, List.cons_append]
    rfl
  · exact (List.mem_append.mp member).elim (word c) (List.all_eq_true.mp (by decide : "_t".toList.all isWord = true) c)

theorem bitfieldCloseLine (word : ∀ c ∈ name, isWord c = true) :
    CloseLine 0 inside (.bitfieldClose name) (name ++ "_bitfield_t".toList) := by
  refine ⟨?_, laidFirst rfl, rfl, fun c member => ?_, by simp⟩
  · have ends : "_bitfield_t;\n\n".toList = "_bitfield_t".toList ++ [';', '\n', '\n'] := rfl
    unfold Format.expansion
    rw [ends]
    simp only [List.append_assoc, List.cons_append]
    rfl
  · exact (List.mem_append.mp member).elim (word c)
      (List.all_eq_true.mp (by decide : "_bitfield_t".toList.all isWord = true) c)

theorem CloseLine.gives (writes : CloseLine outside inside fmt name) (fits : name.length ≤ 4091) :
    Gives Between (laid outside inside fmt) (Item.closed name).tokens Fresh := by
  have declares := CText.givesClosed (nameWord writes.word) writes.some
  have front : ('\x7d' :: ' ' :: (name ++ [';'])).length = name.length + 3 := by
    simp only [List.length_append, List.length_cons, List.length_nil]
  rw [writes.cut, writes.text]
  refine (CText.givesBlanks outside).trans (CText.linesGives declares 1 ?_)
  rw [front]
  omega

theorem pointerExpansion (name : CString) (base : UInt32) :
    (Format.pointerMacro name base).expansion = '#' :: pointerText name base ++ List.replicate 2 '\n' := by
  have opens : "#define ".toList = '#' :: "define ".toList := rfl
  have ends : ")\n\n".toList = ")".toList ++ ['\n', '\n'] := rfl
  unfold Format.expansion pointerText
  rw [opens, ends]
  simp only [List.append_assoc, List.cons_append]
  rfl

theorem pointerFree (word : ∀ c ∈ name, isWord c = true) (base : UInt32) {c : Char} (other : isWord c = false)
    (literal : c ∉ "define ".toList ∧ c ∉ " ((volatile ".toList ∧ c ∉ "_t *)0x".toList ∧ c ∉ ")".toList) :
    c ∉ pointerText name base := by
  have named {text : CString} (word : ∀ d ∈ text, isWord d = true) : c ∉ text := fun member => by
    rw [word c member] at other
    cases other
  unfold pointerText
  simp only [List.mem_append, not_or]
  exact ⟨⟨⟨⟨⟨⟨literal.1, named word⟩, literal.2.1⟩, named word⟩, literal.2.2.1⟩, named (hex8Word base)⟩, literal.2.2.2⟩

theorem pointerLength (name : CString) (base : UInt32) : (pointerText name base).length = 2 * name.length + 35 := by
  unfold pointerText
  simp only [List.length_append, hex8Length]
  change 7 + _ + 12 + _ + 7 + 8 + 1 = _
  omega

theorem pointerGives (word : ∀ c ∈ name, isWord c = true) {base : UInt32} (fits : name.length ≤ 2029) :
    Gives Fresh (laid outside inside (.pointerMacro name base)) (Item.directive (pointerText name base)).tokens Fresh := by
  rw [laidPointer word, pointerExpansion]
  refine (CText.givesIndent outside).trans (CText.directiveGives ?_ ?_ 1 ?_)
  · exact pointerFree word base (by decide) (by decide)
  · exact pointerFree word base (by decide) (by decide)
  · rw [pointerLength]
    omega

end lines

/-! The parts of a header -/

theorem registerGives {reg : ASTRegister} (identifiers : ∀ name ∈ reg.names, CIdentifier name)
    (fits : WrittenRegister reg) : Gives Calm ((registerCalls reg ++ accessorCalls reg).flatMap (laid 0 4))
      ((registerItems reg).flatMap Item.tokens) Calm := by
  obtain ⟨short, counted, fields⟩ := fits
  have word := fun name member => (identifiers name member).2.2
  have kept := fun name member => sanitizeWord (word name member)
  have named := identifiers _ List.mem_cons_self
  have comment : Gives Calm (laid 0 4 (.registerComment reg.name reg.offset)) [] Calm := commentGives named.2.2 rfl
  have count : Gives Calm (laid 0 4 (.fieldCount reg.fields.length)) [] Fresh := by
    refine commentWhole (show Worded (.fieldCount _) from trivial) rfl ?_
    rw [List.length_append]
    change 9 + _ ≤ _
    omega
  have members : Gives Between ((reg.fields.map fun field => Format.fieldMember (sanitizeIdentifier field.name)).flatMap
      (laid 0 4)) ((reg.fields.map fun field => Item.member "uint32_t".toList field.name).flatMap Item.tokens) Between := by
    rw [List.flatMap_map, List.flatMap_map]
    refine CText.givesAll fun field member => ?_
    have inside := ASTRegister.fieldNamed member
    rw [kept _ inside]
    refine (fieldLine (word _ inside)).gives (identifiers _ inside).1 ((fields field member).imp_left fun fits => ?_)
    change _ + 18 ≤ _
    omega
  have closed : Gives Between (laid 0 4 (.bitfieldClose reg.name)) (Item.closed (reg.name ++ "_bitfield_t".toList)).tokens
      Fresh := by
    refine (bitfieldCloseLine named.2.2).gives ?_
    rw [List.length_append]
    change _ + 11 ≤ _
    omega
  have accessors : Gives Calm ((accessorCalls reg).flatMap (laid 0 4)) [] Calm := by
    have nothing : reg.fields.flatMap (fun _ => ([] : List CText.Token)) = [] := List.flatMap_eq_nil_iff.mpr fun _ _ => rfl
    unfold accessorCalls
    rw [List.flatMap_map, ← nothing]
    exact CText.givesAll fun field _ => commentGives (sanitizedWord field.name) rfl
  have front := ((comment.trans count).trans ((@openGives 0 4).weaken CText.freshBetween)).trans members
  have all := front.trans ((closed.weaken CText.freshCalm).trans accessors)
  unfold registerCalls registerItems
  rw [kept _ List.mem_cons_self]
  simpa using all

/-- The calls for a peripheral behind its comments. -/
def structCalls (periph : ASTPeripheral) : List Format :=
  .structOpen :: periph.registers.map memberCall ++ [.structClose (sanitizeIdentifier periph.name),
    .pointerMacro (sanitizeIdentifier periph.name) periph.baseAddress]

theorem structGives {periph : ASTPeripheral} (outside inside : Nat)
    (fits : (sanitizeIdentifier periph.name).length ≤ 2029)
    (members : ∀ reg ∈ periph.registers, sanitizeIdentifier reg.name ≠ [] ∧
      ((sanitizeIdentifier reg.name).length + (hex reg.offset).length ≤ 4069 ∨
        (sanitizeIdentifier reg.name).length ∈ [4084, 4085])) :
    Gives Fresh ((structCalls periph).flatMap (laid outside inside))
      ((structItems (periph.renamed sanitizeIdentifier)).flatMap Item.tokens) Fresh := by
  have word := sanitizedWord periph.name
  have each : Gives Between ((periph.registers.map memberCall).flatMap (laid outside inside))
      ((periph.registers.map fun reg => Item.member "MMIO_REG".toList (sanitizeIdentifier reg.name)).flatMap Item.tokens)
      Between := by
    rw [List.flatMap_map, List.flatMap_map]
    refine CText.givesAll fun reg member => ?_
    obtain ⟨some, fits⟩ := members reg member
    refine (memberLine (sanitizedWord reg.name) reg.offset).gives some (fits.imp_left fun fits => ?_)
    rw [List.length_append]
    change _ + (12 + _) ≤ _
    omega
  have closed : Gives Between (laid outside inside (.structClose (sanitizeIdentifier periph.name)))
      (Item.closed (sanitizeIdentifier periph.name ++ "_t".toList)).tokens Fresh := by
    refine (structCloseLine word).gives ?_
    rw [List.length_append]
    change _ + 2 ≤ _
    omega
  have pointer := @pointerGives outside inside _ word periph.baseAddress fits
  have all := ((((@openGives outside inside).weaken CText.freshBetween).trans each).trans closed).trans pointer
  have spelled : structItems (periph.renamed sanitizeIdentifier) =
      .opened :: (periph.registers.map fun reg => Item.member "MMIO_REG".toList (sanitizeIdentifier reg.name)) ++
        [.closed (sanitizeIdentifier periph.name ++ "_t".toList),
          .directive (pointerText (sanitizeIdentifier periph.name) periph.baseAddress)] := by
    unfold structItems ASTPeripheral.renamed
    rw [List.map_map]
    rfl
  rw [spelled]
  unfold structCalls
  simp only [List.cons_append, List.flatMap_append, List.flatMap_cons, List.flatMap_nil, List.append_nil,
    List.append_assoc] at all ⊢
  exact all

theorem deviceGives {periph : ASTPeripheral} (identifiers : ∀ name ∈ periph.names, CIdentifier name)
    (short : periph.name.length ≤ 2029) (fits : ∀ reg ∈ periph.registers, WrittenRegister reg) :
    Gives Fresh ((deviceCalls periph).flatMap (laid 0 4)) ((deviceItems periph).flatMap Item.tokens) Fresh := by
  have kept : ∀ name ∈ periph.names, sanitizeIdentifier name = name := fun name member =>
    sanitizeWord (identifiers name member).2.2
  have named := identifiers _ List.mem_cons_self
  have registerNamed := fun reg (member : reg ∈ periph.registers) =>
    ASTPeripheral.registerNamed member (List.mem_cons_self (a := reg.name))
  have comment : Gives Calm (laid 0 4 (.peripheralComment periph.name)) [] Fresh := by
    refine commentWhole named.2.2 rfl ?_
    rw [List.length_append]
    change 13 + _ ≤ _
    omega
  have base : Gives Calm (laid 0 4 (.baseAddress periph.baseAddress)) [] Fresh := by
    refine commentWhole (show Worded (.baseAddress _) from trivial) rfl ?_
    rw [List.length_append, hex8Length]
    decide
  have struct := @structGives periph 0 4 ((kept _ List.mem_cons_self).symm ▸ short) fun reg member => by
      rw [kept _ (registerNamed reg member)]
      exact ⟨(identifiers _ (registerNamed reg member)).1, .inl (fits reg member).1⟩
  rw [ASTPeripheral.renamedSame kept] at struct
  have registers := CText.givesAll fun reg (member : reg ∈ periph.registers) =>
    registerGives (fun name inside => identifiers name (ASTPeripheral.registerNamed member inside)) (fits reg member)
  have newline : Gives Calm (laid 0 4 .newline) [] Fresh := CText.givesEnd
  have front := ((comment.weaken CText.freshCalm).trans base).trans struct
  have all := (front.weaken CText.freshCalm).trans (registers.trans newline)
  have calls : deviceCalls periph = [.peripheralComment periph.name, .baseAddress periph.baseAddress] ++
      structCalls periph ++ (periph.registers.flatMap fun reg => registerCalls reg ++ accessorCalls reg) ++ [.newline] := by
    unfold deviceCalls peripheralCalls structCalls
    simp
  rw [calls]
  unfold deviceItems
  rw [List.flatMap_append, List.flatMap_append, List.flatMap_append, List.flatMap_assoc, List.flatMap_append,
    List.flatMap_assoc]
  simp only [List.flatMap_cons, List.flatMap_nil, List.nil_append, List.append_nil, List.append_assoc] at all ⊢
  exact fun s here => all s (CText.freshCalm here)

theorem preludeScans : CText.scan CText.fresh
    ([.fileHeader "bitn source".toList, .includes, .mmioReg true, .helpers].flatMap (laid 0 4)) =
      (preludeItems.flatMap Item.tokens, CText.fresh) := by
  rw [preludeLaid]
  unfold prelude preludeItems Format.expansion
  simp only [String.toList_append, List.map_cons, List.map_nil]
  -- The kernel is slow to take a literal apart.
  repeat rw [literalChars]
  decide +kernel

theorem footerGives : Gives Fresh (laid 0 4 .fileFooter) (Item.directive "endif ".toList).tokens Fresh := by
  rintro s rfl
  refine ⟨CText.fresh, ?_, rfl⟩
  rw [laidFirst rfl]
  unfold Format.expansion
  dsimp only
  rw [literalChars, literalChars]
  decide +kernel

theorem headerGives {program : ASTProgram}
    (identifiers : ∀ periph ∈ program.peripherals, ∀ name ∈ periph.names, CIdentifier name)
    (fits : ∀ periph ∈ program.peripherals, periph.name.length ≤ 2029 ∧ ∀ reg ∈ periph.registers, WrittenRegister reg) :
    CText.scan CText.fresh (codegenGenerate codegenInit program).2.output =
      ((headerItems program.peripherals).flatMap Item.tokens, CText.fresh) := by
  have devices := CText.givesAll fun periph (member : periph ∈ program.peripherals) =>
    deviceGives (identifiers periph member) (fits periph member).1 (fits periph member).2
  obtain ⟨last, rest, rfl⟩ := (devices.trans footerGives) CText.fresh rfl
  rw [generateLaid]
  unfold programCalls headerItems
  rw [List.append_assoc, List.flatMap_append, CText.scanAppend, preludeScans, List.flatMap_append, List.flatMap_assoc,
    List.flatMap_singleton, rest, List.flatMap_append, List.flatMap_append, List.flatMap_assoc, List.flatMap_singleton]

/-! What the items are and declare -/

theorem identifierRead {name : CString} (identifier : CIdentifier name) (suffix : CString) :
    CText.identifier (name ++ suffix) = true := by
  obtain ⟨some, start, -⟩ := identifier
  obtain ⟨c, cs, rfl⟩ := List.exists_cons_of_ne_nil some
  have same : isDigit c = c.isDigit := by
    unfold isDigit Char.isDigit
    rfl
  change (!c.isDigit) = true
  rw [← same]
  exact congrArg (!·) start

theorem membersNamed {α : Type} {fields : List α} {name : α → CString} {type : CString}
    (typed : CText.identifier type = true) (identifiers : ∀ a ∈ fields, CIdentifier (name a)) :
    (fields.all fun a => CText.identifier type && CText.identifier (name a)) = true := by
  refine List.all_eq_true.mpr fun a member => ?_
  rw [typed, Bool.true_and, ← List.append_nil (name a)]
  exact identifierRead (identifiers a member) []

theorem structFormed {periph : ASTPeripheral}
    (identifiers : ∀ name ∈ periph.name :: registerNames periph, CIdentifier name) (rest : List Item) :
    CText.formed false (structItems periph ++ rest) = CText.formed false rest := by
  have typed : CText.identifier "MMIO_REG".toList = true := by decide
  have members := membersNamed typed fun reg (member : reg ∈ periph.registers) =>
    identifiers _ (List.mem_cons_of_mem _ (List.mem_map_of_mem member))
  unfold structItems
  rw [List.append_assoc, List.cons_append, List.cons_append, CText.formedStructure]
  rw [members, identifierRead (identifiers _ List.mem_cons_self)]
  rfl

theorem deviceFormed {periph : ASTPeripheral} (identifiers : ∀ name ∈ periph.names, CIdentifier name) (rest : List Item) :
    CText.formed false (deviceItems periph ++ rest) = CText.formed false rest := by
  unfold deviceItems
  rw [List.append_assoc, structFormed (List.forall_mem_cons.mpr ⟨identifiers _ List.mem_cons_self,
    List.forall_mem_map.mpr fun reg member => identifiers _ (ASTPeripheral.registerNamed member List.mem_cons_self)⟩)]
  refine CText.formedAll fun reg member rest => ?_
  have named := fun name inside => identifiers name (ASTPeripheral.registerNamed member inside)
  unfold registerItems
  rw [List.append_assoc, List.cons_append, List.cons_append, CText.formedStructure,
    membersNamed (by decide) fun field inside => named _ (ASTRegister.fieldNamed inside),
    identifierRead (named _ List.mem_cons_self)]
  rfl

theorem headerFormed {peripherals : List ASTPeripheral}
    (identifiers : ∀ periph ∈ peripherals, ∀ name ∈ periph.names, CIdentifier name) :
    CText.formed false (headerItems peripherals) = true := by
  change CText.formed false (peripherals.flatMap deviceItems ++ _) = true
  rw [CText.formedAll fun periph member => deviceFormed (identifiers periph member)]
  rfl

theorem headerDeclares {peripherals : List ASTPeripheral}
    (identifiers : ∀ periph ∈ peripherals, ∀ name ∈ periph.names, CIdentifier name) :
    languageDeclarations ++ (headerItems peripherals).flatMap declares =
      preludeDeclarations ++ peripherals.flatMap deviceDeclarations := by
  have pointer {name : CString} (identifier : CIdentifier name) (base : UInt32) :
      declares (.directive (pointerText name base)) = [.macroName name] := by
    have read : (pointerText name base).drop 7 = name ++ (" ((volatile ".toList ++ name ++ "_t *)0x".toList ++ hex8 base ++
        ")".toList) := by
      unfold pointerText
      simp only [List.append_assoc]
      rfl
    have word : name.takeWhile isWord = name := List.takeWhile_eq_self_iff.mpr identifier.2.2
    have stop : (" ((volatile ".toList ++ name ++ "_t *)0x".toList ++ hex8 base ++ ")".toList).takeWhile isWord = [] := rfl
    have opens : (pointerText name base).take 7 = "define ".toList := rfl
    have taken : ((pointerText name base).drop 7).takeWhile isWord = name := by
      rw [read, List.takeWhile_append, word, if_pos rfl, stop, List.append_nil]
    change directiveDeclares _ = _
    unfold directiveDeclares
    rw [if_neg nofun, if_neg nofun, if_pos opens, taken]
  have device : ∀ periph ∈ peripherals, (deviceItems periph).flatMap declares = deviceDeclarations periph := by
    intro periph member
    unfold deviceItems structItems registerItems deviceDeclarations registerNames
    simp only [List.cons_append, List.flatMap_append, List.flatMap_cons, List.flatMap_nil, List.flatMap_map,
      List.flatMap_assoc, pointer (identifiers periph member _ List.mem_cons_self)]
    simp [declares, ← List.map_eq_flatMap]
  have prelude : languageDeclarations ++ preludeItems.flatMap declares = preludeDeclarations := by decide +kernel
  have footer : declares (.directive "endif ".toList) = [] := by decide
  unfold headerItems
  rw [List.flatMap_append, List.flatMap_append, List.flatMap_assoc, List.flatMap_singleton, footer, List.append_nil,
    List.flatMap_congr device, ← List.append_assoc, prelude]

end BitN.HeaderDeclarations
