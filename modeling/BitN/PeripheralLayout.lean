import BitN.CutDeclarations
import BitN.Lib.Layout
import BitN.TypeInference

/-! The structure that a C compiler reads in the text written for a peripheral, where it puts the
members, and which peripherals it lays out as they are declared. -/
namespace BitN.PeripheralLayout

open CodegenCalls CodegenText CutDeclarations HeaderDeclarations HeaderNames HeaderScope
open CText (Item)

/-- A structure of registers, and the macro that points to one at an address in hexadecimal digits. -/
structure Struct where
  members : List CString
  name : CString
  pointer : CString
  address : CString

def Struct.items (s : Struct) : List Item :=
  .opened :: s.members.map (.member "MMIO_REG".toList ·) ++ [.closed s.name, .directive ("define ".toList ++ s.pointer ++
    " ((volatile ".toList ++ s.name ++ " *)0x".toList ++ s.address ++ ")".toList)]

-- volatile uint32_t
def mmioRegSize : Nat := 4

def Struct.offsets (s : Struct) : List Nat := Layout.places (fun _ => mmioRegSize) (fun _ => mmioRegSize) 0 s.members

/-- Where an access through the pointer macro to the member with this index goes. -/
def Struct.accessed (s : Struct) (i : Nat) : Option Nat := s.offsets[i]?.map (positional 16 s.address + ·)

/-- None of the names is taken for another, or for what the language or the beginning of the header makes of it. -/
structure Struct.Usable (s : Struct) : Prop where
  identifiers : ∀ name ∈ s.pointer :: s.members, CIdentifier name
  distinct : (s.pointer :: s.members).Nodup
  fixed : s.name ∉ fixedNames ∧ s.pointer ∉ fixedNames
  plain : ∀ name ∈ s.members, name ∉ CText.keywords ++ objectMacros

def width (reg : ASTRegister) : Nat := (reg.type.map typeGetSize).getD 0

structure Declared (periph : ASTPeripheral) : Prop where
  typed : ∀ reg ∈ periph.registers, reg.type ∈ [TypeKind.typeU8, .typeU16, .typeU32, .typeU64].map some
  increasing : periph.registers.Pairwise fun a b => a.offset < b.offset
  aligned : ∀ reg ∈ periph.registers, width reg ∣ reg.offset.toNat
  apart : periph.registers.Pairwise fun a b => a.offset.toNat + width a ≤ b.offset.toNat

def written (ctx : CodegenContext) (periph : ASTPeripheral) : CString :=
  (codegenPeripheral ctx periph).2.output.drop ctx.output.length

def structOf (periph : ASTPeripheral) : Struct :=
  ⟨periph.registers.map fun reg => sanitizeIdentifier reg.name, sanitizeIdentifier periph.name ++ "_t".toList,
    sanitizeIdentifier periph.name, hex8 periph.baseAddress⟩

/-- The text has a member for every register, and each is where it was declared, and as wide. -/
structure Placed (ctx : CodegenContext) (periph : ASTPeripheral) : Prop where
  text : CText.declarations (written ctx periph) = some (structOf periph).items
  usable : (structOf periph).Usable
  offsets : (structOf periph).offsets = periph.registers.map fun reg => reg.offset.toNat
  widths : (structOf periph).members.map (fun _ => mmioRegSize) = periph.registers.map width
  addresses : ∀ i, (structOf periph).accessed i =
    periph.registers[i]?.map fun reg => periph.baseAddress.toNat + reg.offset.toNat

def Consecutive (periph : ASTPeripheral) : Prop :=
  ∀ i reg, periph.registers[i]? = some reg → reg.type = some .typeU32 ∧ reg.offset.toNat = 4 * i

/-- The two lines above the structure, into which the name of the peripheral goes as it stands. -/
def comments (level : Int) (periph : ASTPeripheral) : CString :=
  [.peripheralComment periph.name, .baseAddress periph.baseAddress].flatMap (laid (blanks level) (blanks (level + 1)))

/-- Nothing but comment above the structure, names that say what they are to say, and none that is too long. -/
structure Readable (level : Int) (periph : ASTPeripheral) : Prop where
  comments : CText.scan CText.fresh (comments level periph) = ([], CText.fresh)
  usable : (structOf periph).Usable
  short : (sanitizeIdentifier periph.name).length ≤ 2029
  members : ∀ reg ∈ periph.registers, (sanitizeIdentifier reg.name).length + (hex reg.offset).length ≤ 4069 ∨
    (sanitizeIdentifier reg.name).length ∈ [4084, 4085]

/-! Offsets and widths -/

theorem structOffsets (periph : ASTPeripheral) :
    (structOf periph).offsets = (List.range periph.registers.length).map fun i => 4 * i := by
  have uniform := @Layout.placesUniform CString (fun _ => mmioRegSize) (fun _ => mmioRegSize) 4 0
    (structOf periph).members (fun _ _ => rfl) (fun _ _ => Nat.dvd_refl 4) (Nat.dvd_zero 4)
  unfold Struct.offsets
  rw [uniform]
  simp [structOf]

theorem hex8Value (n : UInt32) : positional 16 (hex8 n) = n.toNat := by
  have zeros (k : Nat) : positional 16 (List.replicate k '0') = 0 := by
    induction k with
    | zero => rfl
    | succ k ih =>
      rw [List.replicate_succ', Numeral.positionalSnoc, ih]
      rfl
  have value : positional 16 (hex n) = n.toNat := Numeral.writtenValue (by decide) (by decide) _
  unfold hex8 List.leftpad
  rw [Numeral.positionalAppend, zeros, value]
  omega

theorem laidConsecutive {periph : ASTPeripheral} (declared : Declared periph) :
    ((structOf periph).offsets = periph.registers.map fun reg => reg.offset.toNat) ∧
        ((structOf periph).members.map (fun _ => mmioRegSize) = periph.registers.map width) ↔ Consecutive periph := by
  have wide : ∀ reg ∈ periph.registers, 4 = width reg ↔ reg.type = some .typeU32 := by
    intro reg member
    have typed := declared.typed reg member
    simp only [List.map_cons, List.map_nil, List.mem_cons, List.not_mem_nil, or_false] at typed
    rcases typed with typed | typed | typed | typed <;> simp [width, typed, typeGetSize]
  have widths : ((structOf periph).members.map (fun _ => mmioRegSize) = periph.registers.map width) ↔
      ∀ reg ∈ periph.registers, reg.type = some .typeU32 := by
    change (periph.registers.map _).map _ = _ ↔ _
    rw [List.map_map, List.map_inj_left]
    exact forall₂_congr wide
  have offsets : ((structOf periph).offsets = periph.registers.map fun reg => reg.offset.toNat) ↔
      ∀ i reg, periph.registers[i]? = some reg → reg.offset.toNat = 4 * i := by
    rw [structOffsets, List.ext_getElem?_iff]
    refine forall_congr' fun i => ?_
    rcases Nat.lt_or_ge i periph.registers.length with inside | outside
    · simp [inside, eq_comm]
    · simp [outside]
  rw [offsets, widths]
  constructor
  · intro ⟨here, wide⟩ i reg found
    exact ⟨wide reg (List.mem_of_getElem? found), here i reg found⟩
  · intro consecutive
    refine ⟨fun i reg found => (consecutive i reg found).2, fun reg member => ?_⟩
    obtain ⟨i, found⟩ := List.mem_iff_getElem?.mp member
    exact (consecutive i reg found).1

theorem accessedAll {periph : ASTPeripheral}
    (offsets : (structOf periph).offsets = periph.registers.map fun reg => reg.offset.toNat) (i : Nat) :
    (structOf periph).accessed i =
      periph.registers[i]?.map fun reg => periph.baseAddress.toNat + reg.offset.toNat := by
  unfold Struct.accessed
  rw [offsets, List.getElem?_map, Option.map_map]
  rw [show (structOf periph).address = hex8 periph.baseAddress from rfl, hex8Value]
  rfl

/-! The text -/

theorem writtenText (ctx : CodegenContext) (periph : ASTPeripheral) : written ctx periph =
    comments ctx.indentLevel periph ++
      (structCalls periph).flatMap (laid (blanks ctx.indentLevel) (blanks (ctx.indentLevel + 1))) := by
  have calls : peripheralCalls periph =
      [.peripheralComment periph.name, .baseAddress periph.baseAddress] ++ structCalls periph := by
    simp [peripheralCalls, structCalls]
  unfold written comments
  rw [(peripheralLaid periph ctx rfl).2, List.drop_left, calls, List.flatMap_append]

section text
variable {periph : ASTPeripheral} {outside inside : Nat}

theorem structSpelled : (structOf periph).items = structItems (periph.renamed sanitizeIdentifier) := by
  have pointer (name address : CString) : "define ".toList ++ name ++ " ((volatile ".toList ++ (name ++ "_t".toList) ++
      " *)0x".toList ++ address =
        "define ".toList ++ name ++ " ((volatile ".toList ++ name ++ "_t *)0x".toList ++ address := by
    have ends : "_t *)0x".toList = "_t".toList ++ " *)0x".toList := rfl
    rw [ends]
    simp only [List.append_assoc]
  unfold structOf Struct.items structItems pointerText ASTPeripheral.renamed
  dsimp only
  rw [pointer, List.map_map, List.map_map]
  rfl

theorem structRead (read : CText.scan CText.fresh ((structCalls periph).flatMap (laid outside inside)) =
    ((structOf periph).items.flatMap Item.tokens, CText.fresh)) : Read outside inside (structCalls periph) := by
  rw [structSpelled] at read
  refine ⟨fun c mark fmt member => ?_, structMeant periph ▸ read, structMeant periph ▸ spelledFree (structSlashless ?_)⟩
  · refine lineShares (structWorded periph fmt member) ?_ mark
    unfold structCalls at member
    simp only [List.mem_append, List.mem_cons, List.mem_map, List.not_mem_nil, or_false] at member
    rcases member with (rfl | ⟨reg, -, rfl⟩) | rfl | rfl <;> rfl
  · refine List.forall_mem_cons.mpr ⟨sanitizedWord periph.name, fun name inside => ?_⟩
    obtain ⟨reg, listed, rfl⟩ := List.mem_map.mp inside
    obtain ⟨other, -, rfl⟩ := List.mem_map.mp listed
    exact sanitizedWord other.name

-- A comment of more lines, once begun, goes on to the end.
theorem structInside : (CText.uncomment .block ((structCalls periph).flatMap (laid outside inside))).2 ≠ .code := by
  obtain ⟨front, last, split⟩ : ∃ front last, structCalls periph = front ++ [last] ∧
      last = .pointerMacro (sanitizeIdentifier periph.name) periph.baseAddress ∧
      ∀ fmt ∈ front, ∀ name base, fmt ≠ .pointerMacro name base := by
    refine ⟨.structOpen :: periph.registers.map memberCall ++ [.structClose (sanitizeIdentifier periph.name)], _, ?_, rfl,
      fun fmt listed name base same => ?_⟩
    · simp [structCalls]
    · simp [same, memberCall] at listed
  obtain ⟨split, rfl, others⟩ := split
  have starless : '*' ∉ front.flatMap (laid outside inside) := by
    intro member
    obtain ⟨fmt, listed, star⟩ := List.mem_flatMap.mp member
    exact laidStarless (structWorded periph fmt (split ▸ List.mem_append_left _ listed)) (others fmt listed) star
  have kept := CText.insideSlashless (@pointerPlain outside inside _ (sanitizedWord periph.name) periph.baseAddress)
    (by decide : CText.Mode.block ∈ [.block, .star])
  rw [split, List.flatMap_append, List.flatMap_singleton, CText.uncommentAppend, CText.blockStarless starless]
  intro code
  rw [code] at kept
  exact absurd kept (by decide)

theorem structFirst {before : List CText.Token} (read : before ++
    (CText.scan CText.fresh ((structCalls periph).flatMap (laid outside inside))).1 =
      (structOf periph).items.flatMap Item.tokens) : before = [] := by
  obtain ⟨last, opened, rfl⟩ := @openGives outside inside CText.fresh rfl
  have calls : structCalls periph = .structOpen :: (structCalls periph).tail := rfl
  have items : (structOf periph).items = .opened :: (structOf periph).items.tail := rfl
  rw [calls, List.flatMap_cons, CText.scanAppend, opened, items, List.flatMap_cons] at read
  refine CText.openedFirst read ?_
  simp [Struct.items, Item.tokens]

end text

theorem readableText {ctx : CodegenContext} {periph : ASTPeripheral} (readable : Readable ctx.indentLevel periph) :
    CText.declarations (written ctx periph) = some (structOf periph).items := by
  obtain ⟨comments, usable, short, members⟩ := readable
  have named := usable.identifiers
  have gives := structGives (blanks ctx.indentLevel) (blanks (ctx.indentLevel + 1)) short fun reg member =>
    ⟨(named _ (List.mem_cons_of_mem _ (List.mem_map_of_mem member))).1, members reg member⟩
  obtain ⟨last, struct, rfl⟩ := gives CText.fresh rfl
  have formed : CText.formed false (structItems (periph.renamed sanitizeIdentifier) ++ []) = CText.formed false [] := by
    refine structFormed (List.forall_mem_cons.mpr ⟨named _ List.mem_cons_self, fun name inside => ?_⟩) []
    refine named _ (List.mem_cons_of_mem _ ?_)
    simpa [structOf, registerNames, ASTPeripheral.renamed, ASTRegister.renamed] using inside
  rw [List.append_nil] at formed
  refine CText.declarationsRead.mpr ⟨?_, structSpelled ▸ formed⟩
  rw [writtenText, CText.scanAppend, comments, struct, structSpelled, List.nil_append]

theorem commentsLine (level : Int) (periph : ASTPeripheral) : ∃ front, comments level periph = front ++ ['\n'] := by
  have line : (Format.baseAddress periph.baseAddress).expansion =
      "// Base Address: 0x".toList ++ hex8 periph.baseAddress ++ List.replicate 1 '\n' := rfl
  have one : '\n' ∉ "// Base Address: 0x".toList ++ hex8 periph.baseAddress :=
    List.not_mem_append (by decide) (wordNewline (hex8Word periph.baseAddress))
  have whole : (Format.baseAddress periph.baseAddress).expansion.take 4095 =
      "// Base Address: 0x".toList ++ hex8 periph.baseAddress ++ ['\n'] :=
    List.take_of_length_le (by rw [baseAddressLength]; decide)
  unfold comments
  rw [List.flatMap_cons, List.flatMap_singleton, laidLine _ 1 line (by simp) one, whole]
  exact ⟨_, by rw [← List.append_assoc, ← List.append_assoc]⟩

/-- A name on one line leaves nothing but comment, however long it is. -/
theorem commentsRead (level : Int) {periph : ASTPeripheral} (line : '\n' ∉ periph.name) :
    CText.scan CText.fresh (comments level periph) = ([], CText.fresh) := by
  have each {fmt : Format} {body : CString} (comment : remark fmt = some body) (one : '\n' ∉ body) :
      laid (blanks level) (blanks (level + 1)) fmt =
        List.replicate (blanks level) ' ' ++ ('/' :: '/' :: body ++ ['\n']).take 4095 := by
    rw [laidLine ('/' :: '/' :: body) 1 (remarkText comment) (by simp) (by simpa using one), remarkOuter comment,
      remarkText comment]
    rfl
  have named : '\n' ∉ " Peripheral: ".toList ++ periph.name := List.not_mem_append (by decide) line
  have digits : '\n' ∉ " Base Address: 0x".toList ++ hex8 periph.baseAddress :=
    remarkLine (show Worded (.baseAddress periph.baseAddress) from trivial) rfl
  have whole : ('/' :: '/' :: (" Base Address: 0x".toList ++ hex8 periph.baseAddress) ++ ['\n']).take 4095 =
      '/' :: '/' :: (" Base Address: 0x".toList ++ hex8 periph.baseAddress) ++ ['\n'] := by
    refine List.take_of_length_le ?_
    simp only [List.length_append, List.length_cons, hex8Length]
    decide
  have name := (CText.calmIndent (blanks level)).trans (CText.cutCommentGives named (by decide : 2 ≤ 4095))
  have base := (CText.calmIndent (blanks level)).trans (CText.commentGives digits)
  obtain ⟨last, scanned, rfl⟩ := (name.trans base) CText.fresh (CText.freshCalm rfl)
  unfold comments
  rw [List.flatMap_cons, List.flatMap_singleton, @each (.peripheralComment periph.name) _ rfl named,
    @each (.baseAddress periph.baseAddress) _ rfl digits, whole]
  exact scanned

theorem textReadable {ctx : CodegenContext} {periph : ASTPeripheral}
    (text : CText.declarations (written ctx periph) = some (structOf periph).items) (usable : (structOf periph).Usable) :
    Readable ctx.indentLevel periph := by
  have read := (CText.declarationsRead.mp text).1
  rw [writtenText, CText.scanAppend] at read
  obtain ⟨tokens, ends⟩ := Prod.mk.inj read
  obtain ⟨front, line⟩ := commentsLine ctx.indentLevel periph
  have above : (CText.scan CText.fresh (comments ctx.indentLevel periph)).2 = CText.fresh := by
    rcases line ▸ CText.scanEnds CText.fresh front with here | block
    · exact here
    · have left := congrArg Prod.fst ends
      unfold CText.scan at left block
      dsimp only at left block
      rw [block] at left
      exact absurd left structInside
  rw [above] at tokens ends
  have nothing := structFirst tokens
  rw [nothing, List.nil_append] at tokens
  obtain ⟨short, members⟩ := (structRead (Prod.ext tokens ends)).struct (List.infix_refl _)
  exact ⟨Prod.ext nothing above, usable, short, members⟩

def timer : ASTPeripheral := ⟨"TIMER".toList, 0x40054000,
  [⟨"TIMEHW".toList, some .typeU32, 0x00, []⟩, ⟨"TIMELW".toList, some .typeU32, 0x04, []⟩]⟩

def uart : ASTPeripheral := ⟨"UART0".toList, 0x40034000,
  [⟨"UARTDR".toList, some .typeU32, 0x00, []⟩, ⟨"UARTFR".toList, some .typeU32, 0x18, []⟩]⟩

end BitN.PeripheralLayout
