import BitN.HeaderNames
import BitN.Lib.CText
import BitN.Lib.Texts
import Mathlib.Data.List.Perm.Basic
import Mathlib.Data.List.Nodup

/-! The scopes of a header: when every name of the file is declared once, and no macro replaces a
member declared after it; and how long the lines of its calls are. -/
namespace BitN.HeaderScope

open CodegenCalls HeaderNames Texts

inductive Declaration where
  | typedefName (name : CString)
  | macroName (name : CString)
  -- Nothing is replaced where no parenthesis follows.
  | functionName (name : CString)
  | member (name : CString)
  deriving DecidableEq

def helperMacros : List CString := ["BIT_SET".toList, "BIT_CLR".toList, "BIT_TST".toList, "BIT_TGL".toList]

def objectMacros : List CString := CText.predefined ++ "__BITN_GENERATED_H".toList ::
  (CText.stdintMacros ++ CText.stdboolMacros ++ ["MMIO_REG".toList])

def fixedMacros : List CString := objectMacros ++ helperMacros

-- The first is an operator of the preprocessor.
def functionNames : List CString := "defined".toList :: CText.stdintFunctions

def languageDeclarations : List Declaration :=
  CText.predefined.map .macroName ++ [.functionName "defined".toList]

def stdintDeclarations : List Declaration := CText.stdintTypes.map .typedefName ++
  (CText.stdintMacros.map .macroName ++ CText.stdintFunctions.map .functionName)

/-- What stands before all peripherals, the language's own names and the included headers with it. -/
def preludeDeclarations : List Declaration :=
  languageDeclarations ++ .macroName "__BITN_GENERATED_H".toList :: (stdintDeclarations ++
    (CText.stdboolMacros.map .macroName ++ ("MMIO_REG".toList :: helperMacros).map .macroName))

def fileScope : Declaration → Option CString
  | .typedefName name | .macroName name | .functionName name => some name
  | .member _ => none

-- The preprocessor leaves the later one of them as it is.
def Kept (first later : Declaration) : Prop := ∀ name, first = .macroName name → later ≠ .member name

def CIdentifier (name : CString) : Prop :=
  name ≠ [] ∧ isDigit (name.headD '\x00') = false ∧ ∀ c ∈ name, isWord c = true
-- Over the characters of the name: `Char` has an instance that goes over all of them.
instance (name : CString) : Decidable (CIdentifier name) :=
  decidable_of_iff (name ≠ [] ∧ isDigit (name.headD '\x00') = false ∧ name.all isWord = true) (by simp [CIdentifier])

structure Clean (peripherals : List ASTPeripheral) : Prop where
  identifiers : ∀ periph ∈ peripherals, ∀ name ∈ periph.names, CIdentifier name ∧ name ∉ CText.keywords
  distinct : (peripherals.map ASTPeripheral.name).Nodup
  registers : ∀ periph ∈ peripherals, (periph.registers.map ASTRegister.name).Nodup
  fields : ∀ periph ∈ peripherals, ∀ reg ∈ periph.registers, (reg.fields.map ASTField.name).Nodup

def registerNames (periph : ASTPeripheral) : List CString := periph.registers.map ASTRegister.name

def fieldNames (periph : ASTPeripheral) : List CString :=
  periph.registers.flatMap fun reg => reg.fields.map ASTField.name

def ShortRegister (reg : ASTRegister) : Prop :=
  reg.name.length + (hex reg.offset).length ≤ 4068 ∧ (decimal reg.fields.length).length ≤ 4083 ∧
    ∀ field ∈ reg.fields, field.name.length ≤ 4063
instance (reg : ASTRegister) : Decidable (ShortRegister reg) := inferInstanceAs (Decidable (_ ∧ _ ∧ _))

-- Nothing but the comment behind a declaration may be cut off, and not within its marks.
def WrittenField (field : ASTField) : Prop := field.name.length ≤ 4063 ∨ field.name.length ∈ [4084, 4085]
instance (field : ASTField) : Decidable (WrittenField field) := inferInstanceAs (Decidable (_ ∨ _))

def WrittenRegister (reg : ASTRegister) : Prop :=
  reg.name.length + (hex reg.offset).length ≤ 4069 ∧ (decimal reg.fields.length).length ≤ 4083 ∧
    ∀ field ∈ reg.fields, WrittenField field
instance (reg : ASTRegister) : Decidable (WrittenRegister reg) := inferInstanceAs (Decidable (_ ∧ _ ∧ _))

/-- Names apart across the whole program and from those of the included headers, not only within their
parents, and none so long that a declaration is cut. -/
structure Separate (peripherals : List ASTPeripheral) : Prop where
  registers : (peripherals.flatMap registerNames).Nodup
  suffixes : ∀ periph ∈ peripherals, ∀ other ∈ peripherals, periph.name ≠ other.name ++ "_t".toList ∧
    ∀ name ∈ registerNames other, periph.name ≠ name ++ "_bitfield".toList ∧ periph.name ≠ name ++ "_bitfield_t".toList
  standard : ∀ periph ∈ peripherals, periph.name ∉ CText.stdintTypes ++ functionNames ∧
    periph.name ++ "_t".toList ∉ CText.stdintTypes
  fixed : ∀ periph ∈ peripherals, ∀ name ∈ periph.name :: registerNames periph ++ fieldNames periph,
    name ∉ fixedMacros
  own : ∀ periph ∈ peripherals, periph.name ∉ fieldNames periph
  later : peripherals.Pairwise fun periph after => periph.name ∉ registerNames after ++ fieldNames after
  written : ∀ periph ∈ peripherals, periph.name.length ≤ 2029 ∧ ∀ reg ∈ periph.registers, WrittenRegister reg

/-! What a header declares -/

def deviceDeclarations (periph : ASTPeripheral) : List Declaration :=
  (registerNames periph).map .member ++
    [.typedefName (periph.name ++ "_t".toList), .macroName periph.name] ++
    periph.registers.flatMap fun reg =>
      reg.fields.map (fun field => .member field.name) ++ [.typedefName (reg.name ++ "_bitfield_t".toList)]

@[simp] theorem memberDeclared (periph : ASTPeripheral) (name : CString) :
    .member name ∈ deviceDeclarations periph ↔ name ∈ registerNames periph ++ fieldNames periph := by
  simp [deviceDeclarations, fieldNames]

@[simp] theorem macroDeclared (periph : ASTPeripheral) (name : CString) :
    .macroName name ∈ deviceDeclarations periph ↔ name = periph.name := by
  simp [deviceDeclarations]

/-! File scope -/

def bitfieldName (name : CString) : CString := name ++ "_bitfield_t".toList

def fixedNames : List CString := preludeDeclarations.filterMap fileScope

theorem macroFixed {name : CString} : name ∈ fixedMacros ↔ name ∈ CText.predefined ∨ name = "__BITN_GENERATED_H".toList ∨
    name ∈ CText.stdintMacros ∨ name ∈ CText.stdboolMacros ∨ name = "MMIO_REG".toList ∨ name ∈ helperMacros := by
  unfold fixedMacros objectMacros
  simp only [List.mem_append, List.mem_cons, List.not_mem_nil, or_false, or_assoc]

theorem preludeDeclares {first : Declaration} : first ∈ preludeDeclarations ↔
    (∃ name ∈ CText.stdintTypes, first = .typedefName name) ∨ (∃ name ∈ functionNames, first = .functionName name) ∨
      ∃ name ∈ fixedMacros, first = .macroName name := by
  unfold preludeDeclarations languageDeclarations stdintDeclarations functionNames
  simp only [List.mem_append, List.mem_cons, List.mem_map, List.not_mem_nil, or_false]
  constructor
  · rintro ((⟨name, listed, rfl⟩ | rfl) | rfl | (⟨name, listed, rfl⟩ | ⟨name, listed, rfl⟩ | ⟨name, listed, rfl⟩) |
      ⟨name, listed, rfl⟩ | ⟨name, rfl | listed, rfl⟩)
    · exact .inr (.inr ⟨name, macroFixed.mpr (.inl listed), rfl⟩)
    · exact .inr (.inl ⟨_, .inl rfl, rfl⟩)
    · exact .inr (.inr ⟨_, macroFixed.mpr (.inr (.inl rfl)), rfl⟩)
    · exact .inl ⟨name, listed, rfl⟩
    · exact .inr (.inr ⟨name, macroFixed.mpr (.inr (.inr (.inl listed))), rfl⟩)
    · exact .inr (.inl ⟨name, .inr listed, rfl⟩)
    · exact .inr (.inr ⟨name, macroFixed.mpr (.inr (.inr (.inr (.inl listed)))), rfl⟩)
    · exact .inr (.inr ⟨_, macroFixed.mpr (.inr (.inr (.inr (.inr (.inl rfl))))), rfl⟩)
    · exact .inr (.inr ⟨name, macroFixed.mpr (.inr (.inr (.inr (.inr (.inr listed))))), rfl⟩)
  · rintro (⟨name, listed, rfl⟩ | ⟨name, rfl | listed, rfl⟩ | ⟨name, fixed, rfl⟩)
    · exact .inr (.inr (.inl (.inl ⟨name, listed, rfl⟩)))
    · exact .inl (.inr rfl)
    · exact .inr (.inr (.inl (.inr (.inr ⟨name, listed, rfl⟩))))
    · rcases macroFixed.mp fixed with listed | rfl | listed | listed | own
      · exact .inl (.inl ⟨name, listed, rfl⟩)
      · exact .inr (.inl rfl)
      · exact .inr (.inr (.inl (.inr (.inl ⟨name, listed, rfl⟩))))
      · exact .inr (.inr (.inr (.inl ⟨name, listed, rfl⟩)))
      · exact .inr (.inr (.inr (.inr ⟨name, own, rfl⟩)))

theorem fixedNamed (name : CString) : name ∈ fixedNames ↔
    (name ∈ CText.stdintTypes ++ functionNames) ∨ name ∈ fixedMacros := by
  unfold fixedNames
  simp only [List.mem_filterMap, preludeDeclares, List.mem_append]
  constructor
  · rintro ⟨first, ⟨other, listed, rfl⟩ | ⟨other, listed, rfl⟩ | ⟨other, listed, rfl⟩, scope⟩
    · exact .inl (.inl (Option.some.inj scope ▸ listed))
    · exact .inl (.inr (Option.some.inj scope ▸ listed))
    · exact .inr (Option.some.inj scope ▸ listed)
  · rintro ((listed | listed) | listed)
    · exact ⟨_, .inl ⟨name, listed, rfl⟩, rfl⟩
    · exact ⟨_, .inr (.inl ⟨name, listed, rfl⟩), rfl⟩
    · exact ⟨_, .inr (.inr ⟨name, listed, rfl⟩), rfl⟩

theorem fileScopeNames (peripherals : List ASTPeripheral) :
    ((preludeDeclarations ++ peripherals.flatMap deviceDeclarations).filterMap fileScope).Perm
      (fixedNames ++ ((peripherals.map fun periph => periph.name ++ "_t".toList) ++
        (peripherals.map ASTPeripheral.name ++ (peripherals.flatMap registerNames).map bitfieldName))) := by
  have device : ∀ periph, (deviceDeclarations periph).filterMap fileScope =
      (periph.name ++ "_t".toList) :: periph.name :: (registerNames periph).map bitfieldName := by
    intro periph
    simp [deviceDeclarations, List.filterMap_append, List.filterMap_flatMap, fileScope, registerNames, bitfieldName,
      Function.comp_def, ← List.map_eq_flatMap]
  have names := List.map_append_flatMap_perm peripherals ASTPeripheral.name fun periph =>
    (registerNames periph).map bitfieldName
  have typedefs := List.map_append_flatMap_perm peripherals (fun periph => periph.name ++ "_t".toList) fun periph =>
    periph.name :: (registerNames periph).map bitfieldName
  rw [List.filterMap_append, List.filterMap_flatMap, List.flatMap_congr fun periph _ => device periph, List.map_flatMap]
  exact .append (.refl _) (typedefs.symm.trans (names.symm.append_left _))

theorem suffixFixed {name : CString} : name ++ "_t".toList ∈ fixedNames ↔ name ++ "_t".toList ∈ CText.stdintTypes := by
  have last : ∀ other ∈ functionNames ++ fixedMacros, ¬ "_t".toList <:+ other := by decide +kernel
  have none : name ++ "_t".toList ∉ functionNames ++ fixedMacros := fun member => last _ member (List.suffix_append ..)
  rw [List.mem_append, not_or] at none
  rw [fixedNamed, List.mem_append, or_iff_left none.1, or_iff_left none.2]

theorem bitfieldSuffix (name : CString) : bitfieldName name = (name ++ "_bitfield".toList) ++ "_t".toList := by
  rw [List.append_assoc]
  rfl

theorem bitfieldNotFixed {name : CString} : bitfieldName name ∉ fixedNames := by
  intro fixed
  have last : ∀ other ∈ fixedNames, ¬ "_bitfield_t".toList <:+ other := by decide +kernel
  exact last _ fixed (List.suffix_append ..)

theorem onceSeparate {peripherals : List ASTPeripheral} (distinct : (peripherals.map ASTPeripheral.name).Nodup) :
    ((preludeDeclarations ++ peripherals.flatMap deviceDeclarations).filterMap fileScope).Nodup ↔
      (peripherals.flatMap registerNames).Nodup ∧
        (∀ periph ∈ peripherals, ∀ other ∈ peripherals, periph.name ≠ other.name ++ "_t".toList ∧
          ∀ name ∈ registerNames other,
            periph.name ≠ name ++ "_bitfield".toList ∧ periph.name ≠ name ++ "_bitfield_t".toList) ∧
        ∀ periph ∈ peripherals, periph.name ∉ fixedNames ∧ periph.name ++ "_t".toList ∉ fixedNames := by
  have suffixed : (peripherals.map fun periph => periph.name ++ "_t".toList).Nodup := by
    have all := List.Nodup.map (fun one two : CString => @List.append_cancel_right _ one "_t".toList two) distinct
    rwa [List.map_map] at all
  have bitfields : ((peripherals.flatMap registerNames).map bitfieldName).Nodup ↔
      (peripherals.flatMap registerNames).Nodup :=
    List.nodup_map_iff fun one two => @List.append_cancel_right _ one _ two
  have fixed : fixedNames.Nodup := by decide +kernel
  rw [(fileScopeNames peripherals).nodup_iff, List.nodup_append, List.nodup_append, List.nodup_append, bitfields]
  constructor
  · intro ⟨_, ⟨_, ⟨_, registers, pointers⟩, typedefs⟩, fixed⟩
    have bitfield : ∀ other ∈ peripherals, ∀ name ∈ registerNames other,
        bitfieldName name ∈ (peripherals.flatMap registerNames).map bitfieldName := fun other member name inside =>
      List.mem_map_of_mem (List.mem_flatMap_of_mem member inside)
    refine ⟨registers, fun periph member other member' => ⟨fun same => ?_, fun name inside => ⟨fun same => ?_, ?_⟩⟩,
      fun periph member => ⟨fun reserved => ?_, fun reserved => ?_⟩⟩
    · exact typedefs _ (List.mem_map_of_mem member') _ (List.mem_append_left _ (List.mem_map_of_mem member)) same.symm
    · refine typedefs _ (List.mem_map_of_mem member) _ (List.mem_append_right _ (bitfield other member' name inside)) ?_
      rw [bitfieldSuffix, same]
    · exact pointers _ (List.mem_map_of_mem member) _ (bitfield other member' name inside)
    · exact fixed _ reserved _ (List.mem_append_right _ (List.mem_append_left _ (List.mem_map_of_mem member))) rfl
    · exact fixed _ reserved _ (List.mem_append_left _ (List.mem_map_of_mem member)) rfl
  · intro ⟨registers, suffixes, pointers⟩
    refine ⟨fixed, ⟨suffixed, ⟨distinct, registers, ?_⟩, ?_⟩, ?_⟩
    · intro name member bitfield inside
      obtain ⟨periph, of, rfl⟩ := List.mem_map.mp member
      obtain ⟨register, among, rfl⟩ := List.mem_map.mp inside
      obtain ⟨other, member', owned⟩ := List.mem_flatMap.mp among
      exact ((suffixes periph of other member').2 register owned).2
    · intro typedef member name inside same
      obtain ⟨periph, of, rfl⟩ := List.mem_map.mp member
      rcases List.mem_append.mp inside with inside | inside
      · obtain ⟨other, member', rfl⟩ := List.mem_map.mp inside
        exact (suffixes other member' periph of).1 same.symm
      · obtain ⟨register, among, rfl⟩ := List.mem_map.mp inside
        obtain ⟨other, member', owned⟩ := List.mem_flatMap.mp among
        rw [bitfieldSuffix] at same
        exact ((suffixes periph of other member').2 register owned).1 (List.append_cancel_right same)
    · intro reserved member name inside same
      subst same
      rcases List.mem_append.mp inside with inside | inside
      · obtain ⟨periph, member', rfl⟩ := List.mem_map.mp inside
        exact (pointers periph member').2 member
      rcases List.mem_append.mp inside with inside | inside
      · obtain ⟨periph, member', rfl⟩ := List.mem_map.mp inside
        exact (pointers periph member').1 member
      · obtain ⟨register, -, rfl⟩ := List.mem_map.mp inside
        exact bitfieldNotFixed member

/-! Members -/

@[simp] theorem keptMember (name : CString) (later : Declaration) : Kept (.member name) later :=
  fun _ other => by cases other

@[simp] theorem keptTypedef (name : CString) (later : Declaration) : Kept (.typedefName name) later :=
  fun _ other => by cases other

@[simp] theorem keptMacro (name : CString) (later : Declaration) :
    Kept (.macroName name) later ↔ later ≠ .member name :=
  ⟨fun kept => kept name rfl, fun kept _ same => by cases same; exact kept⟩

theorem oneMacro {front back : List Declaration} {name : CString}
    (others : ∀ first ∈ front ++ back, ∀ later, Kept first later) :
    (front ++ .macroName name :: back).Pairwise Kept ↔ .member name ∉ back := by
  have before : front.Pairwise Kept :=
    List.pairwise_of_forall_mem_list fun first member _ _ => others first (List.mem_append_left _ member) _
  have after : back.Pairwise Kept :=
    List.pairwise_of_forall_mem_list fun first member _ _ => others first (List.mem_append_right _ member) _
  rw [List.pairwise_append, List.pairwise_cons]
  constructor
  · intro ⟨_, ⟨kept, _⟩, _⟩ member
    exact (keptMacro name _).mp (kept _ member) rfl
  · intro absent
    refine ⟨before, ⟨fun later member => ?_, after⟩, fun first member later _ =>
      others first (List.mem_append_left _ member) later⟩
    rw [keptMacro]
    exact fun same => absent (same ▸ member)

theorem fieldsKept (periph : ASTPeripheral) :
    (deviceDeclarations periph).Pairwise Kept ↔ periph.name ∉ fieldNames periph := by
  have shape : deviceDeclarations periph =
      ((registerNames periph).map Declaration.member ++ [Declaration.typedefName (periph.name ++ "_t".toList)]) ++
        Declaration.macroName periph.name :: periph.registers.flatMap fun reg =>
          reg.fields.map (fun field => Declaration.member field.name) ++
            [Declaration.typedefName (reg.name ++ "_bitfield_t".toList)] := by
    simp [deviceDeclarations]
  rw [shape, oneMacro]
  · simp [fieldNames]
  · intro first member
    simp only [List.mem_append, List.mem_map, List.mem_singleton, List.mem_flatMap] at member
    obtain (⟨name, -, rfl⟩ | rfl) | ⟨reg, -, ⟨field, -, rfl⟩ | rfl⟩ := member
    · exact keptMember _
    · exact keptTypedef _
    · exact keptMember _
    · exact keptTypedef _

theorem membersSeparate (peripherals : List ASTPeripheral) :
    (preludeDeclarations ++ peripherals.flatMap deviceDeclarations).Pairwise Kept ↔
      (∀ periph ∈ peripherals, ∀ name ∈ registerNames periph ++ fieldNames periph, name ∉ fixedMacros) ∧
        (∀ periph ∈ peripherals, periph.name ∉ fieldNames periph) ∧
        peripherals.Pairwise fun periph after => periph.name ∉ registerNames after ++ fieldNames after := by
  have fixed : preludeDeclarations.Pairwise Kept := by
    refine List.pairwise_of_forall_mem_list fun first _ later member name _ same => ?_
    obtain ⟨other, -, rfl⟩ | ⟨other, -, rfl⟩ | ⟨other, -, rfl⟩ := preludeDeclares.mp member <;> cases same
  have apart : ∀ periph after : ASTPeripheral, (∀ first ∈ deviceDeclarations periph, ∀ later ∈ deviceDeclarations after,
      Kept first later) ↔ periph.name ∉ registerNames after ++ fieldNames after := by
    intro periph after
    rw [← memberDeclared]
    constructor
    · intro kept member
      exact kept _ ((macroDeclared _ _).mpr rfl) _ member _ rfl rfl
    · rintro absent first declared later member name rfl rfl
      rw [macroDeclared] at declared
      exact absent (declared ▸ member)
  rw [List.pairwise_append, List.pairwise_flatMap]
  simp only [fieldsKept, apart, fixed, true_and]
  rw [and_comm]
  refine and_congr ?_ Iff.rfl
  constructor
  · intro kept periph member name inside reserved
    exact kept _ (preludeDeclares.mpr (.inr (.inr ⟨name, reserved, rfl⟩))) _
      (List.mem_flatMap_of_mem member ((memberDeclared periph name).mpr inside)) name rfl rfl
  · rintro separate first reserved later declared name rfl rfl
    obtain ⟨other, -, same⟩ | ⟨other, -, same⟩ | ⟨other, reserved, same⟩ := preludeDeclares.mp reserved
    · cases same
    · cases same
    · cases same
      obtain ⟨periph, member, declared⟩ := List.mem_flatMap.mp declared
      exact separate periph member name ((memberDeclared periph name).mp declared) reserved

/-! Lengths -/

theorem hex8Length (n : UInt32) : (hex8 n).length = 8 := by
  have short : (hex n).length ≤ 8 := (Nat.length_toDigits_le_iff (by decide) (by decide)).mpr n.toNat_lt
  unfold hex8
  rw [List.length_leftpad]
  exact Nat.max_eq_left short

@[simp] theorem peripheralCommentLength (name : CString) :
    (Format.peripheralComment name).expansion.length = name.length + 16 := by
  unfold Format.expansion
  simp only [List.length_append]
  change 15 + _ + 1 = _
  omega

@[simp] theorem baseAddressLength (base : UInt32) : (Format.baseAddress base).expansion.length = 28 := by
  unfold Format.expansion
  simp only [List.length_append, hex8Length]
  rfl

@[simp] theorem memberLength (name : CString) (offset : UInt32) :
    (Format.member name offset).expansion.length = name.length + (hex offset).length + 26 := by
  unfold Format.expansion
  simp only [List.length_append]
  change 9 + _ + 16 + _ + 1 = _
  omega

@[simp] theorem structCloseLength (name : CString) :
    (Format.structClose name).expansion.length = name.length + 7 := by
  unfold Format.expansion
  simp only [List.length_append]
  change 2 + _ + 5 = _
  omega

@[simp] theorem pointerMacroLength (name : CString) (base : UInt32) :
    (Format.pointerMacro name base).expansion.length = 2 * name.length + 38 := by
  unfold Format.expansion
  simp only [List.length_append, hex8Length]
  change 8 + _ + 12 + _ + 7 + 8 + 3 = _
  omega

@[simp] theorem registerCommentLength (name : CString) (offset : UInt32) :
    (Format.registerComment name offset).expansion.length = name.length + (hex offset).length + 27 := by
  unfold Format.expansion
  simp only [List.length_append]
  change 13 + _ + 12 + _ + 2 = _
  omega

@[simp] theorem fieldCountLength (count : Nat) :
    (Format.fieldCount count).expansion.length = (decimal count).length + 12 := by
  unfold Format.expansion
  simp only [List.length_append]
  change 11 + _ + 1 = _
  omega

@[simp] theorem fieldMemberLength (name : CString) :
    (Format.fieldMember name).expansion.length = name.length + 32 := by
  unfold Format.expansion
  simp only [List.length_append]
  change 9 + _ + 23 = _
  omega

@[simp] theorem bitfieldCloseLength (name : CString) :
    (Format.bitfieldClose name).expansion.length = name.length + 16 := by
  unfold Format.expansion
  simp only [List.length_append]
  change 2 + _ + 14 = _
  omega

@[simp] theorem fieldAccessorLength (name : CString) :
    (Format.fieldAccessor name).expansion.length = name.length + 23 := by
  unfold Format.expansion
  simp only [List.length_append]
  change 22 + _ + 1 = _
  omega

theorem registerWhole (reg : ASTRegister) (kept : ∀ name ∈ reg.names, sanitizeIdentifier name = name) :
    (memberCall reg).expansion.length ≤ 4095 ∧
        (∀ fmt ∈ registerCalls reg ++ accessorCalls reg, fmt.expansion.length ≤ 4095) ↔ ShortRegister reg := by
  have fields : ∀ field ∈ reg.fields, sanitizeIdentifier field.name = field.name := fun field member =>
    kept _ (ASTRegister.fieldNamed member)
  have opened : Format.structOpen.expansion.length ≤ 4095 := by decide
  unfold memberCall registerCalls accessorCalls ShortRegister
  rw [kept _ List.mem_cons_self]
  simp only [List.forall_mem_append, List.forall_mem_cons, List.forall_mem_map, memberLength, registerCommentLength,
    fieldCountLength, fieldMemberLength, bitfieldCloseLength, fieldAccessorLength]
  constructor
  · intro ⟨_, ⟨⟨⟨comment, count, _⟩, members⟩, _⟩, _⟩
    refine ⟨by omega, by omega, fun field member => ?_⟩
    have := members field member
    rw [fields field member] at this
    omega
  · intro ⟨comment, count, members⟩
    refine ⟨by omega, ⟨⟨⟨by omega, by omega, opened, by simp⟩, fun field member => ?_⟩, by omega, by simp⟩,
      fun field member => ?_⟩ <;> rw [fields field member] <;> have := members field member <;> omega

theorem deviceWhole (periph : ASTPeripheral) (kept : ∀ name ∈ periph.names, sanitizeIdentifier name = name) :
    (∀ fmt ∈ deviceCalls periph, fmt.expansion.length ≤ 4095) ↔
      2 * periph.name.length ≤ 4057 ∧ ∀ reg ∈ periph.registers, ShortRegister reg := by
  have registers : ∀ reg ∈ periph.registers, (memberCall reg).expansion.length ≤ 4095 ∧
      (∀ fmt ∈ registerCalls reg ++ accessorCalls reg, fmt.expansion.length ≤ 4095) ↔ ShortRegister reg :=
    fun reg member => registerWhole reg fun name inside =>
      kept name (ASTPeripheral.registerNamed member inside)
  have opened : Format.structOpen.expansion.length ≤ 4095 ∧ Format.newline.expansion.length ≤ 4095 := by decide
  unfold deviceCalls peripheralCalls
  rw [kept _ List.mem_cons_self]
  simp only [List.forall_mem_append, List.forall_mem_cons, List.forall_mem_map, List.forall_mem_flatMap,
    peripheralCommentLength, baseAddressLength, structCloseLength, pointerMacroLength] at registers ⊢
  constructor
  · intro ⟨⟨⟨⟨_, members⟩, _, macroName, _⟩, bodies⟩, _⟩
    exact ⟨by omega, fun reg member => (registers reg member).mp ⟨members reg member, bodies reg member⟩⟩
  · intro ⟨name, short⟩
    exact ⟨⟨⟨⟨⟨by omega, by omega, opened.1, by simp⟩, fun reg member => ((registers reg member).mpr (short reg member)).1⟩,
      by omega, by omega, by simp⟩, fun reg member => ((registers reg member).mpr (short reg member)).2⟩, opened.2, by simp⟩

theorem preludeWhole : ∀ fmt ∈ [.fileHeader "bitn source".toList, .includes, .mmioReg true, .helpers],
    (Format.expansion fmt).length ≤ 4095 := by
  have includes : Format.includes.expansion.length ≤ 1000 + 1000 := by
    unfold Format.expansion
    dsimp only
    rw [String.toList_append, List.length_append]
    exact Nat.add_le_add (literalShort (by decide)) (literalShort (by decide))
  have helpers : Format.helpers.expansion.length ≤ 1000 + 1000 + 1000 := by
    unfold Format.expansion
    dsimp only
    rw [String.toList_append, String.toList_append, List.length_append, List.length_append]
    exact Nat.add_le_add (Nat.add_le_add (literalShort (by decide)) (literalShort (by decide))) (literalShort (by decide))
  have comment : (Format.fileHeader "bitn source".toList).expansion.length ≤ 1000 + 1000 + 1000 := by
    unfold Format.expansion
    dsimp only
    rw [List.length_append, List.length_append]
    exact Nat.add_le_add (Nat.add_le_add (literalShort (by decide)) (literalShort (by decide))) (literalShort (by decide))
  have register : (Format.mmioReg true).expansion.length ≤ 1000 := literalShort (by decide)
  simp only [List.forall_mem_cons]
  exact ⟨comment.trans (by decide), includes.trans (by decide), register.trans (by decide), helpers.trans (by decide),
    by simp⟩

theorem headerWhole (program : ASTProgram)
    (identifiers : ∀ periph ∈ program.peripherals, ∀ name ∈ periph.names, CIdentifier name) :
    (∀ fmt ∈ programCalls program, fmt.expansion.length ≤ 4095) ↔
      ∀ periph ∈ program.peripherals, 2 * periph.name.length ≤ 4057 ∧ ∀ reg ∈ periph.registers, ShortRegister reg := by
  have footer : ∀ fmt ∈ [Format.fileFooter], fmt.expansion.length ≤ 4095 := by decide
  unfold programCalls
  rw [List.forall_mem_append, List.forall_mem_append, List.forall_mem_flatMap, and_iff_left footer,
    and_iff_right preludeWhole]
  refine forall₂_congr fun periph member => deviceWhole periph fun name inside => ?_
  exact sanitizeWord (identifiers periph member name inside).2.2

def uart (name : CString) (base : UInt32) : ASTPeripheral := ⟨name, base,
  [⟨"UARTDR".toList, some .typeU32, 0x00, [⟨"DATA".toList, 0, 8, .accessRw⟩]⟩,
    ⟨"UARTFR".toList, some .typeU32, 0x18, [⟨"CTS".toList, 0, 1, .accessRo⟩]⟩]⟩

end BitN.HeaderScope
