import BitN.ParserLiterals

/-! The numerals of a text and the numbers of its tree: which of them are kept by their positional
value, and which of the others leave the error flag set. -/
namespace BitN

/-- A numeral kept as it was written: by its value if the field can hold it, and behind an
error if the field cannot or there are no digits. -/
def Kept (numeral : CString) (width value : Nat) (flag : Bool) : Prop :=
  (numeralValue numeral < 2 ^ width → value = numeralValue numeral) ∧
    (2 ^ width ≤ numeralValue numeral ∨ ¬ HasDigits numeral → flag = true)

structure Readable (numeral : CString) (width : Nat) : Prop where
  fits : numeralValue numeral < 2 ^ width
  digits : HasDigits numeral
  plain : Plain numeral

def Agreeing (numeral : CString) (width : Nat) : Prop := numeralValue numeral < 2 ^ width → Plain numeral

/-- Where a number of the tree comes from; `missing` where a device has no numeral for it. -/
inductive Slot where
  | literal (text : CString)
  | field (text : CString)
  | missing

def Slot.text : Slot → Option CString
  | .literal text | .field text => some text
  | .missing => none

def Event.slots : Event → List Slot
  | .store text 64 _ => [.literal text]
  | .store text _ _ => [.field text]
  | .message _ _ text => if text ∈ ParserLiterals.numberMessages then [.missing] else []
  | _ => []

def Parser.slots (p : Parser) : List Slot := p.trace.reverse.flatMap Event.slots

def literalTexts (slots : List Slot) : List CString :=
  slots.filterMap fun | .literal text => some text | _ => none

def fieldTexts (slots : List Slot) : List (Option CString) :=
  slots.filterMap fun | .literal _ => none | slot => some slot.text

def Token.numeral (tok : Token) : Option CString := if tok.type = .tokNumber then some tok.value else none

/-- The literals, base addresses, offsets and bits of the tree, with the numerals they are read from. -/
structure AllKept (program : ASTProgram) (p : Parser) : Prop where
  literals : List.Forall₂ (fun text value => Kept (LexerScan.numeralSpan text) 64 value.toNat p.error)
    (literalTexts p.slots) program.literals
  numbers : List.Forall₂ (fun slot value => ∀ text ∈ slot, Kept (LexerScan.numeralSpan text) 32 value.toNat p.error)
    (fieldTexts p.slots) program.numbers

/-- What holds of each numeral that has been read, with the width it is kept in. -/
structure Parser.Numerals (P : CString → Nat → Prop) (p : Parser) : Prop where
  literals : ∀ text ∈ literalTexts p.slots, P (LexerScan.numeralSpan text) 64
  numbers : ∀ slot ∈ fieldTexts p.slots, ∀ text ∈ slot, P (LexerScan.numeralSpan text) 32

namespace ParserNumerals

open Run ParserRun ParserSound ParserLiterals LexerScan LexerSpans

theorem keptClear {numeral : CString} {width : Nat} (shape : Lexical.Numeral numeral) (narrow : width ≤ 64) :
    Kept numeral width ((strtoull numeral).toNat % 2 ^ width) false ↔ Readable numeral width := by
  constructor
  · rintro ⟨positional, reported⟩
    obtain ⟨fits, digits⟩ : numeralValue numeral < 2 ^ width ∧ HasDigits numeral := by
      simpa [not_or] using mt reported (by decide)
    exact ⟨fits, digits, (Numeral.storedPlain shape narrow fits).mp (positional fits)⟩
  · rintro ⟨fits, digits, plain⟩
    refine ⟨fun _ => (Numeral.storedPlain shape narrow fits).mpr plain, fun broken => ?_⟩
    exact absurd broken (not_or.mpr ⟨Nat.not_le.mpr fits, not_not.mpr digits⟩)

theorem keptSet {numeral : CString} {width : Nat} (shape : Lexical.Numeral numeral) (narrow : width ≤ 64) :
    Kept numeral width ((strtoull numeral).toNat % 2 ^ width) true ↔ Agreeing numeral width := by
  rw [Kept, and_iff_left fun _ => rfl]
  exact imp_congr_right fun fits => Numeral.storedPlain shape narrow fits

/-! Where the numbers of a tree come from -/

theorem noteSlots (p : Parser) (e : Event) : (p.note e).slots = p.slots ++ e.slots := by
  simp [Parser.slots, Parser.note]

theorem aheadNumeral {p : Parser} (number : p.current.type = .tokNumber) :
    p.ahead = p.current :: p.advance.ahead ∧ [p.current].filterMap Token.numeral = [p.current.value] := by
  refine ⟨aheadCons (by simp [number]), ?_⟩
  simp [Token.numeral, number]

theorem aheadOther {p : Parser} (other : p.current.type ∉ [.tokNumber, .tokEof]) :
    p.ahead = p.current :: p.advance.ahead ∧ [p.current].filterMap Token.numeral = [] := by
  obtain ⟨plain, more⟩ : p.current.type ≠ .tokNumber ∧ p.current.type ≠ .tokEof := by simpa using other
  refine ⟨aheadCons more, ?_⟩
  simp [Token.numeral, plain]

/-- The labels are the numbers noted on the way, and their numerals the number tokens taken on it. -/
def Noted (p : Parser) (made : List Slot) (last : Parser) : Prop :=
  last.slots = p.slots ++ made ∧ ∃ read, p.ahead = read ++ last.ahead ∧
    read.filterMap Token.numeral = made.filterMap Slot.text

instance : Passage Noted where
  refl p := ⟨(List.append_nil _).symm, [], rfl, rfl⟩
  trans := by
    rintro p q last made more ⟨slots, read, ahead, numerals⟩ ⟨slots', read', ahead', numerals'⟩
    refine ⟨by rw [slots', slots, List.append_assoc], read ++ read', ?_, ?_⟩
    · rw [ahead, ahead', List.append_assoc]
    · rw [List.filterMap_append, List.filterMap_append, numerals, numerals']

theorem notedStill {p : Parser} {e : Event} (none : e.slots = []) : Noted p [] (p.note e) :=
  ⟨by rw [noteSlots, none], [], rfl, rfl⟩

theorem notedAdvance {p : Parser} (other : p.current.type ∉ [.tokNumber, .tokEof]) : Noted p [] p.advance :=
  ⟨(List.append_nil _).symm, [p.current], aheadOther other⟩

theorem notedNumber {p : Parser} {e : Event} {slot : Slot} (number : p.current.type = .tokNumber)
    (noted : e.slots = [slot]) (same : slot.text = some p.current.value) : Noted p [slot] (p.note e).advance := by
  refine ⟨?_, [p.current], ?_⟩
  · exact (noteSlots p e).trans (by rw [noted])
  · rw [List.filterMap_cons_some same]
    exact aheadNumeral number

def slotsNoted : Reading Slot where
  via := Noted
  passage := inferInstance
  literal := .literal
  field slot := [slot.elim .missing .field]
  functionWord := []
  peripheralWord := []
  advanced p quiet := by
    refine notedAdvance fun member => quiet ?_
    rcases List.mem_pair.mp member with here | here <;> rw [here] <;> decide
  entered _ _ := notedStill rfl
  repeated _ _ _ := notedStill rfl
  failed p message other := notedStill (if_neg other)
  literalRead _ number := notedNumber number rfl rfl
  fieldRead _ number := notedNumber number rfl rfl
  fieldMissing p message missing := ⟨(noteSlots p _).trans (congrArg (p.slots ++ ·) (if_pos missing)), [], rfl, rfl⟩
  functionOpened p opened := by
    refine notedAdvance fun member => absurd opened ?_
    rcases List.mem_pair.mp member with here | here <;> rw [here] <;> decide
  peripheralOpened p opened := notedAdvance (by rw [opened]; decide)

theorem spelledTexts {values : List UInt64} {made : List Slot} (spelled : Spelled slotsNoted values made) :
    List.Forall₂ Reads (literalTexts made) values ∧ fieldTexts made = [] := by
  obtain ⟨texts, rfl, reads⟩ := spelled
  have literals : literalTexts (texts.map slotsNoted.literal) = texts := by
    rw [literalTexts, List.filterMap_map]
    exact List.filterMap_some
  refine ⟨literals.symm ▸ reads, ?_⟩
  rw [fieldTexts, List.filterMap_map]
  exact List.filterMap_eq_nil_iff.mpr fun text member => rfl

theorem filledTexts {values : List UInt32} {made : List Slot} (filled : Filled slotsNoted values made) :
    literalTexts made = [] ∧ List.Forall₂ ReadsField (fieldTexts made) values := by
  obtain ⟨slots, rfl, reads⟩ := filled
  constructor
  · clear reads
    induction slots with
    | nil => rfl
    | cons slot slots ih =>
      rw [List.flatMap_cons, literalTexts, List.filterMap_append]
      cases slot with
      | none => exact ih
      | some text => exact ih
  · have fields : fieldTexts (slots.flatMap slotsNoted.field) = slots := by
      clear reads
      induction slots with
      | nil => rfl
      | cons slot slots ih =>
        rw [List.flatMap_cons, fieldTexts, List.filterMap_append]
        cases slot with
        | none => exact congrArg (none :: ·) ih
        | some text => exact congrArg (some text :: ·) ih
    exact fields.symm ▸ reads

def ReadFrom (program : ASTProgram) (made : List Slot) : Prop :=
  List.Forall₂ Reads (literalTexts made) program.literals ∧ List.Forall₂ ReadsField (fieldTexts made) program.numbers

theorem programNoted (n : Nat) : Draws slotsNoted ReadFrom (parserParseProgram n) := by
  refine drawsProgram ReadFrom ⟨.nil, .nil⟩ ?_ ?_ n
  · rintro program u f v ⟨literals, numbers⟩ spelled
    obtain ⟨reads, none⟩ := spelledTexts spelled
    refine ⟨?_, ?_⟩
    · rw [ASTProgram.literals, List.flatMap_append, List.flatMap_singleton, literalTexts, List.filterMap_append]
      exact List.rel_append literals reads
    · rw [fieldTexts, List.filterMap_append]
      exact (congrArg (fieldTexts u ++ ·) none).trans (List.append_nil _) ▸ numbers
  · rintro program u periph v ⟨literals, numbers⟩ filled
    obtain ⟨none, reads⟩ := filledTexts filled
    refine ⟨?_, ?_⟩
    · rw [literalTexts, List.filterMap_append]
      exact (congrArg (literalTexts u ++ ·) none).trans (List.append_nil _) ▸ literals
    · rw [ASTProgram.numbers, List.flatMap_append, List.flatMap_singleton, fieldTexts, List.filterMap_append]
      exact List.rel_append numbers reads

/-! Whole texts -/

theorem readAll {ι κ : Type} {R K : ι → κ → Prop} {P : ι → Prop} {items : List ι} {values : List κ}
    (read : List.Forall₂ R items values) (one : ∀ a b, R a b → (K a b ↔ P a)) :
    List.Forall₂ K items values ↔ ∀ a ∈ items, P a := by
  induction read with
  | nil => simp
  | cons first _ ih => rw [List.forall₂_cons, List.forall_mem_cons, one _ _ first, ih]

theorem treeRead {input : Source} {program : ASTProgram} {p : Parser} (parsed : Parses input program p) :
    ReadFrom program p.slots ∧ ∃ read, input.tokens = read ++ p.ahead ∧
      read.filterMap Token.numeral = p.slots.filterMap Slot.text := by
  obtain ⟨n, ran⟩ := parsed
  obtain ⟨made, ⟨slots, read, ahead, numerals⟩, holds⟩ := programNoted n _ program p ran
  rw [show p.slots = made from slots]
  have whole : (parserCreate input).ahead = input.tokens := by
    rw [parserCreate, aheadWindow]
    rfl
  exact ⟨holds, read, whole.symm.trans ahead, numerals⟩

theorem treeKept {input : Source} {program : ASTProgram} {p : Parser} (parsed : Parses input program p) {flag : Bool}
    {P : CString → Nat → Prop} (ended : p.error = flag) (one : ∀ {numeral width}, Lexical.Numeral numeral → width ≤ 64 →
      (Kept numeral width ((strtoull numeral).toNat % 2 ^ width) flag ↔ P numeral width)) :
    AllKept program p ↔ p.Numerals P := by
  have kept {text : CString} (digit : isDigit (text.headD '\x00') = true) {width : Nat} (narrow : width ≤ 64) :
      Kept (numeralSpan text) width ((strtoull text).toNat % 2 ^ width) p.error ↔ P (numeralSpan text) width := by
    rw [ended, Numeral.strtoullLexeme digit]
    exact one (numeralSpanLongest text digit).1 narrow
  obtain ⟨⟨literals, numbers⟩, -⟩ := treeRead parsed
  have first := readAll (K := fun text value => Kept (numeralSpan text) 64 value.toNat p.error)
    (P := fun text => P (numeralSpan text) 64) literals (by
      rintro text value ⟨digit, rfl⟩
      rw [← kept digit (le_refl 64), Nat.mod_eq_of_lt (UInt64.toNat_lt _)])
  have second := readAll (K := fun slot value => ∀ text ∈ slot, Kept (numeralSpan text) 32 value.toNat p.error)
    (P := fun slot => ∀ text ∈ slot, P (numeralSpan text) 32) numbers (by
      intro slot value reads
      refine forall₂_congr fun text member => ?_
      obtain ⟨digit, rfl⟩ := reads text member
      rw [← kept digit (by decide), UInt64.toNat_toUInt32])
  exact ⟨fun ⟨one, two⟩ => ⟨first.mp one, second.mp two⟩, fun ⟨one, two⟩ => ⟨first.mpr one, second.mpr two⟩⟩

theorem numeralsKept {input : Source} {program : ASTProgram} {p : Parser} (parsed : Parses input program p) :
    (p.error = false → (AllKept program p ↔ p.Numerals Readable)) ∧
    (p.error = true → (AllKept program p ↔ p.Numerals Agreeing)) ∧
    ∃ read, input.tokens = read ++ p.ahead ∧ read.filterMap Token.numeral = p.slots.filterMap Slot.text :=
  ⟨fun clear => treeKept parsed clear keptClear, fun set => treeKept parsed set keptSet, (treeRead parsed).2⟩

-- peripheral U @ 0x10 {}
def hexSource : Source := ⟨"peripheral U @ 0x10 \x7b\x7d".toList, by decide⟩

theorem hexKept : AllKept ⟨[], [⟨"U @ 0x10 \x7b\x7d".toList, 16, []⟩]⟩ (parseSource 3 hexSource).2 := by
  have events : (parseSource 3 hexSource).2.trace = [.again .definitions 6 0, .store "0x10 \x7b\x7d".toList 32 16,
      .enter .definitions .tokPeripheral] := by decide +kernel
  have parsed : Parses hexSource ⟨[], [⟨"U @ 0x10 \x7b\x7d".toList, 16, []⟩]⟩ (parseSource 3 hexSource).2 :=
    ⟨3, Prod.ext rfl rfl⟩
  refine ((numeralsKept parsed).1 rfl).mpr ⟨?_, ?_⟩
  · rw [Parser.slots, events]
    nofun
  · rw [Parser.slots, events]
    rintro slot member text same
    obtain rfl := List.mem_singleton.mp member
    obtain rfl := Option.some.inj same
    exact ⟨by decide, by decide, by decide⟩

-- peripheral U @ 010 {}
def octalSource : Source := ⟨"peripheral U @ 010 \x7b\x7d".toList, by decide⟩

theorem octalKept : ∃ program p, Parses octalSource program p ∧ p.error = false ∧
    program.peripherals.map ASTPeripheral.baseAddress = [8] ∧ ¬ AllKept program p := by
  refine ⟨⟨[], [⟨"U @ 010 \x7b\x7d".toList, 8, []⟩]⟩, (parseSource 3 octalSource).2, ⟨3, Prod.ext rfl rfl⟩, rfl, rfl,
    fun kept => ?_⟩
  have events : (parseSource 3 octalSource).2.trace = [.again .definitions 6 0, .store "010 \x7b\x7d".toList 32 8,
      .enter .definitions .tokPeripheral] := by decide +kernel
  have numbers := kept.numbers
  rw [Parser.slots, events] at numbers
  have base := (List.forall₂_cons.mp numbers).1 _ rfl
  exact absurd (base.1 (by decide)) (by decide)

end ParserNumerals
end BitN
