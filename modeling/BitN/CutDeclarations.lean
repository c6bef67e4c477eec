import BitN.HeaderDeclarations

/-! What the text of calls tells about them when a compiler reads the declarations that are meant:
none of them is cut, and no comment runs on into one. -/
namespace BitN.CutDeclarations

open CodegenCalls CodegenText HeaderDeclarations HeaderScope
open CText (Item Outside Shares Tells)

def spelled (items : List Item) : CString := (items.flatMap Item.tokens).flatMap CText.Token.text

theorem spelledFree {items : List Item} {c : Char} (free : ∀ item ∈ items, c ∉ spelled [item]) : c ∉ spelled items := by
  intro member
  obtain ⟨token, among, inside⟩ := List.mem_flatMap.mp member
  obtain ⟨item, listed, spells⟩ := List.mem_flatMap.mp among
  exact free item listed (List.mem_flatMap.mpr ⟨token, by simpa using spells, inside⟩)

/-- Marks of C that the texts of comments do not matter for. -/
def marks : List Char := [';', '\x7b', ')']

section lines
variable {outside inside : Nat} {fmt : Format} {type name body : CString} {c : Char} {mode : CText.Mode}

@[elab_as_elim]
theorem eachMark {P : Char → Prop} (mark : c ∈ marks) (semicolon : P ';') (brace : P '\x7b')
    (parenthesis : P ')') : P c := by
  simp only [marks, List.mem_cons, List.not_mem_nil, or_false] at mark
  obtain rfl | rfl | rfl := mark
  · exact semicolon
  · exact brace
  · exact parenthesis

theorem marksOther (mark : c ∈ marks) : (c ≠ ' ' ∧ c ≠ '/' ∧ c ≠ '\n' ∧ c ≠ '#') ∧ isWord c = false ∧
    CText.isName c = false :=
  eachMark mark (by decide) (by decide) (by decide)

theorem wordFree (word : ∀ c ∈ name, isWord c = true) (other : isWord c = false) : c ∉ name := fun member => by
  rw [word c member] at other
  cases other

theorem memberCount (writes : MemberLine outside inside fmt type name body) (other : c ∉ [' ', '/', '\n'])
    (absent : c ∉ body) : fmt.expansion.count c = (spelled [.member type name]).count c := by
  obtain ⟨noBlank, noSlash, noNewline⟩ : c ≠ ' ' ∧ c ≠ '/' ∧ c ≠ '\n' := by simpa using other
  rw [writes.text]
  simp [spelled, Item.tokens, CText.Token.text, List.count_cons, List.count_eq_zero.mpr absent, Ne.symm noBlank,
    Ne.symm noSlash, Ne.symm noNewline]

theorem memberSlashless (word : ∀ c ∈ name, isWord c = true) (known : type ∈ ["MMIO_REG".toList, "uint32_t".toList]) :
    '/' ∉ spelled [.member type name] := by
  have typed : ∀ type ∈ ["MMIO_REG".toList, "uint32_t".toList], '/' ∉ type := by decide
  simp [spelled, Item.tokens, CText.Token.text, typed _ known, wordFree word (show isWord '/' = false by decide)]

theorem closeSlashless (writes : CloseLine outside inside fmt name) : '/' ∉ spelled [.closed name] := by
  simp [spelled, Item.tokens, CText.Token.text, wordFree writes.word (show isWord '/' = false by decide)]

theorem pointerSlashless (word : ∀ c ∈ name, isWord c = true) (base : UInt32) :
    '/' ∉ spelled [.directive (pointerText name base)] := by
  simp [spelled, Item.tokens, CText.Token.text, @pointerFree _ word base '/' (by decide) (by decide)]

theorem closeCount (writes : CloseLine outside inside fmt name) (other : c ∉ [' ', '\n']) :
    fmt.expansion.count c = (spelled [.closed name]).count c := by
  obtain ⟨noBlank, noNewline⟩ : c ≠ ' ' ∧ c ≠ '\n' := by simpa using other
  rw [writes.text]
  simp [spelled, Item.tokens, CText.Token.text, List.count_cons, Ne.symm noBlank, Ne.symm noNewline]

theorem pointerCount (other : c ∉ ['#', '\n']) (name : CString) (base : UInt32) :
    (Format.pointerMacro name base).expansion.count c = (spelled [.directive (pointerText name base)]).count c := by
  obtain ⟨noHash, noNewline⟩ : c ≠ '#' ∧ c ≠ '\n' := by simpa using other
  rw [pointerExpansion]
  simp [spelled, Item.tokens, CText.Token.text, Ne.symm noHash, Ne.symm noNewline]

theorem offsetFree (mark : c ∈ marks) (offset : UInt32) : c ∉ " @ offset 0x".toList ++ hex offset := by
  have text : c ∉ " @ offset 0x".toList := eachMark mark (by decide) (by decide) (by decide)
  exact List.not_mem_append text (wordFree (hexWord offset) (marksOther mark).2.1)

theorem placeholderFree (mark : c ∈ marks) : c ∉ " Field placeholder".toList :=
  eachMark mark (by decide) (by decide) (by decide)

theorem fixedCount (mark : c ∈ marks) (fixed : fmt ∈ [.structOpen, .newline, .fileFooter]) :
    fmt.expansion.count c = (spelled (meant fmt)).count c := by
  have each : ∀ fmt ∈ [Format.structOpen, .newline, .fileFooter],
      fmt.expansion.count c = (spelled (meant fmt)).count c :=
    eachMark mark (by decide) (by decide) (by decide)
  exact each fmt fixed

theorem markCount (worded : Worded fmt) (plain : remark fmt = none) (mark : c ∈ marks) :
    fmt.expansion.count c = (spelled (meant fmt)).count c := by
  obtain ⟨⟨noBlank, noSlash, noNewline, noHash⟩, -, -⟩ := marksOther mark
  cases fmt
  case member name offset =>
    exact memberCount (@memberLine 0 0 name worded offset) (by simp [*]) (offsetFree mark offset)
  case fieldMember name => exact memberCount (@fieldLine 0 0 name worded) (by simp [*]) (placeholderFree mark)
  case structClose name => exact closeCount (@structCloseLine 0 0 name worded) (by simp [*])
  case bitfieldClose name => exact closeCount (@bitfieldCloseLine 0 name worded) (by simp [*])
  case pointerMacro name base => exact pointerCount (by simp [*]) name base
  case structOpen => exact fixedCount mark (by decide)
  case newline => exact fixedCount mark (by decide)
  case fileFooter => exact fixedCount mark (by decide)
  all_goals first | exact worded.elim | cases plain

theorem starFree (worded : Worded fmt) (other : ∀ name base, fmt ≠ .pointerMacro name base) : '*' ∉ fmt.expansion := by
  have named (name : CString) (word : ∀ c ∈ name, isWord c = true) : '*' ∉ name := wordFree word (by decide)
  have around {front back name : CString} (outer : '*' ∉ front ∧ '*' ∉ back) (inner : '*' ∉ name) :
      '*' ∉ front ++ name ++ back := List.not_mem_append (List.not_mem_append outer.1 inner) outer.2
  cases fmt
  case pointerMacro name base => exact absurd rfl (other name base)
  case structOpen => decide
  case newline => decide
  case fileFooter => decide
  case peripheralComment name => exact around (by decide) (named name worded)
  case baseAddress base => exact around (by decide) (named _ (hex8Word base))
  case member name offset =>
    exact List.not_mem_append (List.not_mem_append (around (by decide) (named name worded)) (named _ (hexWord offset)))
      (by decide)
  case structClose name => exact around (by decide) (named name worded)
  case registerComment name offset =>
    exact List.not_mem_append (List.not_mem_append (around (by decide) (named name worded)) (named _ (hexWord offset)))
      (by decide)
  case fieldCount count =>
    exact around (by decide) fun member => absurd (Numeral.decimalDigits _ _ member) (by decide)
  case fieldMember name => exact around (by decide) (named name worded)
  case bitfieldClose name => exact around (by decide) (named name worded)
  case fieldAccessor name => exact around (by decide) (named name worded)
  all_goals exact worded.elim

theorem laidStarless (worded : Worded fmt) (other : ∀ name base, fmt ≠ .pointerMacro name base) :
    '*' ∉ laid outside inside fmt := by
  have starless := starFree worded other
  rw [← List.count_eq_zero] at starless ⊢
  exact Nat.le_zero.mp (starless ▸ laidCount (by decide) outside inside fmt)

theorem pointerPlain (word : ∀ c ∈ name, isWord c = true) (base : UInt32) :
    '/' ∉ laid outside inside (.pointerMacro name base) := by
  have plain : '/' ∉ (Format.pointerMacro name base).expansion := by
    rw [pointerExpansion]
    simp [@pointerFree _ word base '/' (by decide) (by decide)]
  rw [← List.count_eq_zero] at plain ⊢
  exact Nat.le_zero.mp (plain ▸ laidCount (by decide) outside inside _)

theorem outsideKept (worded : Worded fmt) (out : Outside mode) :
    Outside (CText.uncomment mode (laid outside inside fmt)).2 := by
  by_cases pointer : ∃ name base, fmt = .pointerMacro name base
  · obtain ⟨name, base, rfl⟩ := pointer
    have plain := @pointerPlain outside inside name worded base
    rw [laidPointer worded] at plain ⊢
    cases outside with
    | zero => exact CText.outsidePlain plain (by decide) out
    | succ blanks => exact CText.outsidePlain plain (by decide : ' ' ≠ '*') out
  · exact CText.outsideStarless (laidStarless worded fun name base same => pointer ⟨name, base, same⟩) out

theorem lineShares (worded : Worded fmt) (plain : remark fmt = none) (mark : c ∈ marks) :
    Shares c (laid outside inside fmt) ((spelled (meant fmt)).count c) := by
  obtain ⟨⟨noBlank, noSlash, -⟩, -⟩ := marksOther mark
  refine fun mode out => ⟨outsideKept worded out, ?_⟩
  rw [← markCount worded plain mark]
  exact (CText.uncommentCount noSlash noBlank mode _).trans (laidCount noBlank outside inside fmt)

theorem commentShares (worded : Worded fmt) (comment : remark fmt = some body) (mark : c ∈ marks) :
    Shares c (laid 0 inside fmt) ((spelled (meant fmt)).count c) := by
  obtain ⟨⟨-, -, noNewline, -⟩, -⟩ := marksOther mark
  have nothing : meant fmt = [] := by
    cases fmt <;> cases comment <;> rfl
  rw [laidFirst (remarkOuter comment), remarkText comment, nothing]
  exact CText.commentShares noNewline (remarkLine worded comment) (by decide)

/-! Lines that tell where they begin -/

theorem openTells : Tells '\x7b' (laid outside inside .structOpen) := by
  have text : Format.structOpen.expansion =
      ('t' :: "ypedef struct \x7b".toList ++ List.replicate 1 '\n').take (4094 + 1) := by
    decide
  rw [laidOpen, text]
  exact CText.tellsCut (by decide) (by decide) (by decide) outside 1

theorem memberTells (writes : MemberLine outside inside fmt type name body) : Tells ';' (laid outside inside fmt) := by
  have start : ∀ type ∈ ["MMIO_REG".toList, "uint32_t".toList], type.headD '/' ∉ ['/', '*'] ∧ '\n' ∉ type := by decide
  obtain ⟨first, line⟩ := start type writes.type
  obtain ⟨d, ds, rfl⟩ := List.exists_cons_of_ne_nil (List.ne_nil_of_length_pos (l := type) (by rw [writes.typed.2]; decide))
  have text : fmt.expansion = d :: (ds ++ ' ' :: (name ++ [';']) ++ [' ', '/', '/'] ++ body) ++ List.replicate 1 '\n' :=
    writes.text
  rw [writes.cut, text]
  refine CText.tellsCut (by decide) ?_ first inside 1
  simp_all [wordNewline writes.word, writes.line]

theorem closeTells (writes : CloseLine outside inside fmt name) : Tells ';' (laid outside inside fmt) := by
  rw [writes.cut, writes.text]
  refine CText.tellsCut (by decide) ?_ (by decide) outside 2
  simp [wordNewline writes.word]

/-! Lines that are cut, and lengths -/

theorem memberFits (writes : MemberLine outside inside fmt type name body)
    (shown : 0 < (CText.uncomment .code (laid outside inside fmt)).1.count ';')
    (after : (CText.uncomment .code (laid outside inside fmt)).2 = .code) :
    name.length + body.length ≤ 4081 ∨ name.length ∈ [4084, 4085] := by
  have typed : ∀ type ∈ ["MMIO_REG".toList, "uint32_t".toList], '/' ∉ type ∧ ';' ∉ type := by decide
  obtain ⟨plain, unmarked⟩ := typed type writes.type
  have slashes : '/' ∉ name := wordFree writes.word (by decide)
  have semicolons : ';' ∉ name := wordFree writes.word (by decide)
  have indent : '/' ∉ List.replicate inside ' ' := fun member => absurd (List.eq_of_mem_replicate member) (by decide)
  have mark : fmt.expansion = (type ++ ' ' :: name) ++ (';' :: ([' ', '/', '/'] ++ body ++ ['\n'])) := by
    rw [writes.text]
    simp
  have none : (type ++ ' ' :: name).count ';' = 0 := List.count_eq_zero.mpr (by simp [unmarked, semicolons])
  rw [writes.cut, CText.blanksCount (by decide), mark] at shown
  have reached := CText.markReached (by decide) (none ▸ shown)
  rw [writes.cut, CText.uncommentAppend, CText.uncommentCode indent, writes.text] at after
  have fits := CText.remarkFits (by simp [plain, slashes]) writes.line after
  rw [writes.front] at fits
  rw [List.length_append, List.length_cons, writes.typed.2] at reached
  simp only [List.mem_cons, List.not_mem_nil, or_false]
  omega

theorem closeFits (writes : CloseLine outside inside fmt name)
    (shown : 0 < (CText.uncomment mode (laid outside inside fmt)).1.count ';') : name.length ≤ 4092 := by
  have semicolons : ';' ∉ name := wordFree writes.word (by decide)
  have mark : fmt.expansion = ('\x7d' :: ' ' :: name) ++ (';' :: List.replicate 2 '\n') := by
    rw [writes.text]
    simp
  have none : ('\x7d' :: ' ' :: name).count ';' = 0 := List.count_eq_zero.mpr (by simp [semicolons])
  rw [writes.cut, CText.blanksCount (by decide), mark] at shown
  have reached := CText.markReached (by decide) (none ▸ shown)
  simp only [List.length_cons] at reached
  omega

theorem pointerFits (word : ∀ c ∈ name, isWord c = true) {base : UInt32}
    (shown : 1 < (CText.uncomment mode (laid outside inside (.pointerMacro name base))).1.count ')') :
    name.length ≤ 2029 := by
  have named : name.count ')' = 0 := List.count_eq_zero.mpr (wordFree word (by decide))
  have digits : (hex8 base).count ')' = 0 := List.count_eq_zero.mpr (wordFree (hex8Word base) (by decide))
  -- Up to the last bracket.
  have mark : (Format.pointerMacro name base).expansion = ("#define ".toList ++ name ++ " ((volatile ".toList ++ name ++
      "_t *)0x".toList ++ hex8 base) ++ ")\n\n".toList := rfl
  have one : ("#define ".toList ++ name ++ " ((volatile ".toList ++ name ++ "_t *)0x".toList ++ hex8 base).count ')' = 1 := by
    simp only [List.count_append, named, digits]
    decide
  rw [laidPointer word, CText.blanksCount (by decide), mark] at shown
  have reached := CText.markReached (by decide) (one ▸ shown)
  simp only [List.length_append, hex8Length] at reached
  change 8 + _ + 12 + _ + 7 + 8 < _ at reached
  omega

theorem commentFits (worded : Worded fmt) (comment : remark fmt = some body) (out : Outside mode)
    (after : (CText.uncomment mode (laid 0 inside fmt)).2 = .code) : body.length ≤ 4092 := by
  rw [laidFirst (remarkOuter comment), remarkText comment] at after
  have fits := CText.commentFits (remarkLine worded comment) (by decide) out after
  omega

end lines

theorem followed {α : Type} {items : List α} {a last : α} (among : a ∈ items) :
    ∃ b ∈ items ++ [last], [a, b] <:+: items ++ [last] := by
  obtain ⟨front, back, rfl⟩ := List.append_of_mem among
  cases back with
  | nil => exact ⟨last, by simp, front, [], by simp⟩
  | cons b back => exact ⟨b, by simp, front, back ++ [last], by simp⟩

/-! The calls for a structure -/

theorem structMeant (periph : ASTPeripheral) :
    (structCalls periph).flatMap meant = structItems (periph.renamed sanitizeIdentifier) := by
  have members : (periph.registers.map memberCall).flatMap meant =
      periph.registers.map fun reg => .member "MMIO_REG".toList (sanitizeIdentifier reg.name) := by
    rw [List.flatMap_map, List.map_eq_flatMap]
    rfl
  unfold structCalls structItems ASTPeripheral.renamed
  rw [List.flatMap_append, List.flatMap_cons, members, List.map_map]
  rfl

theorem structWorded (periph : ASTPeripheral) : ∀ fmt ∈ structCalls periph, Worded fmt := by
  unfold structCalls
  simp only [List.forall_mem_append, List.forall_mem_cons, List.forall_mem_map]
  exact ⟨⟨trivial, fun reg _ => sanitizedWord reg.name⟩, sanitizedWord _, sanitizedWord _, nofun⟩

theorem structSlashless {periph : ASTPeripheral}
    (word : ∀ name ∈ periph.name :: registerNames periph, ∀ c ∈ name, isWord c = true) :
    ∀ item ∈ structItems periph, '/' ∉ spelled [item] := by
  have named := word _ List.mem_cons_self
  unfold structItems
  simp only [List.forall_mem_append, List.forall_mem_cons, List.forall_mem_map]
  refine ⟨⟨by decide, fun reg member => memberSlashless (word _ ?_) (by decide)⟩,
    closeSlashless (@structCloseLine 0 0 _ named), pointerSlashless named _, nofun⟩
  exact List.mem_cons_of_mem _ (List.mem_map_of_mem member)

/-! Texts of calls that are read as they are meant -/

/-- A comment before the call has ended. -/
def Ends (outside inside : Nat) (fmt : Format) : Prop :=
  Tells ';' (laid outside inside fmt) ∧ 0 < (spelled (meant fmt)).count ';'

section ends
variable {outside inside : Nat} {fmt : Format} {type name body : CString}

theorem memberEnds (writes : MemberLine outside inside fmt type name body) : Ends outside inside fmt :=
  ⟨memberTells writes, by simp [writes.means, spelled, Item.tokens, CText.Token.text]⟩

theorem closeEnds (writes : CloseLine outside inside fmt name) : Ends outside inside fmt :=
  ⟨closeTells writes, by simp [writes.means, spelled, Item.tokens, CText.Token.text]⟩

end ends

structure Read (outside inside : Nat) (calls : List Format) : Prop where
  shares : ∀ c ∈ marks, ∀ fmt ∈ calls, Shares c (laid outside inside fmt) ((spelled (meant fmt)).count c)
  read : CText.scan CText.fresh (calls.flatMap (laid outside inside)) =
    ((calls.flatMap meant).flatMap Item.tokens, CText.fresh)
  slashless : '/' ∉ spelled (calls.flatMap meant)

namespace Read
variable {outside inside : Nat} {calls front back : List Format} {a b : Format} {type name body : CString} {c : Char}
  (reads : Read outside inside calls)
include reads

theorem all (mark : c ∈ marks) : (calls.map fun fmt => (spelled (meant fmt)).count c).sum ≤
    (CText.uncomment .code (calls.flatMap (laid outside inside))).1.count c := by
  obtain ⟨⟨noBlank, -, noNewline, noHash⟩, -, unnamed⟩ := marksOther mark
  have counted := CText.scannedCount ⟨unnamed, by simp [noBlank, noNewline, noHash]⟩ reads.read
  rw [List.flatMap_assoc, List.flatMap_assoc, List.count_flatMap] at counted
  have parts : (calls.map fun fmt => (spelled (meant fmt)).count c) = calls.map (List.count c ∘ fun fmt =>
      (meant fmt).flatMap fun item => item.tokens.flatMap CText.Token.text) := by
    refine List.map_congr_left fun fmt _ => ?_
    rw [spelled, List.flatMap_assoc]
    rfl
  rw [counted, parts]

theorem clear : '/' ∉ (CText.uncomment .code (calls.flatMap (laid outside inside))).1 := by
  have counted := CText.scannedCount (c := '/') (by decide) reads.read
  have none : (spelled (calls.flatMap meant)).count '/' = 0 := List.count_eq_zero.mpr reads.slashless
  exact List.count_eq_zero.mp (counted.trans none)

theorem shown (split : calls = front ++ a :: back) (mark : c ∈ marks) :
    CText.Outside (CText.uncomment .code (front.flatMap (laid outside inside))).2 ∧
      (CText.uncomment (CText.uncomment .code (front.flatMap (laid outside inside))).2 (laid outside inside a)).1.count c =
        (spelled (meant a)).count c :=
  CText.shared (by decide) (reads.shares c mark) (reads.all mark) split

theorem codeBefore (split : calls = front ++ a :: back) (mark : c ∈ marks) (tells : Tells c (laid outside inside a))
    (some : 0 < (spelled (meant a)).count c) : (CText.uncomment .code (front.flatMap (laid outside inside))).2 = .code :=
  CText.codeBefore (by decide) (reads.shares c mark) (reads.all mark) reads.clear split tells some

theorem codeBehind (split : calls = front ++ a :: b :: back) (mark : c ∈ marks) (tells : Tells c (laid outside inside b))
    (some : 0 < (spelled (meant b)).count c) :
    (CText.uncomment (CText.uncomment .code (front.flatMap (laid outside inside))).2 (laid outside inside a)).2 = .code := by
  have behind := reads.codeBefore (split.trans (List.append_cons front a (b :: back))) mark tells some
  rw [List.flatMap_append, List.flatMap_singleton, CText.uncommentAppend] at behind
  exact behind

theorem member (next : [a, b] <:+: calls) (writes : MemberLine outside inside a type name body)
    (ends : Ends outside inside b) : name.length + body.length ≤ 4081 ∨ name.length ∈ [4084, 4085] := by
  obtain ⟨front, back, split⟩ := next
  have split : calls = front ++ a :: b :: back := by simp [← split]
  have mark : ';' ∈ marks := by decide
  obtain ⟨tells, some⟩ := memberEnds writes
  have before := reads.codeBefore split mark tells some
  have after := reads.codeBehind split mark ends.1 ends.2
  have shown := (reads.shown split mark).2
  rw [before] at after shown
  exact memberFits writes (shown ▸ some) after

theorem members {α : Type} {items : List α} {line : α → Format} {names bodies : α → CString}
    (part : items.map line ++ [b] <:+: calls)
    (each : ∀ a ∈ items, MemberLine outside inside (line a) type (names a) (bodies a))
    (closed : CloseLine outside inside b name) :
    ∀ a ∈ items, (names a).length + (bodies a).length ≤ 4081 ∨ (names a).length ∈ [4084, 4085] := by
  intro a among
  obtain ⟨next, inside, pair⟩ := @followed _ _ _ b (List.mem_map_of_mem (f := line) among)
  refine reads.member (pair.trans part) (each a among) ?_
  rcases List.mem_append.mp inside with inside | inside
  · obtain ⟨other, listed, rfl⟩ := List.mem_map.mp inside
    exact memberEnds (each other listed)
  · exact List.mem_singleton.mp inside ▸ closeEnds closed

theorem close (among : a ∈ calls) (writes : CloseLine outside inside a name) : name.length ≤ 4092 := by
  obtain ⟨front, back, split⟩ := List.append_of_mem among
  have shown := (reads.shown split (show ';' ∈ marks by decide)).2
  exact closeFits writes (shown ▸ (closeEnds writes).2)

theorem pointer {base : UInt32} (among : .pointerMacro name base ∈ calls) (word : ∀ c ∈ name, isWord c = true) :
    name.length ≤ 2029 := by
  obtain ⟨front, back, split⟩ := List.append_of_mem among
  have brackets : 1 < (spelled (meant (.pointerMacro name base))).count ')' := by
    have named : name.count ')' = 0 := List.count_eq_zero.mpr (wordFree word (by decide))
    have digits : (hex8 base).count ')' = 0 := List.count_eq_zero.mpr (wordFree (hex8Word base) (by decide))
    change 1 < ([pointerText name base].flatMap id).count ')'
    rw [List.flatMap_singleton, id]
    unfold pointerText
    simp only [List.count_append, named, digits]
    decide
  have shown := (reads.shown split (show ')' ∈ marks by decide)).2
  exact pointerFits word (shown ▸ brackets)

end Read

theorem Read.struct {outside inside : Nat} {calls : List Format} (reads : Read outside inside calls) {periph : ASTPeripheral}
    (part : structCalls periph <:+: calls) : (sanitizeIdentifier periph.name).length ≤ 2029 ∧
      ∀ reg ∈ periph.registers, (sanitizeIdentifier reg.name).length + (hex reg.offset).length ≤ 4069 ∨
        (sanitizeIdentifier reg.name).length ∈ [4084, 4085] := by
  have word := sanitizedWord periph.name
  have among : .pointerMacro (sanitizeIdentifier periph.name) periph.baseAddress ∈ structCalls periph :=
    List.mem_append_right _ (List.mem_cons_of_mem _ List.mem_cons_self)
  have members : periph.registers.map memberCall ++ [.structClose (sanitizeIdentifier periph.name)] <:+:
      structCalls periph := by
    refine ⟨[.structOpen], [.pointerMacro (sanitizeIdentifier periph.name) periph.baseAddress], ?_⟩
    simp [structCalls]
  refine ⟨reads.pointer (part.subset among) word, fun reg listed => ?_⟩
  have fits := reads.members (members.trans part) (fun (reg : ASTRegister) _ =>
    memberLine (sanitizedWord reg.name) reg.offset) (structCloseLine word) reg listed
  rw [List.length_append] at fits
  change _ + (12 + _) ≤ 4081 ∨ _ at fits
  exact fits.imp_left fun fits => by omega

theorem Read.comment {inside : Nat} {calls : List Format} {a : Format} {body : CString} (reads : Read 0 inside calls)
    (next : [a, .structOpen] <:+: calls) (worded : Worded a) (comment : remark a = some body) : body.length ≤ 4092 := by
  obtain ⟨front, back, split⟩ := next
  have split : calls = front ++ a :: .structOpen :: back := by simp [← split]
  have mark : '\x7b' ∈ marks := by decide
  exact commentFits worded comment (reads.shown split mark).1 (reads.codeBehind split mark openTells (by decide))

end BitN.CutDeclarations
