import BitN.HeaderLines
import BitN.HeaderOutline
import BitN.Linker

/-! A generated linker script read back: the regions of its MEMORY block and those that its
sections go to. The sections are the same in every script, whatever regions there are. -/
namespace BitN.LinkerScript

open HeaderLines Texts

/-! The session -/

def add (ctx : LinkerContext) (region : MemoryRegion) : Int × LinkerContext :=
  linkerAddRegion ctx region.name region.base region.size region.type

def session (target : CString) (calls : List MemoryRegion) : LinkerContext :=
  calls.foldl (fun ctx region => (add ctx region).2) (linkerInit target)

/-- The regions of the calls that return 0. -/
def accepted (ctx : LinkerContext) : List MemoryRegion → List MemoryRegion
  | [] => []
  | region :: calls => (if (add ctx region).1 = 0 then [region] else []) ++ accepted (add ctx region).2 calls

def script (target : CString) (calls : List MemoryRegion) : CString := (linkerGenerate (session target calls)).2.output

/-! A reader of scripts -/

structure Region where
  name : CString
  base : Nat
  size : Nat
  deriving DecidableEq

-- "  name (type) : ORIGIN = 0xbase, LENGTH = 0xsize"
def readRegion (line : CString) : Region :=
  let numbers := ((line.drop 2).dropWhile (· ≠ ' ')).dropWhile (· ≠ ')')
  { name := (line.drop 2).takeWhile (· ≠ ' ')
    base := positional 16 ((numbers.drop 15).takeWhile (· ≠ ','))
    size := positional 16 (((numbers.drop 15).dropWhile (· ≠ ',')).drop 13) }

def regions (text : CString) : List Region :=
  ((((text.splitOn '\n').dropWhile (· ≠ "MEMORY".toList)).drop 2).takeWhile (· ≠ "\x7d".toList)).map readRegion

-- "  } > region" and "  } > region AT > region"
def placed (line : CString) : List CString :=
  if line.take 6 = "  \x7d > ".toList then
    ((line.drop 6).splitOn ' ').filter fun word => word != "AT".toList && word != ">".toList
  else []

def references (text : CString) : List CString :=
  ((text.splitOn '\n').dropWhile (· ≠ "SECTIONS".toList)).flatMap placed

/-- No region is defined twice, and every region referred to is defined. -/
def Resolved (text : CString) : Prop :=
  ((regions text).map Region.name).Nodup ∧ ∀ name ∈ references text, name ∈ (regions text).map Region.name

/-- No name ends what it is written in. -/
structure Readable (target : CString) (regions : List MemoryRegion) : Prop where
  target : '\n' ∉ target
  names : ∀ region ∈ regions, ' ' ∉ region.name ∧ '\n' ∉ region.name
  types : ∀ region ∈ regions, ')' ∉ region.type ∧ '\n' ∉ region.type

/-! The text -/

def commentText (target : CString) : CString :=
  "/**\n * Auto-generated ARM Linker Script for ".toList ++ target ++
    "\n * Generated by bit(N) compiler\n * Target: ".toList ++ target ++ "\n */\n\n".toList

def memoryText (regions : List MemoryRegion) : CString :=
  "MEMORY\n\x7b\n".toList ++ regions.flatMap regionText ++ "\x7d\n\n".toList

def sectionLines : List String :=
  ["SECTIONS", "\x7b",
    "  .vectors :", "  \x7b", "    KEEP(*(.vectors))", "  \x7d > FLASH", "",
    "  .text :", "  \x7b", "    *(.text*)", "    *(.rodata*)", "  \x7d > FLASH", "",
    "  .data :", "  \x7b", "    PROVIDE(_sdata = .);", "    *(.data*)", "    PROVIDE(_edata = .);",
    "  \x7d > RAM AT > FLASH", "  PROVIDE(_sidata = LOADADDR(.data));", "",
    "  .bss :", "  \x7b", "    PROVIDE(_sbss = .);", "    *(.bss*)", "    *(COMMON)", "    PROVIDE(_ebss = .);",
    "  \x7d > RAM", "",
    "  .heap :", "  \x7b", "    PROVIDE(_heap_start = .);", "    . += 0x1000;", "    PROVIDE(_heap_end = .);",
    "  \x7d > RAM", "",
    "  .stack :", "  \x7b", "    PROVIDE(_stack_start = .);", "    . += 0x1000;", "    PROVIDE(_stack_end = .);",
    "  \x7d > RAM", "",
    "\x7d"]

def sectionText : CString := sectionLines.flatMap fun line => line.toList ++ ['\n']

theorem sectionFree : ∀ line ∈ sectionLines.map String.toList, '\n' ∉ line := by
  simp only [sectionLines, List.map_cons, List.map_nil]
  repeat rw [String.toList_ofList]
  decide

theorem sectionPlaced : (sectionLines.map String.toList).flatMap placed =
    ["FLASH".toList, "FLASH".toList, "RAM".toList, "FLASH".toList, "RAM".toList, "RAM".toList, "RAM".toList] := by
  simp only [sectionLines, List.map_cons, List.map_nil]
  repeat rw [String.toList_ofList]
  decide

set_option maxRecDepth 4000 in
theorem sectionWritten : "SECTIONS\n\x7b\n".toList ++
    ("  .vectors :\n  \x7b\n    KEEP(*(.vectors))\n  \x7d > FLASH\n\n".toList ++
    ("  .text :\n  \x7b\n    *(.text*)\n    *(.rodata*)\n  \x7d > FLASH\n\n".toList ++
    ("  .data :\n  \x7b\n    PROVIDE(_sdata = .);\n    *(.data*)\n    PROVIDE(_edata = .);\n".toList ++
    ("  \x7d > RAM AT > FLASH\n  PROVIDE(_sidata = LOADADDR(.data));\n\n".toList ++
    ("  .bss :\n  \x7b\n    PROVIDE(_sbss = .);\n    *(.bss*)\n    *(COMMON)\n".toList ++
    ("    PROVIDE(_ebss = .);\n  \x7d > RAM\n\n".toList ++
    ("  .heap :\n  \x7b\n    PROVIDE(_heap_start = .);\n    . += 0x".toList ++ (hex 0x1000 ++
    (";\n    PROVIDE(_heap_end = .);\n  \x7d > RAM\n\n".toList ++
    ("  .stack :\n  \x7b\n    PROVIDE(_stack_start = .);\n    . += 0x".toList ++ (hex 0x1000 ++
    (";\n    PROVIDE(_stack_end = .);\n  \x7d > RAM\n\n".toList ++ "\x7d\n".toList)))))))))))) = sectionText := by
  have size : hex 0x1000 = ['1', '0', '0', '0'] := by decide
  simp only [sectionText, sectionLines, List.flatMap_cons, size]
  repeat rw [String.toList_ofList]
  rfl

theorem fprintfAll (ctx : LinkerContext) (regions : List MemoryRegion) :
    regions.foldl (fun ctx region => fprintf ctx (regionText region)) ctx = fprintf ctx (regions.flatMap regionText) := by
  induction regions generalizing ctx with
  | nil =>
    rw [List.foldl_nil, List.flatMap_nil, fprintf, List.append_nil]
  | cons region regions next =>
    rw [List.foldl_cons, next, List.flatMap_cons, fprintf, fprintf, fprintf, List.append_assoc]

theorem generated {ctx : LinkerContext} (fresh : ctx.output = []) (stack : ctx.stackSize = 0x1000)
    (heap : ctx.heapSize = 0x1000) :
    (linkerGenerate ctx).2.output = commentText ctx.target ++ memoryText ctx.regions ++ sectionText := by
  unfold linkerGenerate commentText memoryText
  dsimp only
  rw [fprintfAll]
  simp only [fprintf, fresh, stack, heap, List.nil_append, ← sectionWritten, List.append_assoc]

/-! Its lines -/

def commentLines (target : CString) : List CString :=
  ["/**".toList, " * Auto-generated ARM Linker Script for ".toList ++ target,
    " * Generated by bit(N) compiler".toList, " * Target: ".toList ++ target, " */".toList, []]

def regionLine (region : MemoryRegion) : CString :=
  "  ".toList ++ region.name ++ " (".toList ++ region.type.rightpad 4 ' ' ++ ") : ORIGIN = 0x".toList ++
    hex8 region.base ++ ", LENGTH = 0x".toList ++ hex region.size

def memoryLines (regions : List MemoryRegion) : List CString :=
  ["MEMORY".toList, "\x7b".toList] ++ regions.map regionLine ++ ["\x7d".toList, []]

def lines (target : CString) (regions : List MemoryRegion) : List CString :=
  commentLines target ++ memoryLines regions ++ sectionLines.map String.toList

theorem commentWhole {target : CString} (free : '\n' ∉ target) :
    Whole '\n' (commentLines target) (commentText target) := by
  have open_ : Whole '\n' ["/**".toList] "/**\n".toList := ⟨by decide, by decide⟩
  have named := wholeLine (List.not_mem_append
    (show '\n' ∉ " * Auto-generated ARM Linker Script for ".toList from literalFree (by decide)) free)
  have made : Whole '\n' [" * Generated by bit(N) compiler".toList] " * Generated by bit(N) compiler\n".toList :=
    ⟨by decide, by decide⟩
  have for_ := wholeLine (List.not_mem_append (show '\n' ∉ " * Target: ".toList from literalFree (by decide)) free)
  have close : Whole '\n' [" */".toList, []] " */\n\n".toList := ⟨by decide, by decide⟩
  have all := open_.append (named.append (made.append (for_.append close)))
  have front : "/**\n * Auto-generated ARM Linker Script for ".toList =
      "/**\n".toList ++ " * Auto-generated ARM Linker Script for ".toList := by
    repeat rw [String.toList_ofList]
    rfl
  have middle : "\n * Generated by bit(N) compiler\n * Target: ".toList =
      ['\n'] ++ (" * Generated by bit(N) compiler\n".toList ++ " * Target: ".toList) := by
    repeat rw [String.toList_ofList]
    rfl
  have back : "\n */\n\n".toList = ['\n'] ++ " */\n\n".toList := by decide
  unfold commentText commentLines
  rw [front, middle, back]
  simp only [List.append_assoc, List.cons_append, List.nil_append] at all ⊢
  exact all

theorem hex8Word (n : UInt32) : ∀ c ∈ hex8 n, isWord c = true := by
  intro c inside
  unfold hex8 List.leftpad at inside
  obtain zero | digit := List.mem_append.mp inside
  · rw [List.eq_of_mem_replicate zero]
    decide
  · exact CodegenText.hexWord n c digit

theorem wordFree {text : CString} (word : ∀ c ∈ text, isWord c = true) {stop : Char} (no : isWord stop = false) :
    stop ∉ text := fun inside => absurd (word stop inside) (by rw [no]; decide)

theorem padFree {type : CString} {stop : Char} (free : stop ∉ type) (other : stop ≠ ' ') :
    stop ∉ type.rightpad 4 ' ' := by
  unfold List.rightpad
  refine List.not_mem_append free fun inside => ?_
  exact other (List.eq_of_mem_replicate inside)

theorem regionWhole {region : MemoryRegion} (name : '\n' ∉ region.name) (type : '\n' ∉ region.type) :
    Whole '\n' [regionLine region] (regionText region) := by
  have line : regionText region = regionLine region ++ ['\n'] := rfl
  have base : '\n' ∉ hex8 region.base := wordFree (hex8Word _) (by decide)
  have size : '\n' ∉ hex region.size := CodegenText.hexLine region.size
  have pad : '\n' ∉ region.type.rightpad 4 ' ' := padFree type (by decide)
  rw [line]
  apply wholeLine
  unfold regionLine
  simp only [List.mem_append, not_or]
  exact ⟨⟨⟨⟨⟨⟨⟨literalFree (by decide), name⟩, literalFree (by decide)⟩, pad⟩, literalFree (by decide)⟩, base⟩,
    literalFree (by decide)⟩, size⟩

theorem memoryWhole {target : CString} {regions : List MemoryRegion} (readable : Readable target regions) :
    Whole '\n' (memoryLines regions) (memoryText regions) := by
  have open_ : Whole '\n' ["MEMORY".toList, "\x7b".toList] "MEMORY\n\x7b\n".toList := ⟨by decide, by decide⟩
  have close : Whole '\n' ["\x7d".toList, []] "\x7d\n\n".toList := ⟨by decide, by decide⟩
  have each : Whole '\n' (regions.flatMap fun region => [regionLine region]) (regions.flatMap regionText) :=
    wholeAll fun region held => regionWhole (readable.names region held).2 (readable.types region held).2
  rw [← List.map_eq_flatMap] at each
  exact (open_.append each).append close

theorem scriptSplit {target : CString} {regions : List MemoryRegion} (readable : Readable target regions) :
    (commentText target ++ memoryText regions ++ sectionText).splitOn '\n' = lines target regions ++ [[]] := by
  have sections : Whole '\n' (sectionLines.map String.toList) sectionText := by
    refine ⟨sectionFree, ?_⟩
    rw [List.flatMap_map]
    rfl
  exact (((commentWhole readable.target).append (memoryWhole readable)).append sections).split

/-! Reading it -/

def region (region : MemoryRegion) : Region := ⟨region.name, region.base.toNat, region.size.toNat⟩

theorem regionRead {region : MemoryRegion} (name : ' ' ∉ region.name) (type : ')' ∉ region.type) :
    readRegion (regionLine region) = ⟨region.name, region.base.toNat, region.size.toNat⟩ := by
  have line : (regionLine region).drop 2 = region.name ++ ' ' :: ("(".toList ++ region.type.rightpad 4 ' ' ++
      ')' :: (" : ORIGIN = 0x".toList ++ hex8 region.base ++ ',' :: (" LENGTH = 0x".toList ++ hex region.size))) := by
    have drops : ∀ rest : CString, ("  ".toList ++ rest).drop 2 = rest := fun _ => rfl
    unfold regionLine
    simp only [List.append_assoc, drops]
    rfl
  have pad : ')' ∉ ' ' :: ("(".toList ++ region.type.rightpad 4 ' ') := by
    simp only [List.mem_cons, List.mem_append, not_or]
    exact ⟨by decide, literalFree (by decide), padFree type (by decide)⟩
  have base : ',' ∉ hex8 region.base := wordFree (hex8Word _) (by decide)
  have past : ∀ rest : CString, (')' :: (" : ORIGIN = 0x".toList ++ rest)).drop 15 = rest := fun _ => rfl
  have pastBase : ∀ rest : CString, (',' :: (" LENGTH = 0x".toList ++ rest)).drop 13 = rest := fun _ => rfl
  unfold readRegion
  rw [line]
  dsimp only
  rw [(untilStop name _).1, (untilStop name _).2, ← List.cons_append, (untilStop pad _).2, List.append_assoc, past,
    (untilStop base _).1, (untilStop base _).2, pastBase, HeaderOutline.hex8Value, HeaderOutline.hexValue]

theorem headApart {lines : List CString} {line : CString} (other : ∀ made ∈ lines, made.head? ≠ line.head?) :
    line ∉ lines := fun held => other line held rfl

theorem commentApart (target : CString) {line : CString}
    (other : line.head? ∉ [some '/', some ' ', some ' ', some ' ', some ' ', none]) : line ∉ commentLines target := by
  refine headApart fun made held same => other ?_
  have heads : (commentLines target).map List.head? = [some '/', some ' ', some ' ', some ' ', some ' ', none] := rfl
  rw [← heads, ← same]
  exact List.mem_map_of_mem held

theorem regionsApart (regions : List MemoryRegion) {line : CString} (other : line.head? ≠ some ' ') :
    line ∉ regions.map regionLine := by
  refine headApart fun made held same => other ?_
  obtain ⟨region, _, rfl⟩ := List.mem_map.mp held
  exact same.symm

theorem scriptRegions {target : CString} {accepted : List MemoryRegion} (readable : Readable target accepted) :
    regions (commentText target ++ memoryText accepted ++ sectionText) = accepted.map region := by
  have cut : lines target accepted ++ [[]] = commentLines target ++ "MEMORY".toList :: ("\x7b".toList ::
      (accepted.map regionLine ++ "\x7d".toList :: ([] :: (sectionLines.map String.toList ++ [[]])))) := by
    simp only [lines, memoryLines, List.append_assoc, List.cons_append, List.nil_append]
  have past : ∀ rest : List CString, ("MEMORY".toList :: ("\x7b".toList :: rest)).drop 2 = rest := fun _ => rfl
  unfold regions
  rw [scriptSplit readable, cut, (untilStop (commentApart target (by decide)) _).2, past,
    (untilStop (regionsApart accepted (by decide)) _).1, List.map_map]
  exact List.map_congr_left fun region held =>
    regionRead (readable.names region held).1 (readable.types region held).1

theorem scriptReferences {target : CString} {accepted : List MemoryRegion} (readable : Readable target accepted) :
    references (commentText target ++ memoryText accepted ++ sectionText) =
      ["FLASH".toList, "FLASH".toList, "RAM".toList, "FLASH".toList, "RAM".toList, "RAM".toList, "RAM".toList] := by
  have front : "SECTIONS".toList ∉ commentLines target ++ memoryLines accepted := by
    refine List.not_mem_append (commentApart target (by decide)) ?_
    unfold memoryLines
    exact List.not_mem_append (List.not_mem_append (by decide) (regionsApart accepted (by decide))) (by decide)
  have cut : lines target accepted ++ [[]] = (commentLines target ++ memoryLines accepted) ++
      "SECTIONS".toList :: (sectionLines.tail.map String.toList ++ [[]]) := by
    unfold lines
    rw [List.append_assoc _ _ [[]]]
    rfl
  unfold references
  have last : ([[]] : List CString).flatMap placed = [] := by decide
  have sections : "SECTIONS".toList :: sectionLines.tail.map String.toList = sectionLines.map String.toList := rfl
  rw [scriptSplit readable, cut, (untilStop front _).2, ← List.cons_append, List.flatMap_append, last, List.append_nil,
    sections, sectionPlaced]

/-! Every session -/

structure Scripted (target : CString) (calls : List MemoryRegion) : Prop where
  result : (linkerGenerate (session target calls)).1 = 0
  first : accepted (linkerInit target) calls = calls.take 10
  refused : ∀ done region, done ++ [region] <+: calls → (add (session target done) region).1 ≠ 0 →
    add (session target done) region = (-1, session target done)
  text : script target calls = commentText target ++ memoryText (accepted (linkerInit target) calls) ++ sectionText
  listed : Readable target (accepted (linkerInit target) calls) →
    regions (script target calls) = (accepted (linkerInit target) calls).map region
  placements : Readable target (accepted (linkerInit target) calls) → references (script target calls) =
    ["FLASH".toList, "FLASH".toList, "RAM".toList, "FLASH".toList, "RAM".toList, "RAM".toList, "RAM".toList]
  resolved : Readable target (accepted (linkerInit target) calls) → (Resolved (script target calls) ↔
    ((accepted (linkerInit target) calls).map MemoryRegion.name).Nodup ∧
      "FLASH".toList ∈ (accepted (linkerInit target) calls).map MemoryRegion.name ∧
      "RAM".toList ∈ (accepted (linkerInit target) calls).map MemoryRegion.name)

theorem addRefused {ctx : LinkerContext} (full : ctx.regions.length ≥ 10) (region : MemoryRegion) :
    add ctx region = (-1, ctx) := by
  unfold add linkerAddRegion
  rw [dif_pos full]

/-- An accepted region is the last of the context, in which nothing else changes. -/
theorem addAccepted {ctx : LinkerContext} (free : ¬ ctx.regions.length ≥ 10) (region : MemoryRegion) :
    (add ctx region).1 = 0 ∧ ∃ room, (add ctx region).2 = { ctx with regions := ctx.regions ++ [region], room } := by
  unfold add linkerAddRegion
  rw [dif_neg free]
  exact ⟨rfl, _, rfl⟩

theorem acceptedFirst (ctx : LinkerContext) (calls : List MemoryRegion) :
    accepted ctx calls = calls.take (10 - ctx.regions.length) := by
  induction calls generalizing ctx with
  | nil => rw [accepted, List.take_nil]
  | cons region calls next =>
    unfold accepted
    by_cases full : ctx.regions.length ≥ 10
    · have left : 10 - ctx.regions.length = 0 := by omega
      rw [addRefused full, next, left]
      rfl
    · obtain ⟨zero, room, after⟩ := addAccepted full region
      have left : 10 - ctx.regions.length = 10 - (ctx.regions ++ [region]).length + 1 := by
        rw [List.length_append, List.length_singleton]
        omega
      rw [zero, if_pos rfl, next, after, left, List.take_succ_cons]
      rfl

def setting (ctx : LinkerContext) : CString × CString × UInt32 × UInt32 :=
  (ctx.output, ctx.target, ctx.stackSize, ctx.heapSize)

theorem addFields (ctx : LinkerContext) (region : MemoryRegion) :
    setting (add ctx region).2 = setting ctx ∧
      (add ctx region).2.regions = ctx.regions ++ if (add ctx region).1 = 0 then [region] else [] := by
  by_cases full : ctx.regions.length ≥ 10
  · have code : ¬ (-1 : Int) = 0 := by decide
    rw [addRefused full, if_neg code, List.append_nil]
    exact ⟨rfl, rfl⟩
  · obtain ⟨zero, room, after⟩ := addAccepted full region
    rw [after, zero]
    exact ⟨rfl, rfl⟩

theorem sessionFields (ctx : LinkerContext) (calls : List MemoryRegion) :
    setting (calls.foldl (fun ctx region => (add ctx region).2) ctx) = setting ctx ∧
      (calls.foldl (fun ctx region => (add ctx region).2) ctx).regions = ctx.regions ++ accepted ctx calls := by
  induction calls generalizing ctx with
  | nil => exact ⟨rfl, (List.append_nil _).symm⟩
  | cons region calls next =>
    obtain ⟨same, added⟩ := addFields ctx region
    obtain ⟨kept, more⟩ := next (add ctx region).2
    rw [List.foldl_cons]
    refine ⟨kept.trans same, ?_⟩
    rw [more, added, accepted, List.append_assoc]

theorem sessionScript (target : CString) (calls : List MemoryRegion) : script target calls =
    commentText target ++ memoryText (accepted (linkerInit target) calls) ++ sectionText := by
  obtain ⟨same, added⟩ := sessionFields (linkerInit target) calls
  have fields := Prod.mk.inj same
  have sizes := Prod.mk.inj (Prod.mk.inj fields.2).2
  have text := @generated (session target calls) fields.1 sizes.1 sizes.2
  have named : (session target calls).target = target := (Prod.mk.inj fields.2).1
  have regions : (session target calls).regions = accepted (linkerInit target) calls := added
  rwa [named, regions] at text

theorem resolvedExactly {target : CString} {accepted : List MemoryRegion} (readable : Readable target accepted) :
    Resolved (commentText target ++ memoryText accepted ++ sectionText) ↔
      (accepted.map MemoryRegion.name).Nodup ∧ "FLASH".toList ∈ accepted.map MemoryRegion.name ∧
        "RAM".toList ∈ accepted.map MemoryRegion.name := by
  have names : (accepted.map region).map Region.name = accepted.map MemoryRegion.name := List.map_map
  unfold Resolved
  rw [scriptRegions readable, scriptReferences readable, names]
  simp only [List.forall_mem_cons]
  constructor
  · rintro ⟨once, flash, _, ram, _⟩
    exact ⟨once, flash, ram⟩
  · rintro ⟨once, flash, ram⟩
    exact ⟨once, flash, flash, ram, flash, ram, ram, ram, List.forall_mem_nil _⟩

/-- A generated script lists the first ten regions, and refers to FLASH and RAM whether they are
among them or not. -/
theorem scripted (target : CString) (calls : List MemoryRegion) : Scripted target calls := by
  have text := sessionScript target calls
  refine ⟨rfl, acceptedFirst (linkerInit target) calls, fun done region first code => ?_, text, fun readable => ?_,
    fun readable => ?_, fun readable => ?_⟩
  · by_cases full : (session target done).regions.length ≥ 10
    · exact addRefused full region
    · exact absurd (addAccepted full region).1 code
  · rw [text, scriptRegions readable]
  · rw [text, scriptReferences readable]
  · rw [text, resolvedExactly readable]

def flash : MemoryRegion := ⟨"FLASH".toList, 0x10000000, 0x200000, "rx".toList⟩
def ram : MemoryRegion := ⟨"RAM".toList, 0x20000000, 0x42000, "rwx".toList⟩

-- Without regions, and with one name for two.
theorem unresolvedScripts : (linkerGenerate (session "rp2040".toList [])).1 = 0 ∧
    ¬ Resolved (script "rp2040".toList []) ∧ (linkerGenerate (session "rp2040".toList [flash, ram, ram])).1 = 0 ∧
    ¬ Resolved (script "rp2040".toList [flash, ram, ram]) := by
  have none_ : Readable "rp2040".toList [] := ⟨by decide, by decide, by decide⟩
  have both : Readable "rp2040".toList [flash, ram, ram] := ⟨by decide, by decide, by decide⟩
  refine ⟨rfl, fun resolved => ?_, rfl, fun resolved => ?_⟩
  · rw [sessionScript] at resolved
    exact absurd ((resolvedExactly none_).mp resolved).2.1 (by decide)
  · rw [sessionScript] at resolved
    exact absurd ((resolvedExactly both).mp resolved).1 (by decide)

end BitN.LinkerScript
