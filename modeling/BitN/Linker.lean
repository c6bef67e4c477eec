import BitN.Codegen

/-! The linker script generator. Every allocation succeeds, and the output can be opened. -/
namespace BitN

structure MemoryRegion where
  name : CString
  base : UInt32
  size : UInt32
  type : CString
  deriving DecidableEq

/-- `regions` is what is in use of an array of ten, `region_count` its length. -/
structure LinkerContext where
  output : CString
  regions : List MemoryRegion
  target : CString
  stackSize : UInt32
  heapSize : UInt32
  room : regions.length ≤ 10

def linkerInit (target : CString) : LinkerContext where
  output := []
  regions := []
  target := target
  stackSize := 0x1000
  heapSize := 0x1000
  room := Nat.zero_le 10

def linkerAddRegion (ctx : LinkerContext) (name : CString) (base size : UInt32) (type : CString) :
    Int × LinkerContext :=
  if full : ctx.regions.length ≥ 10 then (-1, ctx)
  else
    (0, { ctx with
          regions := ctx.regions ++ [⟨name, base, size, type⟩]
          room := by rw [List.length_append, List.length_singleton]; omega })

def fprintf (ctx : LinkerContext) (text : CString) : LinkerContext := { ctx with output := ctx.output ++ text }

-- "  %s (%-4s) : ORIGIN = 0x%08x, LENGTH = 0x%x\n"
def regionText (region : MemoryRegion) : CString :=
  "  ".toList ++ region.name ++ " (".toList ++ region.type.rightpad 4 ' ' ++ ") : ORIGIN = 0x".toList ++
    hex8 region.base ++ ", LENGTH = 0x".toList ++ hex region.size ++ "\n".toList

def linkerGenerate (ctx : LinkerContext) : Int × LinkerContext :=
  let ctx := fprintf ctx ("/**\n * Auto-generated ARM Linker Script for ".toList ++ ctx.target ++
    "\n * Generated by bit(N) compiler\n * Target: ".toList ++ ctx.target ++ "\n */\n\n".toList)
  let ctx := fprintf ctx "MEMORY\n\x7b\n".toList
  let ctx := ctx.regions.foldl (fun ctx region => fprintf ctx (regionText region)) ctx
  let ctx := fprintf ctx "\x7d\n\n".toList
  let ctx := fprintf ctx "SECTIONS\n\x7b\n".toList
  let ctx := fprintf ctx "  .vectors :\n  \x7b\n    KEEP(*(.vectors))\n  \x7d > FLASH\n\n".toList
  let ctx := fprintf ctx "  .text :\n  \x7b\n    *(.text*)\n    *(.rodata*)\n  \x7d > FLASH\n\n".toList
  let ctx := fprintf ctx ("  .data :\n  \x7b\n    PROVIDE(_sdata = .);\n    *(.data*)\n    PROVIDE(_edata = .);\n".toList ++
    "  \x7d > RAM AT > FLASH\n  PROVIDE(_sidata = LOADADDR(.data));\n\n".toList)
  let ctx := fprintf ctx ("  .bss :\n  \x7b\n    PROVIDE(_sbss = .);\n    *(.bss*)\n    *(COMMON)\n".toList ++
    "    PROVIDE(_ebss = .);\n  \x7d > RAM\n\n".toList)
  let ctx := fprintf ctx ("  .heap :\n  \x7b\n    PROVIDE(_heap_start = .);\n    . += 0x".toList ++ hex ctx.heapSize ++
    ";\n    PROVIDE(_heap_end = .);\n  \x7d > RAM\n\n".toList)
  let ctx := fprintf ctx ("  .stack :\n  \x7b\n    PROVIDE(_stack_start = .);\n    . += 0x".toList ++
    hex ctx.stackSize ++ ";\n    PROVIDE(_stack_end = .);\n  \x7d > RAM\n\n".toList)
  let ctx := fprintf ctx "\x7d\n".toList
  (0, ctx)

end BitN
