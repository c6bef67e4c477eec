import BitN.CheckerOwnership
import BitN.LinkerScript

/-! The linker script generator as it works in memory: the names of a region are copied into blocks of their
own, and all of it is released with the context. The output is what has been written to the file. -/
namespace BitN.LinkerMemory
open Heap AstMemory CheckerMemory

def Block.linker? : Block → Option LinkerNode
  | .linker node => some node
  | _ => none

def loadLinker : Nat → Client LinkerNode := loadAs Block.linker?

def Block.regions? : Block → Option (Nat × List RegionNode)
  | .regions capacity slots => some (capacity, slots)
  | _ => none

def loadRegions : Pointer → Client (Nat × List RegionNode)
  | none => fault
  | some p => loadAs Block.regions? p

def getRegion (regions : Pointer) (i : Nat) : Client RegionNode := do
  let (_, slots) ← loadRegions regions
  match slots[i]? with
  | some region => pure region
  | none => fault

-- The next region is the first that has not been written.
def setRegion (regions : Pointer) (i : Nat) (region : RegionNode) : Client Unit := do
  let (capacity, slots) ← loadRegions regions
  match regions with
  | some p => if i = slots.length ∧ i < capacity then store p (.regions capacity (slots ++ [region])) else fault
  | none => fault

section linker
variable (allocator : Allocator Block)

def linkerInit (opened : Bool) (target : CString) : Client Pointer := do
  let ctx ← alloc allocator (.linker ⟨[], none, 0, none, 0, 0⟩)
  if opened then
    let regions ← alloc allocator (.regions 10 [])
    let copied ← alloc allocator (.text target)
    store ctx (.linker ⟨[], some regions, 0, some copied, 0x1000, 0x1000⟩)
    pure (some ctx)
  else
    free ctx
    pure none

def linkerAddRegion (ctx : Pointer) (name : CString) (base size : UInt32) (type : CString) : Client Int :=
  match ctx with
  | none => pure (-1)
  | some p => do
    let node ← loadLinker p
    if node.regionCount ≥ 10 then pure (-1)
    else do
      let name ← alloc allocator (.text name)
      let type ← alloc allocator (.text type)
      setRegion node.regions node.regionCount ⟨some name, base, size, some type⟩
      store p (.linker { node with regionCount := node.regionCount + 1 })
      pure 0

end linker

def readRegions (regions : Pointer) (i : Nat) : Nat → Client (List MemoryRegion)
  | 0 => pure []
  | n + 1 => do
    let region ← getRegion regions i
    let name ← loadText region.name
    let type ← loadText region.type
    let others ← readRegions regions (i + 1) n
    pure (⟨name, region.base, region.size, type⟩ :: others)

-- The text is the one that `linkerGenerate` makes of what is read, which is never more than ten regions.
def linkerGenerate : Pointer → Client Int
  | none => pure (-1)
  | some p => do
    let node ← loadLinker p
    let target ← loadText node.target
    let regions ← readRegions node.regions 0 node.regionCount
    if room : regions.length ≤ 10 then do
      let (result, ctx) := BitN.linkerGenerate ⟨node.output, regions, target, node.stackSize, node.heapSize, room⟩
      store p (.linker { node with output := ctx.output })
      pure result
    else fault

def freeRegions (regions : Pointer) (i : Nat) : Nat → Client Unit
  | 0 => pure ()
  | n + 1 => do
    let region ← getRegion regions i
    freePointer region.name
    freePointer region.type
    freeRegions regions (i + 1) n

def linkerCleanup : Pointer → Client Unit
  | none => pure ()
  | some p => do
    let node ← loadLinker p
    freeRegions node.regions 0 node.regionCount
    freePointer node.regions
    freePointer node.target
    free p

/-! Ownership -/

inductive RegionAt : MemoryRegion → RegionNode → Bag → Prop where
  | region {name base size type n t} :
      RegionAt ⟨name, base, size, type⟩ ⟨some n, base, size, some t⟩ ({⟨n, .text name⟩} + {⟨t, .text type⟩})

inductive LinkerAt : LinkerContext → Nat → Bag → Prop where
  | linker {ctx p array slots target ms} (each : EachAt RegionAt ctx.regions slots ms) :
      LinkerAt ctx p ({⟨p, .linker ⟨ctx.output, some array, ctx.regions.length, some target, ctx.stackSize,
        ctx.heapSize⟩⟩} + ({⟨target, .text ctx.target⟩} + ({⟨array, .regions 10 slots⟩} + ms)))

theorem regionRead {array capacity i : Nat} {slots : List RegionNode} {region : RegionNode}
    (here : slots[i]? = some region) : Runs {⟨array, .regions capacity slots⟩} (getRegion (some array) i)
      fun found left => found = region ∧ left = {⟨array, .regions capacity slots⟩} := by
  refine runsBind (loadedAs rfl) ?_
  rintro _ _ ⟨rfl, rfl⟩
  simp only [here]
  exact runsPure ⟨rfl, rfl⟩

theorem contextMade (allocator : Allocator Block) (opened : Bool) (target : CString) :
    Runs 0 (linkerInit allocator opened target) fun ctx left =>
      if opened then ∃ p, ctx = some p ∧ LinkerAt (BitN.linkerInit target) p left else ctx = none ∧ left = 0 := by
  refine runsBind (runsAlloc allocator _) ?_
  rintro ctx _ rfl
  cases opened with
  | false =>
    refine runsBind (runsFree rfl) ?_
    rintro _ _ rfl
    exact runsPure ⟨rfl, rfl⟩
  | true =>
    refine runsBind (runsAlloc allocator _) ?_
    rintro regions _ rfl
    refine runsBind (runsAlloc allocator _) ?_
    rintro copied _ rfl
    have last (block : Block) : ({⟨copied, .text target⟩} + ({⟨regions, .regions 10 []⟩} + ({⟨ctx, block⟩} + 0)) :
        Bag) = {⟨ctx, block⟩} + ({⟨copied, .text target⟩} + ({⟨regions, .regions 10 []⟩} + 0)) := by ac_rfl
    refine runsBind (runsStore _ (last _)) ?_
    rintro _ _ rfl
    exact runsPure ⟨ctx, rfl, .linker .nil⟩

section loops
variable {regions : List MemoryRegion} {slots : List RegionNode} {ms : Bag} {array capacity : Nat}

theorem regionsRead (before : List RegionNode) (each : EachAt RegionAt regions slots ms) :
    Runs ({⟨array, .regions capacity (before ++ slots)⟩} + ms)
      (readRegions (some array) before.length regions.length)
      fun found left => found = regions ∧ left = {⟨array, .regions capacity (before ++ slots)⟩} + ms := by
  induction each generalizing before with
  | nil => exact runsPure ⟨rfl, rfl⟩
  | @cons region slot m regions slots ms first others ih =>
    cases first with
    | @region name base size type n t =>
      let slot : RegionNode := ⟨some n, base, size, some t⟩
      let own : Bag := {⟨array, .regions capacity (before ++ slot :: slots)⟩}
      have here : (before ++ slot :: slots)[before.length]? = some slot := by simp
      refine runsBind (runsKept rfl (regionRead here)) ?_
      rintro _ _ ⟨rfl, rfl⟩
      have named : own + ({⟨n, .text name⟩} + {⟨t, .text type⟩} + ms) =
          {⟨n, .text name⟩} + (own + ({⟨t, .text type⟩} + ms)) := by ac_rfl
      refine runsBind (textRead named) ?_
      rintro name _ ⟨rfl, rfl⟩
      have typed : own + ({⟨n, .text name⟩} + {⟨t, .text type⟩} + ms) =
          {⟨t, .text type⟩} + (own + ({⟨n, .text name⟩} + ms)) := by ac_rfl
      refine runsBind (textRead typed) ?_
      rintro type _ ⟨rfl, rfl⟩
      have next := ih (before ++ [slot])
      rw [List.append_assoc, List.length_append, List.length_singleton] at next
      have apart : own + ({⟨n, .text name⟩} + {⟨t, .text type⟩} + ms) =
          own + ms + ({⟨n, .text name⟩} + {⟨t, .text type⟩}) := by ac_rfl
      refine runsBind (runsKept apart next) ?_
      rintro _ _ ⟨rfl, rfl⟩
      exact runsPure ⟨rfl, rfl⟩

theorem regionsFreed (before : List RegionNode) (each : EachAt RegionAt regions slots ms) :
    Runs ({⟨array, .regions capacity (before ++ slots)⟩} + ms)
      (freeRegions (some array) before.length regions.length)
      fun _ left => left = {⟨array, .regions capacity (before ++ slots)⟩} := by
  induction each generalizing before with
  | nil => exact runsPure (add_zero _)
  | @cons region slot m regions slots ms first others ih =>
    cases first with
    | @region name base size type n t =>
      let slot : RegionNode := ⟨some n, base, size, some t⟩
      let own : Bag := {⟨array, .regions capacity (before ++ slot :: slots)⟩}
      have here : (before ++ slot :: slots)[before.length]? = some slot := by simp
      refine runsBind (runsKept rfl (regionRead here)) ?_
      rintro _ _ ⟨rfl, rfl⟩
      have named : own + ({⟨n, .text name⟩} + {⟨t, .text type⟩} + ms) =
          {⟨n, .text name⟩} + ({⟨t, .text type⟩} + (own + ms)) := by ac_rfl
      refine runsBind (runsFree named) ?_
      rintro _ _ rfl
      refine runsBind (runsFree rfl) ?_
      rintro _ _ rfl
      have next := ih (before ++ [slot])
      rwa [List.append_assoc, List.length_append, List.length_singleton] at next

end loops

theorem apartLast (first second last : Bag) : first + (second + last) = last + (first + second) := by
  rw [← add_assoc, add_comm]

section held
variable {ctx : LinkerContext} {p : Nat} {m : Bag}

theorem regionWritten {array : Nat} {slots : List RegionNode} (few : slots.length < 10) (region : RegionNode) :
    Runs {⟨array, .regions 10 slots⟩} (setRegion (some array) slots.length region) fun _ left =>
      left = {⟨array, .regions 10 (slots ++ [region])⟩} := by
  refine runsBind (loadedAs rfl) ?_
  rintro _ _ ⟨rfl, rfl⟩
  simp only [few, and_self, if_true]
  refine runsWeaken (runsStore _ (add_zero _).symm) ?_
  rintro _ _ rfl
  exact add_zero _

theorem regionAdded (allocator : Allocator Block) (held : LinkerAt ctx p m) (name : CString) (base size : UInt32)
    (type : CString) : Runs m (linkerAddRegion allocator (some p) name base size type) fun result left =>
      result = (BitN.linkerAddRegion ctx name base size type).1 ∧
        LinkerAt (BitN.linkerAddRegion ctx name base size type).2 p left := by
  cases held with
  | @linker array slots target ms each =>
    refine runsBind (runsKept rfl (loadedAs rfl)) ?_
    rintro _ _ ⟨rfl, rfl⟩
    unfold BitN.linkerAddRegion
    by_cases full : ctx.regions.length ≥ 10
    · rw [if_pos full, dif_pos full]
      exact runsPure ⟨rfl, .linker each⟩
    · rw [if_neg full, dif_neg full]
      refine runsBind (runsAlloc allocator _) ?_
      rintro n _ rfl
      refine runsBind (runsAlloc allocator _) ?_
      rintro t _ rfl
      have few : slots.length < 10 := by
        rw [each.length]
        omega
      have written := @regionWritten array _ few ⟨some n, base, size, some t⟩
      rw [each.length] at written
      have apart (own others : Bag) : ({⟨t, .text type⟩} + ({⟨n, .text name⟩} + (own + (others +
          ({⟨array, .regions 10 slots⟩} + ms)))) : Bag) = {⟨array, .regions 10 slots⟩} +
            (own + (others + (ms + ({⟨n, .text name⟩} + {⟨t, .text type⟩})))) := by ac_rfl
      refine runsCall (apart _ _) written ?_
      rintro _ _ rfl
      refine runsBind (runsStore _ (add_left_comm _ _ _)) ?_
      rintro _ _ rfl
      rw [add_left_comm ({⟨array, _⟩} : Bag)]
      have counted : ctx.regions.length + 1 = (ctx.regions ++ [(⟨name, base, size, type⟩ : MemoryRegion)]).length := by
        rw [List.length_append, List.length_singleton]
      refine runsPure ⟨rfl, ?_⟩
      dsimp only
      rw [counted]
      have one : RegionAt ⟨name, base, size, type⟩ ⟨some n, base, size, some t⟩ _ := .region
      exact .linker (each.snoc one)

theorem generatedKept (ctx : LinkerContext) : (BitN.linkerGenerate ctx).2 =
    { ctx with output := (BitN.linkerGenerate ctx).2.output } := by
  unfold BitN.linkerGenerate
  dsimp only
  rw [LinkerScript.fprintfAll]
  rfl

theorem scriptGenerated (held : LinkerAt ctx p m) : Runs m (linkerGenerate (some p)) fun result left =>
    result = (BitN.linkerGenerate ctx).1 ∧ LinkerAt (BitN.linkerGenerate ctx).2 p left := by
  cases held with
  | @linker array slots target ms each =>
    refine runsBind (runsKept rfl (loadedAs rfl)) ?_
    rintro _ _ ⟨rfl, rfl⟩
    refine runsBind (textRead (add_left_comm _ _ _)) ?_
    rintro _ _ ⟨rfl, rfl⟩
    refine runsBind (runsKept (apartLast _ _ _) (regionsRead [] each)) ?_
    rintro _ _ ⟨rfl, rfl⟩
    rw [dif_pos ctx.room]
    refine runsBind (runsStore _ rfl) ?_
    rintro _ _ rfl
    refine runsPure ⟨rfl, ?_⟩
    rw [generatedKept]
    exact .linker each

theorem contextReleased (held : LinkerAt ctx p m) : Runs m (linkerCleanup (some p)) fun _ left => left = 0 := by
  cases held with
  | @linker array slots target ms each =>
    refine runsBind (runsKept rfl (loadedAs rfl)) ?_
    rintro _ _ ⟨rfl, rfl⟩
    refine runsCall (apartLast _ _ _) (regionsFreed [] each) ?_
    rintro _ _ rfl
    refine runsBind (runsFree rfl) ?_
    rintro _ _ rfl
    refine runsBind (runsFree (add_comm _ _)) ?_
    rintro _ _ rfl
    exact runsFree (add_zero _).symm

end held

/-! A session -/

inductive Call where
  | addRegion (name : CString) (base size : UInt32) (type : CString)
  | generate

def perform (allocator : Allocator Block) (ctx : Pointer) : Call → Client Int
  | .addRegion name base size type => linkerAddRegion allocator ctx name base size type
  | .generate => linkerGenerate ctx

def performAll (allocator : Allocator Block) (ctx : Pointer) : List Call → Client (List Int)
  | [] => pure []
  | call :: calls => do
    let result ← perform allocator ctx call
    let results ← performAll allocator ctx calls
    pure (result :: results)

def fileText : Pointer → Client CString
  | none => pure []
  | some p => do
    let node ← loadLinker p
    pure node.output

/-- The results of the calls, and what is in the file when it is closed. -/
def session (allocator : Allocator Block) (opened : Bool) (target : CString) (calls : List Call) :
    Client (List Int × CString) := do
  let ctx ← linkerInit allocator opened target
  let results ← performAll allocator ctx calls
  let text ← fileText ctx
  linkerCleanup ctx
  pure (results, text)

def performed (ctx : LinkerContext) : Call → Int × LinkerContext
  | .addRegion name base size type => BitN.linkerAddRegion ctx name base size type
  | .generate => BitN.linkerGenerate ctx

def performedAll (ctx : LinkerContext) : List Call → List Int × LinkerContext
  | [] => ([], ctx)
  | call :: calls =>
    let (result, ctx) := performed ctx call
    let (results, ctx) := performedAll ctx calls
    (result :: results, ctx)

section session
variable (allocator : Allocator Block)

theorem callPerformed {ctx : LinkerContext} {p : Nat} {m : Bag} (held : LinkerAt ctx p m) (call : Call) :
    Runs m (perform allocator (some p) call) fun result left =>
      result = (performed ctx call).1 ∧ LinkerAt (performed ctx call).2 p left := by
  cases call with
  | addRegion name base size type => exact regionAdded allocator held name base size type
  | generate => exact scriptGenerated held

theorem callsPerformed {ctx : LinkerContext} {p : Nat} {m : Bag} (held : LinkerAt ctx p m) (calls : List Call) :
    Runs m (performAll allocator (some p) calls) fun results left =>
      results = (performedAll ctx calls).1 ∧ LinkerAt (performedAll ctx calls).2 p left := by
  induction calls generalizing ctx m with
  | nil => exact runsPure ⟨rfl, held⟩
  | cons call calls ih =>
    refine runsBind (callPerformed allocator held call) ?_
    rintro _ _ ⟨rfl, held⟩
    refine runsBind (ih held) ?_
    rintro _ _ ⟨rfl, held⟩
    exact runsPure ⟨rfl, held⟩

-- Where the file could not be opened every call fails.
theorem callsRefused (calls : List Call) {owned : Bag} : Runs owned (performAll allocator none calls)
    fun results left => results = calls.map (fun _ => -1) ∧ left = owned := by
  induction calls with
  | nil => exact runsPure ⟨rfl, rfl⟩
  | cons call calls ih =>
    have refused : Runs owned (perform allocator none call) fun result left => result = -1 ∧ left = owned := by
      cases call with
      | addRegion name base size type => exact runsPure ⟨rfl, rfl⟩
      | generate => exact runsPure ⟨rfl, rfl⟩
    refine runsBind refused ?_
    rintro _ _ ⟨rfl, rfl⟩
    refine runsBind ih ?_
    rintro _ _ ⟨rfl, rfl⟩
    exact runsPure ⟨rfl, rfl⟩

theorem textWritten {ctx : LinkerContext} {p : Nat} {m : Bag} (held : LinkerAt ctx p m) :
    Runs m (fileText (some p)) fun text left => text = ctx.output ∧ left = m := by
  cases held
  refine runsBind (runsKept rfl (loadedAs rfl)) ?_
  rintro _ _ ⟨rfl, rfl⟩
  exact runsPure ⟨rfl, rfl⟩

/-- Whatever calls there are between the two, every block of a context is released with it. -/
theorem linkerReleased (opened : Bool) (target : CString) (calls : List Call) (memory : Memory Block) :
    session allocator opened target calls memory = some
      (if opened then
        ((performedAll (BitN.linkerInit target) calls).1, (performedAll (BitN.linkerInit target) calls).2.output)
      else (calls.map fun _ => -1, []), memory) := by
  have ran : Runs 0 (session allocator opened target calls) fun found left => found =
      (if opened then
        ((performedAll (BitN.linkerInit target) calls).1, (performedAll (BitN.linkerInit target) calls).2.output)
      else (calls.map fun _ => -1, [])) ∧ left = 0 := by
    refine runsBind (contextMade allocator opened target) fun ctx left made => ?_
    cases opened with
    | false =>
      obtain ⟨rfl, rfl⟩ := made
      refine runsBind (callsRefused allocator calls) ?_
      rintro _ _ ⟨rfl, rfl⟩
      exact runsPure ⟨rfl, rfl⟩
    | true =>
      obtain ⟨p, rfl, held⟩ := made
      refine runsBind (callsPerformed allocator held calls) ?_
      rintro _ _ ⟨rfl, held⟩
      refine runsBind (textWritten held) ?_
      rintro _ _ ⟨rfl, rfl⟩
      refine runsBind (contextReleased held) ?_
      rintro _ _ rfl
      exact runsPure ⟨rfl, rfl⟩
  obtain ⟨found, after, left, done, kept, rfl, rfl⟩ := ran memory memory.entries (zero_add _).symm
  rw [done, Finmap.ext (kept.trans (zero_add _))]

end session

end BitN.LinkerMemory
