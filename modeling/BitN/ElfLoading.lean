import BitN.BinaryLoading
import Mathlib.Data.Fin.Basic
import Mathlib.Data.List.Infix

/-! `rp2040_load_elf` writes a file as it reads it, each chunk behind the one before. A file that
does not fit is refused at the chunk that would leave the SRAM, when the earlier ones are there already. -/
namespace BitN.ElfLoading

/-- What `fread` may deliver of a file, up to its end. -/
def Cut (content : List UInt8) (chunks : List (List UInt8)) : Prop :=
  chunks.flatten = content ∧ ∀ chunk ∈ chunks, chunk ≠ [] ∧ chunk.length ≤ 4096

structure Loads (sys : Rp2040System) (content : List UInt8) : Prop where
  result : ∀ chunks, Cut content chunks →
    ((rp2040LoadElf sys (some chunks)).1 = 0 ↔ content.length ≤ rp2040SramSize.toNat)
  codes : ∀ chunks, Cut content chunks →
    (rp2040LoadElf sys (some chunks)).1 = 0 ∨ (rp2040LoadElf sys (some chunks)).1 = -1
  loaded : ∀ chunks, Cut content chunks → (rp2040LoadElf sys (some chunks)).1 = 0 →
    ∃ sram cores, (rp2040LoadElf sys (some chunks)).2 = { sys with sram, cores } ∧
      (∀ i, i < content.length → some (sram.data i) = content[i]?) ∧
      (∀ i, content.length ≤ i → sram.data i = sys.sram.data i) ∧
      cores.get 0 = { sys.cores.get 0 with pc := rp2040SramBase } ∧ cores.get 1 = sys.cores.get 1
  refused : ∀ chunks, Cut content chunks → (rp2040LoadElf sys (some chunks)).1 = -1 →
    (rp2040LoadElf sys (some chunks)).2 = sys
  cuts : ∀ chunks others, Cut content chunks → Cut content others →
    rp2040LoadElf sys (some chunks) = rp2040LoadElf sys (some others)

/-! The file so far -/

def startWith (sram : Sram) (bytes : List UInt8) : Sram where
  data := fun i => bytes[i]?.getD (sram.data i)

theorem startWithInside (sram : Sram) {bytes : List UInt8} {i : Nat} (inside : i < bytes.length) :
    some ((startWith sram bytes).data i) = bytes[i]? := by
  simp only [startWith, List.getElem?_eq_getElem inside, Option.getD_some]

theorem startWithBehind (sram : Sram) {bytes : List UInt8} {i : Nat} (behind : bytes.length ≤ i) :
    (startWith sram bytes).data i = sram.data i := by
  simp only [startWith, List.getElem?_eq_none behind, Option.getD_none]

theorem startWithSame {sram : Sram} {bytes : List UInt8}
    (same : ∀ i, i < bytes.length → some (sram.data i) = bytes[i]?) : startWith sram bytes = sram := by
  unfold startWith
  congr
  funext i
  by_cases inside : i < bytes.length
  · rw [← same i inside, Option.getD_some]
  · rw [List.getElem?_eq_none (by omega), Option.getD_none]

theorem copyBehind (sram : Sram) (bytes more : List UInt8) {offset len : UInt32}
    (start : offset.toNat = bytes.length) (size : len.toNat = more.length) :
    (startWith sram bytes).copy offset more len = startWith sram (bytes ++ more) := by
  unfold Sram.copy startWith
  congr
  funext i
  rw [start, size, List.getElem?_append]
  by_cases before : i < bytes.length
  · rw [if_neg (by omega), if_pos before]
  · rw [if_neg before]
    by_cases inside : i < bytes.length + more.length
    · rw [if_pos ⟨by omega, inside⟩, List.getD_eq_getElem?_getD, List.getElem?_eq_getElem (by omega)]
      rfl
    · rw [if_neg (by omega)]
      have behind : bytes[i]? = none := List.getElem?_eq_none (by omega)
      have behindMore : more[i - bytes.length]? = none := List.getElem?_eq_none (by omega)
      simp only [behind, behindMore]

/-! One chunk -/

def addrBehind (bytes : List UInt8) : UInt32 := rp2040SramBase + UInt32.ofNat bytes.length

theorem chunkLength {chunk : List UInt8} (short : chunk.length ≤ 4096) :
    (UInt32.ofNat chunk.length).toNat = chunk.length :=
  UInt32.toNat_ofNat_of_lt' (by unfold UInt32.size; omega)

theorem addrBehindNat {bytes : List UInt8} (fits : bytes.length ≤ rp2040SramSize.toNat) :
    (addrBehind bytes).toNat = rp2040SramBase.toNat + bytes.length := by
  have base : rp2040SramBase.toNat = 536870912 := rfl
  have size : rp2040SramSize.toNat = 272384 := rfl
  unfold addrBehind
  rw [UInt32.toNat_add, UInt32.toNat_ofNat_of_lt' (by unfold UInt32.size; omega), base]
  omega

theorem addrNext (bytes chunk : List UInt8) :
    addrBehind bytes + UInt32.ofNat chunk.length = addrBehind (bytes ++ chunk) := by
  unfold addrBehind
  rw [List.length_append, UInt32.ofNat_add, UInt32.add_assoc]

theorem chunkInRange {bytes chunk : List UInt8} (fits : bytes.length ≤ rp2040SramSize.toNat)
    (short : chunk.length ≤ 4096) :
    BinaryLoading.InRange (addrBehind bytes) (UInt32.ofNat chunk.length) ↔
      (bytes ++ chunk).length ≤ rp2040SramSize.toNat := by
  unfold BinaryLoading.InRange
  rw [addrBehindNat fits, chunkLength short, List.length_append]
  omega

theorem chunkWhole {bytes chunk : List UInt8} (fits : bytes.length ≤ rp2040SramSize.toNat)
    (short : chunk.length ≤ 4096) :
    ¬ BinaryLoading.Wraps (addrBehind bytes) (UInt32.ofNat chunk.length) := by
  have base : rp2040SramBase.toNat = 536870912 := rfl
  have size : rp2040SramSize.toNat = 272384 := rfl
  unfold BinaryLoading.Wraps
  rw [addrBehindNat fits, chunkLength short]
  omega

theorem chunkLoaded (sys : Rp2040System) {bytes chunk : List UInt8} (short : chunk.length ≤ 4096)
    (fits : (bytes ++ chunk).length ≤ rp2040SramSize.toNat) :
    rp2040LoadBinary { sys with sram := startWith sys.sram bytes } (addrBehind bytes) chunk
        (UInt32.ofNat chunk.length) =
      (0, { sys with sram := startWith sys.sram (bytes ++ chunk) }) := by
  have before : bytes.length ≤ rp2040SramSize.toNat := by
    rw [List.length_append] at fits
    omega
  have offset : (addrBehind bytes - rp2040SramBase).toNat = bytes.length := by
    have addr := addrBehindNat before
    rw [UInt32.toNat_sub_of_le _ _ (UInt32.le_iff_toNat_le.mpr (by omega))]
    omega
  rw [BinaryLoading.loadAccepted (.inl ((chunkInRange before short).mpr fits)),
    copyBehind sys.sram bytes chunk offset (chunkLength short)]

theorem chunkRefused (sys : Rp2040System) {bytes chunk : List UInt8} (short : chunk.length ≤ 4096)
    (before : bytes.length ≤ rp2040SramSize.toNat)
    (tooLong : rp2040SramSize.toNat < (bytes ++ chunk).length) :
    rp2040LoadBinary { sys with sram := startWith sys.sram bytes } (addrBehind bytes) chunk
        (UInt32.ofNat chunk.length) =
      (-1, { sys with sram := startWith sys.sram bytes }) := by
  apply BinaryLoading.loadRefused
  rintro (inRange | wraps)
  · have := (chunkInRange before short).mp inRange
    omega
  · exact chunkWhole before short wraps

theorem chunkCounted {chunk : List UInt8} (some_ : chunk ≠ []) (short : chunk.length ≤ 4096) :
    UInt32.ofNat chunk.length > 0 := by
  have := List.length_pos_of_ne_nil some_
  rw [gt_iff_lt, UInt32.lt_iff_toNat_lt, chunkLength short]
  exact this

theorem cutStep {content chunk : List UInt8} {chunks : List (List UInt8)} (cut : Cut content (chunk :: chunks)) :
    chunk ≠ [] ∧ chunk.length ≤ 4096 ∧ content = chunk ++ chunks.flatten ∧ Cut chunks.flatten chunks := by
  obtain ⟨whole, sizes⟩ := cut
  obtain ⟨some_, short⟩ := sizes chunk (List.mem_cons_self ..)
  exact ⟨some_, short, whole.symm, rfl, fun other held => sizes other (List.mem_cons_of_mem _ held)⟩

/-! The loop -/

theorem chunksLoaded (sys : Rp2040System) {chunks : List (List UInt8)} {bytes content : List UInt8}
    (cut : Cut content chunks) (fits : (bytes ++ content).length ≤ rp2040SramSize.toNat) :
    rp2040LoadChunks { sys with sram := startWith sys.sram bytes } (addrBehind bytes) chunks =
      (0, { sys with sram := startWith sys.sram (bytes ++ content) }) := by
  induction chunks generalizing bytes content with
  | nil =>
    obtain rfl : [] = content := cut.1
    rw [List.append_nil]
    rfl
  | cons chunk chunks next =>
    obtain ⟨some_, short, rfl, rest⟩ := cutStep cut
    rw [← List.append_assoc] at fits ⊢
    have chunkFits : (bytes ++ chunk).length ≤ rp2040SramSize.toNat := by
      rw [List.length_append] at fits
      omega
    unfold rp2040LoadChunks
    simp only [if_pos (chunkCounted some_ short), chunkLoaded sys short chunkFits, addrNext]
    exact next rest fits

theorem chunksRefused (sys : Rp2040System) {chunks : List (List UInt8)} {bytes content : List UInt8}
    (cut : Cut content chunks) (before : bytes.length ≤ rp2040SramSize.toNat)
    (tooLong : rp2040SramSize.toNat < (bytes ++ content).length) :
    ∃ kept, ∃ chunk ∈ chunks, kept <+: content ∧ (bytes ++ kept).length ≤ rp2040SramSize.toNat ∧
      rp2040SramSize.toNat < (bytes ++ kept ++ chunk).length ∧
      rp2040LoadChunks { sys with sram := startWith sys.sram bytes } (addrBehind bytes) chunks =
        (-1, { sys with sram := startWith sys.sram (bytes ++ kept) }) := by
  induction chunks generalizing bytes content with
  | nil =>
    obtain rfl : [] = content := cut.1
    rw [List.append_nil] at tooLong
    omega
  | cons chunk chunks next =>
    obtain ⟨some_, short, rfl, rest⟩ := cutStep cut
    unfold rp2040LoadChunks
    by_cases chunkFits : (bytes ++ chunk).length ≤ rp2040SramSize.toNat
    · rw [← List.append_assoc] at tooLong
      obtain ⟨kept, last, held, first, keptFits, lastOver, run⟩ := next rest chunkFits tooLong
      refine ⟨chunk ++ kept, last, List.mem_cons_of_mem _ held, (List.prefix_append_right_inj chunk).mpr first, ?_⟩
      rw [← List.append_assoc]
      refine ⟨keptFits, lastOver, ?_⟩
      simp only [if_pos (chunkCounted some_ short), chunkLoaded sys short chunkFits, addrNext]
      exact run
    · refine ⟨[], chunk, List.mem_cons_self .., List.nil_prefix, ?_⟩
      rw [List.append_nil]
      refine ⟨before, by omega, ?_⟩
      simp only [if_pos (chunkCounted some_ short), chunkRefused sys short before (by omega)]
      rfl

/-! The file -/

def started (sys : Rp2040System) : Vector ArmCoreState 2 := (rp2040LoadElf sys (some [])).2.cores

theorem startedCores (sys : Rp2040System) :
    (started sys).get 0 = { sys.cores.get 0 with pc := rp2040SramBase } ∧ (started sys).get 1 = sys.cores.get 1 :=
  ⟨Vector.getElem_set_self (by decide), Vector.getElem_set_ne (by decide) (by decide) (by decide)⟩

theorem elfLoaded (sys : Rp2040System) {content : List UInt8} {chunks : List (List UInt8)}
    (cut : Cut content chunks) (fits : content.length ≤ rp2040SramSize.toNat) :
    rp2040LoadElf sys (some chunks) =
      (0, { sys with sram := startWith sys.sram content, cores := started sys }) := by
  have run := @chunksLoaded sys chunks [] content cut fits
  change rp2040LoadChunks sys rp2040SramBase chunks = _ at run
  simp only [rp2040LoadElf, run]
  rfl

theorem elfRefused (sys : Rp2040System) {content : List UInt8} {chunks : List (List UInt8)}
    (cut : Cut content chunks) (tooLong : rp2040SramSize.toNat < content.length) :
    ∃ kept, ∃ chunk ∈ chunks, kept <+: content ∧ kept.length ≤ rp2040SramSize.toNat ∧
      rp2040SramSize.toNat < (kept ++ chunk).length ∧
      rp2040LoadElf sys (some chunks) = (-1, { sys with sram := startWith sys.sram kept }) := by
  obtain ⟨kept, chunk, held, first, fits, chunkOver, run⟩ :=
    @chunksRefused sys chunks [] content cut (Nat.zero_le _) tooLong
  refine ⟨kept, chunk, held, first, fits, chunkOver, ?_⟩
  change rp2040LoadChunks sys rp2040SramBase chunks = _ at run
  simp only [rp2040LoadElf, run]
  rfl

/-- The SRAM holds the file's first bytes, as many as it has room for. -/
def Held (sys : Rp2040System) (content : List UInt8) : Prop :=
  ∀ i, i < rp2040SramSize.toNat → some (sys.sram.data i) = content[i]?

theorem byteByByte (content : List UInt8) : Cut content (content.map fun byte => [byte]) := by
  refine ⟨?_, ?_⟩
  · induction content with
    | nil => rfl
    | cons byte content next => rw [List.map_cons, List.flatten_cons, next, List.singleton_append]
  · intro chunk held
    obtain ⟨byte, _, rfl⟩ := List.mem_map.mp held
    exact ⟨List.cons_ne_nil _ _, Nat.le_of_ble_eq_true rfl⟩

/-- A refused file that came byte by byte has filled the SRAM. -/
theorem byteByByteRefused (sys : Rp2040System) {content : List UInt8}
    (tooLong : rp2040SramSize.toNat < content.length) :
    rp2040LoadElf sys (some (content.map fun byte => [byte])) =
      (-1, { sys with sram := startWith sys.sram (content.take rp2040SramSize.toNat) }) := by
  obtain ⟨kept, chunk, held, first, fits, chunkOver, load⟩ := elfRefused sys (byteByByte content) tooLong
  obtain ⟨byte, _, rfl⟩ := List.mem_map.mp held
  have full : kept.length = rp2040SramSize.toNat := by
    rw [List.length_append, List.length_singleton] at chunkOver
    omega
  rw [load, ← full, ← List.prefix_iff_eq_take.mp first]

theorem heldRefused {sys : Rp2040System} {content : List UInt8} {chunks : List (List UInt8)}
    (cut : Cut content chunks) (tooLong : rp2040SramSize.toNat < content.length) (held : Held sys content) :
    rp2040LoadElf sys (some chunks) = (-1, sys) := by
  obtain ⟨kept, _, _, first, fits, _, load⟩ := elfRefused sys cut tooLong
  rw [load, startWithSame]
  intro i inside
  rw [held i (by omega), List.prefix_iff_getElem?.mp first i inside, List.getElem?_eq_getElem inside]

theorem loadsHeld {sys : Rp2040System} {content : List UInt8} (tooLong : rp2040SramSize.toNat < content.length)
    (loads : Loads sys content) : Held sys content := by
  have load := byteByByteRefused sys tooLong
  have same : startWith sys.sram (content.take rp2040SramSize.toNat) = sys.sram := by
    have refused := loads.refused _ (byteByByte content) (congrArg Prod.fst load)
    rw [load] at refused
    exact congrArg Rp2040System.sram refused
  intro i inside
  have short : i < (content.take rp2040SramSize.toNat).length := by
    rw [List.length_take]
    omega
  have written := startWithInside sys.sram short
  rwa [same, List.getElem?_take_of_lt inside] at written

theorem fitsLoads {content : List UInt8} (fits : content.length ≤ rp2040SramSize.toNat) (sys : Rp2040System) :
    Loads sys content where
  result chunks cut := by
    rw [elfLoaded sys cut fits]
    exact ⟨fun _ => fits, fun _ => rfl⟩
  codes chunks cut := by
    rw [elfLoaded sys cut fits]
    exact .inl rfl
  loaded chunks cut _ := by
    rw [elfLoaded sys cut fits]
    exact ⟨_, _, rfl, fun _ inside => startWithInside sys.sram inside,
      fun _ behind => startWithBehind sys.sram behind, startedCores sys⟩
  refused chunks cut minus := by
    rw [elfLoaded sys cut fits] at minus
    cases minus
  cuts chunks others cut otherCut := by
    rw [elfLoaded sys cut fits, elfLoaded sys otherCut fits]

theorem heldLoads {sys : Rp2040System} {content : List UInt8} (tooLong : rp2040SramSize.toNat < content.length)
    (held : Held sys content) : Loads sys content where
  result chunks cut := by
    rw [heldRefused cut tooLong held]
    refine ⟨fun zero => ?_, fun fits => ?_⟩
    · cases zero
    · omega
  codes chunks cut := by
    rw [heldRefused cut tooLong held]
    exact .inr rfl
  loaded chunks cut zero := by
    rw [heldRefused cut tooLong held] at zero
    cases zero
  refused chunks cut _ := by rw [heldRefused cut tooLong held]
  cuts chunks others cut otherCut := by rw [heldRefused cut tooLong held, heldRefused otherCut tooLong held]

/-- A file is loaded whole or not at all exactly when it fits, or when what would be left of it is there already. -/
theorem loadsWhole (sys : Rp2040System) (content : List UInt8) :
    Loads sys content ↔ content.length ≤ rp2040SramSize.toNat ∨ Held sys content := by
  by_cases fits : content.length ≤ rp2040SramSize.toNat
  · exact ⟨fun _ => .inl fits, fun _ => fitsLoads fits sys⟩
  · have tooLong := Nat.lt_of_not_le fits
    exact ⟨fun loads => .inr (loadsHeld tooLong loads),
      fun whole => heldLoads tooLong (whole.resolve_left fits)⟩

theorem refusedStart {sys : Rp2040System} {content : List UInt8} {chunks : List (List UInt8)}
    (cut : Cut content chunks) (tooLong : rp2040SramSize.toNat < content.length) :
    (rp2040LoadElf sys (some chunks)).1 = -1 ∧
      some ((rp2040LoadElf sys (some chunks)).2.sram.data 0) = content[0]? := by
  obtain ⟨kept, chunk, held, first, fits, chunkOver, load⟩ := elfRefused sys cut tooLong
  have size : rp2040SramSize.toNat = 272384 := rfl
  have short := (cut.2 chunk held).2
  have some_ : 0 < kept.length := by
    rw [List.length_append] at chunkOver
    omega
  rw [load]
  exact ⟨rfl, (startWithInside sys.sram some_).trans
    ((List.getElem?_eq_getElem some_).trans (List.prefix_iff_getElem?.mp first 0 some_).symm)⟩

-- One byte more than the SRAM holds, in full buffers.
theorem oversizedLeft : ¬ Loads (rp2040Create nopBoard) (List.replicate 272385 0xAB) ∧
    Cut (List.replicate 272385 0xAB) (List.replicate 66 (List.replicate 4096 0xAB) ++ [List.replicate 2049 0xAB]) ∧
    (rp2040LoadElf (rp2040Create nopBoard)
      (some (List.replicate 66 (List.replicate 4096 0xAB) ++ [List.replicate 2049 0xAB]))).1 = -1 ∧
    (rp2040LoadElf (rp2040Create nopBoard)
      (some (List.replicate 66 (List.replicate 4096 0xAB) ++ [List.replicate 2049 0xAB]))).2.sram.data 0 = 0xAB ∧
    (rp2040Create nopBoard).sram.data 0 = 0 := by
  have tooLong : rp2040SramSize.toNat < (List.replicate 272385 (0xAB : UInt8)).length := by
    rw [List.length_replicate]
    decide
  have cut : Cut (List.replicate 272385 0xAB)
      (List.replicate 66 (List.replicate 4096 0xAB) ++ [List.replicate 2049 0xAB]) := by
    refine ⟨?_, fun chunk held => ?_⟩
    · rw [List.flatten_append, List.flatten_replicate_replicate, List.flatten_singleton,
        List.replicate_append_replicate]
    · rw [List.mem_append, List.mem_replicate, List.mem_singleton] at held
      obtain ⟨-, rfl⟩ | rfl := held
      · exact ⟨List.replicate_succ_ne_nil, by rw [List.length_replicate]⟩
      · exact ⟨List.replicate_succ_ne_nil, by rw [List.length_replicate]; omega⟩
  have first : (List.replicate 272385 (0xAB : UInt8))[0]? = some 0xAB := List.getElem?_replicate_of_lt (by decide)
  obtain ⟨refused, left⟩ := @refusedStart (rp2040Create nopBoard) _ _ cut tooLong
  rw [first] at left
  refine ⟨fun loads => ?_, cut, refused, Option.some.inj left, rfl⟩
  have held := loadsHeld tooLong loads 0 (by decide)
  rw [first] at held
  cases held

end BitN.ElfLoading
