import BitN.DriverExit
import BitN.HeaderNames
import BitN.Lib.Texts

/-! The path of the header. The driver replaces what follows the last dot of the first 255
characters, wherever that dot stands, and does not look at what it gets. -/
namespace BitN.OutputPath

open DriverExit HeaderNames ParserRun Texts

def directory (path : CString) : CString := path.rdropWhile (· ≠ '/')

def component (path : CString) : CString := path.rtakeWhile (· ≠ '/')

def replaceExtension (name : CString) : CString :=
  if '.' ∈ name then beforeLast '.' name ++ ".h".toList else name ++ ".h".toList

def headerPath (path : CString) : CString := directory path ++ replaceExtension (component path)

/-- There is a header path that is another path and fits into the buffer with its terminator. -/
def Possible (path : CString) : Prop := headerPath path ≠ path ∧ (headerPath path).length + 1 ≤ 256
instance (path : CString) : Decidable (Possible path) := inferInstanceAs (Decidable (_ ∧ _))

structure Compiled (files : Files) (argv : List CString) (path : CString) (outcome : Outcome) : Prop where
  ran : ∃ fuel, driverMain files fuel argv = some outcome
  parsed : ∃ options program p, Parsed files argv options program p ∧ p.error = false ∧ options.doCodegen = true ∧
    options.inputFile = some path ∧ program.peripherals ≠ []

/-- In every run the header has its path, and where there is none no file is opened. -/
def Named (path : CString) : Prop := ∀ files argv outcome, Compiled files argv path outcome →
  (Possible path → .generating (headerPath path) ∈ outcome.messages ∧
    ∀ name text, outcome.header = some (name, text) → name = headerPath path) ∧
  (¬ Possible path → outcome.header = none)

/-! Header paths -/

theorem headerReplaced {stem extension : CString} (noDot : '.' ∉ extension) (noSlash : '/' ∉ extension) :
    headerPath (stem ++ '.' :: extension) = stem ++ ".h".toList := by
  have free : '/' ∉ '.' :: extension := by simp [noSlash]
  obtain ⟨front, back⟩ := lastExtend free stem
  unfold headerPath directory component replaceExtension
  rw [front, back, if_pos (by simp), beforeFound noDot, ← List.append_assoc, List.rdropWhile_append_rtakeWhile]

theorem headerAppended {path : CString} (noDot : '.' ∉ component path) : headerPath path = path ++ ".h".toList := by
  unfold headerPath replaceExtension
  rw [if_neg noDot, ← List.append_assoc]
  exact congrArg (· ++ _) List.rdropWhile_append_rtakeWhile

theorem extensionFound {path : CString} (dotted : '.' ∈ component path) :
    ∃ stem extension, path = stem ++ '.' :: extension ∧ '.' ∉ extension ∧ '/' ∉ extension := by
  obtain ⟨stem, extension, whole, noDot⟩ := lastExists dotted
  have noSlash : '/' ∉ component path := fun inside => absurd (List.mem_rtakeWhile_imp inside) (by decide)
  refine ⟨directory path ++ stem, extension, ?_, noDot, fun inside => noSlash ?_⟩
  · rw [List.append_assoc, ← whole]
    exact List.rdropWhile_append_rtakeWhile.symm
  · rw [whole]
    exact List.mem_append_right _ (List.mem_cons_of_mem _ inside)

/-! What the driver computes -/

theorem outputReplaced {options : Options} {stem extension : CString}
    (given : options.inputFile = some (stem ++ '.' :: extension)) (noDot : '.' ∉ extension) (short : stem.length ≤ 254) :
    outputFile options = stem ++ ".h".toList := by
  obtain ⟨room, rooms⟩ : ∃ room, 255 - stem.length = room + 1 := ⟨254 - stem.length, by omega⟩
  have buffer : (stem ++ '.' :: extension).take 255 = stem ++ '.' :: extension.take room := by
    rw [List.take_append, List.take_of_length_le (by omega), rooms, List.take_succ_cons]
  have free : '.' ∉ extension.take room := fun inside => noDot (List.mem_of_mem_take inside)
  have cut := beforeFound free stem
  unfold beforeLast List.rdropWhile at cut
  rw [List.dropLast_reverse] at cut
  unfold outputFile
  rw [given]
  dsimp only
  rw [buffer, if_pos (by simp), cut]

theorem outputAppended {options : Options} {path : CString} (given : options.inputFile = some path) (noDot : '.' ∉ path)
    (short : path.length ≤ 255) : outputFile options = path ++ ".h".toList := by
  unfold outputFile
  rw [given]
  dsimp only
  rw [List.take_of_length_le short, if_neg noDot]

theorem compiledOutcome {files : Files} {argv : List CString} {path : CString} {outcome : Outcome}
    (compiled : Compiled files argv path outcome) : ∃ options program, options.inputFile = some path ∧
      outcome = if files.writable (outputFile options) then
        ⟨0, [.parsed, .generating (outputFile options), .generated, .successful],
          some (outputFile options, (codegenGenerate codegenInit program).2.output)⟩
      else ⟨1, [.parsed, .generating (outputFile options), .initFailed], none⟩ := by
  obtain ⟨⟨fuel, ran⟩, options, program, p, ⟨arguments, source, loaded, parses⟩, clear, compile, given, some⟩ := compiled
  refine ⟨options, program, given, ?_⟩
  unfold driverMain at ran
  rw [arguments] at ran
  dsimp only at ran
  rw [loaded] at ran
  dsimp only at ran
  rcases parses' : parseSource fuel source with ⟨_ | program', p'⟩
  · rw [parses'] at ran
    cases ran
  · obtain ⟨rfl, rfl⟩ := parsesUnique parses ⟨fuel, parses'⟩
    rw [parses'] at ran
    dsimp only at ran
    rw [if_neg (by simp [clear])] at ran
    rw [← codeGenerated, ← Option.some.inj ran]
    unfold compileProgram
    rw [if_pos compile, if_pos (List.length_pos_iff.mpr some)]

theorem outputGiven {options options' : Options} (given : options.inputFile = options'.inputFile) :
    outputFile options = outputFile options' := by
  unfold outputFile
  rw [given]

/-! A run for every path -/

def openDisk : Files := ⟨fun _ => some spacedSource.text, fun _ => true⟩

theorem pathCompiled {path : CString} (isPath : path.headD '\x00' ≠ '-') : ∃ outcome output text,
    Compiled openDisk ["--compile".toList, path] path outcome ∧ outcome.header = some (output, text) ∧
      ∀ options : Options, options.inputFile = some path → output = outputFile options := by
  obtain ⟨options, same⟩ : ∃ options : Options,
      options = { defaultOptions with doCodegen := true, inputFile := some path } :=
    ⟨_, rfl⟩
  have given : options.inputFile = some path := by rw [same]
  have compile : options.doCodegen = true := by rw [same]
  have other : ∀ flag : CString, flag.headD '\x00' = '-' → path ≠ flag := fun flag dash equal => isPath (equal ▸ dash)
  have arguments : parseArguments defaultOptions ["--compile".toList, path] = .ok options := by
    rw [parseArguments, if_pos rfl, parseArguments, if_neg (other _ rfl), if_neg (other _ rfl), if_neg (other _ rfl),
      if_neg (other _ rfl), if_pos isPath, same]
    rfl
  have loaded : loadSource openDisk options = .ok (.ofBuffer spacedSource.text) := by
    unfold loadSource
    rw [given]
    rfl
  have parses : parseSource 3 (.ofBuffer spacedSource.text) =
      (some spacedProgram, (parseSource 3 (.ofBuffer spacedSource.text)).2) := Prod.ext rfl rfl
  have clear : (parseSource 3 (.ofBuffer spacedSource.text)).2.error = false := rfl
  have ran : driverMain openDisk 3 ["--compile".toList, path] = some (compileProgram openDisk options spacedProgram) := by
    unfold driverMain
    rw [arguments]
    dsimp only
    rw [loaded]
    dsimp only
    rw [parses]
    dsimp only
    rw [clear]
    rfl
  have peripherals : spacedProgram.peripherals ≠ [] := List.cons_ne_nil _ _
  have header : (compileProgram openDisk options spacedProgram).header =
      some (outputFile options, (codegenGenerate codegenInit spacedProgram).2.output) := by
    unfold compileProgram
    rw [if_pos compile, if_pos (List.length_pos_iff.mpr peripherals), codeGenerated]
    rfl
  have compiled : Compiled openDisk ["--compile".toList, path] path _ :=
    ⟨⟨3, ran⟩, options, spacedProgram, _, ⟨arguments, _, loaded, 3, parses⟩, clear, compile, given, peripherals⟩
  exact ⟨_, _, _, compiled, header, fun others given' => outputGiven (given.trans given'.symm)⟩

/-! The paths for which it goes well -/

def Replaceable (path : CString) : Prop :=
  ('.' ∉ path ∧ path.length ≤ 253) ∨ ∃ stem extension, path = stem ++ '.' :: extension ∧
    '.' ∉ extension ∧ '/' ∉ extension ∧ extension ≠ "h".toList ∧ stem.length ≤ 253

theorem replaceableNamed {path : CString} (replaceable : Replaceable path) :
    Possible path ∧ ∀ options : Options, options.inputFile = some path → outputFile options = headerPath path := by
  rcases replaceable with ⟨noDot, short⟩ | ⟨stem, extension, rfl, noDot, noSlash, other, short⟩
  · have inside : '.' ∉ component path := fun inside => noDot ((List.rtakeWhile_suffix _ _).subset inside)
    have appended := headerAppended inside
    refine ⟨⟨?_, ?_⟩, fun options given => ?_⟩
    · rw [appended]
      simp
    · rw [appended, List.length_append]
      change path.length + 2 + 1 ≤ 256
      omega
    · rw [outputAppended given noDot (by omega), appended]
  · have replaced := @headerReplaced stem extension noDot noSlash
    refine ⟨⟨?_, ?_⟩, fun options given => ?_⟩
    · rw [replaced]
      intro same
      have tails := List.append_cancel_left same
      exact other (List.cons.inj tails).2.symm
    · rw [replaced, List.length_append]
      change stem.length + 2 + 1 ≤ 256
      omega
    · rw [outputReplaced given noDot (by omega), replaced]

theorem namedReplaceable {path : CString} (possible : Possible path)
    (output : ∀ options : Options, options.inputFile = some path → outputFile options = headerPath path) :
    Replaceable path := by
  obtain ⟨other, fits⟩ := possible
  by_cases dotted : '.' ∈ component path
  · obtain ⟨stem, extension, rfl, noDot, noSlash⟩ := extensionFound dotted
    rw [headerReplaced noDot noSlash] at other fits
    refine .inr ⟨stem, extension, rfl, noDot, noSlash, fun same => other ?_, ?_⟩
    · rw [same]
      rfl
    · rw [List.length_append] at fits
      change stem.length + 2 + 1 ≤ 256 at fits
      omega
  · have appended := headerAppended dotted
    rw [appended] at fits
    rw [List.length_append] at fits
    change path.length + 2 + 1 ≤ 256 at fits
    refine .inl ⟨fun inside => ?_, by omega⟩
    obtain ⟨stem, extension, rfl, noDot⟩ := lastExists inside
    rw [List.length_append, List.length_cons] at fits
    have computed := output { defaultOptions with inputFile := some (stem ++ '.' :: extension) } rfl
    rw [outputReplaced rfl noDot (by omega), appended] at computed
    have longer := congrArg List.length computed
    simp only [List.length_append, List.length_cons] at longer
    omega

theorem namedOnly {path : CString} (isPath : path.headD '\x00' ≠ '-') (named : Named path) : Replaceable path := by
  obtain ⟨outcome, output, text, compiled, header, computed⟩ := pathCompiled isPath
  obtain ⟨good, refused⟩ := named _ _ _ compiled
  by_cases possible : Possible path
  · refine namedReplaceable possible fun options given => ?_
    rw [← computed options given]
    exact (good possible).2 output text header
  · rw [refused possible] at header
    cases header

/-- A path gets the header that belongs to it exactly when its last component has a dot, what follows
is not `h` and at most 253 characters stand before it, or when it has no dot at all and is no longer. -/
theorem outputNamed (path : CString) (isPath : path.headD '\x00' ≠ '-') : Named path ↔ Replaceable path := by
  constructor
  · exact namedOnly isPath
  · intro replaceable files argv outcome compiled
    obtain ⟨possible, output⟩ := replaceableNamed replaceable
    obtain ⟨options, program, given, rfl⟩ := compiledOutcome compiled
    rw [output options given]
    refine ⟨fun _ => ?_, fun not => absurd possible not⟩
    split
    · exact ⟨by simp, fun name text header => (congrArg Prod.fst (Option.some.inj header)).symm⟩
    · exact ⟨by simp, fun name text header => nomatch header⟩

theorem bitnNamed : Named "uart.bitn".toList :=
  (outputNamed "uart.bitn".toList (by decide)).mpr
    (.inr ⟨"uart".toList, "bitn".toList, by decide, by decide, by decide, by decide, by decide⟩)

/-- A dot of a directory is taken for the extension, a header is overwritten with its own header, and
the rest of a long path is lost behind the buffer. -/
theorem pathsMisnamed : ¬ Named "chips.v2/uart".toList ∧ ¬ Named "uart.h".toList ∧ ¬ Named (List.replicate 254 'a') := by
  refine ⟨fun named => ?_, fun named => ?_, fun named => ?_⟩
  · have output := (replaceableNamed (namedOnly (by decide) named)).2
      { defaultOptions with inputFile := some "chips.v2/uart".toList } rfl
    exact absurd output (by decide)
  · exact absurd (replaceableNamed (namedOnly (by decide) named)).1 (by decide)
  · exact absurd (replaceableNamed (namedOnly (by decide) named)).1 (by decide +kernel)

end BitN.OutputPath
