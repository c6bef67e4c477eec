import BitN.Lib.Run
import BitN.Lib.Codes
import BitN.LexerPartition
import BitN.LexerLayout
import BitN.Relexing
import BitN.Numeral
import BitN.Grammar
import BitN.ParserTermination
import BitN.ParserPeripherals
import BitN.ParserFunctions
import BitN.ParserNumerals
import BitN.Printing
import BitN.Operators
import BitN.AcceptedDevices
import BitN.ResolutionRun
import BitN.ReturnTypes
import BitN.FunctionOrder
import BitN.SeparateChecking
import BitN.MaximalMunch
import BitN.ParserSettles
import BitN.ParserLanguage
import BitN.FilesTogether
import BitN.PeripheralLayout
import BitN.HeaderNames
import BitN.HeaderScope
import BitN.HeaderMeaning
import BitN.HeaderOutline
import BitN.DriverExit
import BitN.Interleaving
import BitN.InstructionFetch
import BitN.CheckerEffects
import BitN.BitSlices
import BitN.Lib.ScopedMaps
import BitN.ScopeMemory
import BitN.ScopeStack
import BitN.LexerPositions
import BitN.Lib.Texts
import BitN.CodegenWrite
import BitN.HeaderLines
import BitN.HeaderReading
import BitN.OutputPath
import BitN.BinaryLoading
import BitN.ParserLiterals
import BitN.ElfLoading
import BitN.Registers
import BitN.Debugging
import BitN.Lib.Words
import BitN.MemoryWords
import BitN.Lib.Lockstep
import BitN.Lib.Bags
import BitN.Stepping
import BitN.BreakpointSet
import BitN.RunCycles
import BitN.Transparency
import BitN.RunEnds
import BitN.Lib.Cells
import BitN.RegisterFile
import BitN.RiscvFile
import BitN.Linker
import BitN.LinkerScript
import BitN.Lib.Heap
import BitN.Lib.Routine
import BitN.AstMemory
import BitN.AstOwnership
import BitN.AstAllocation
import BitN.CheckerMemory
import BitN.CheckerOwnership
import BitN.LinkerMemory
import BitN.CheckerAgreement
import BitN.CheckerRelease
import BitN.ParserMemory
import BitN.ParserOwnership
import BitN.DriverMemory
import BitN.DriverRelease
import BitN.ProgramText
import BitN.Renaming
import BitN.Lib.Pairs
import BitN.Reformatting
