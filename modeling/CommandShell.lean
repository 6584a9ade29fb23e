import CommandShell.Main
import CommandShell.Proofs.EditorScreen
import CommandShell.Proofs.LineReading
import CommandShell.Proofs.Rendering
import CommandShell.Proofs.FileTree
import CommandShell.Proofs.HistoryFiles
import CommandShell.Proofs.NulPaths
import CommandShell.Proofs.Escape
import CommandShell.Proofs.Running
import CommandShell.Proofs.ReadLoop
import CommandShell.Proofs.LiveSession
import CommandShell.Proofs.HistoryText
import CommandShell.Proofs.HistoryReload
import CommandShell.Proofs.HistorySessions
import CommandShell.Proofs.PipelineSchedule
import CommandShell.Proofs.CompletedLine
import CommandShell.Proofs.PathWalk
import CommandShell.Proofs.ProgramLookup
import CommandShell.Proofs.ProgramStart
import CommandShell.Proofs.NameExtension
import CommandShell.Proofs.Spelling
import CommandShell.Proofs.NameVerdict
import CommandShell.Proofs.LineEffect
import CommandShell.Proofs.AcceptedLines
import CommandShell.Proofs.NameSet
import CommandShell.Proofs.StoredIndex
import CommandShell.Proofs.CompletionOutcome
import CommandShell.Proofs.KeyEffect
import CommandShell.Proofs.HistoryBrowsing
import CommandShell.Proofs.TerminalReading
import CommandShell.Proofs.EscapeSequences
import CommandShell.Proofs.CandidateListing
import CommandShell.Proofs.CopyCalls
import CommandShell.Proofs.WholeCopy
import CommandShell.Proofs.BarPieces
import CommandShell.Proofs.RedirectionGrammar
import CommandShell.Proofs.EarlyErrors
import CommandShell.Proofs.OutputRouting
import CommandShell.Proofs.InputLines
import CommandShell.Proofs.BareWords
import CommandShell.Proofs.CanonicalPath
import CommandShell.Proofs.EditorInvariant
import CommandShell.Proofs.EditZipper
