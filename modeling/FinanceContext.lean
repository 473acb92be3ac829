import FinanceContext.CrashLogic
import FinanceContext.Histories
import FinanceContext.Stages
import FinanceContext.JobMeta
import FinanceContext.Artifacts
import FinanceContext.SharedCache
import FinanceContext.PipelineRun
import FinanceContext.JobHistory
import FinanceContext.SessionStamps
import FinanceContext.SharedStamps
import FinanceContext.CrashRecovery
import FinanceContext.BusyRetries
import FinanceContext.JobProcesses
import FinanceContext.FailureFinal
import FinanceContext.Dictionaries
import FinanceContext.Addresses
import FinanceContext.Cells
import FinanceContext.LayoutModel
import FinanceContext.LayoutIndex
import FinanceContext.GraphLinks
import FinanceContext.CellPeriods
import FinanceContext.FormulaShape
import FinanceContext.Relations
import FinanceContext.RelationSources
import FinanceContext.SelectorRows
import FinanceContext.ContextModel
import FinanceContext.ContextRows
import FinanceContext.FlagKeys
import FinanceContext.ContextAxes
import FinanceContext.ContextBuild
import FinanceContext.CellSlices
import FinanceContext.FileBuild
import FinanceContext.Observations
import FinanceContext.ObservationPlaces
import FinanceContext.ObservationAlignment
import FinanceContext.EventStream
import FinanceContext.SessionLimit
import FinanceContext.JobTraces
import FinanceContext.Admission
import FinanceContext.TerminalEvents
import FinanceContext.Generations
import FinanceContext.PostAtomicity
import FinanceContext.LiveRuns
import FinanceContext.CellExpansion
import FinanceContext.FirstOccurrences
import FinanceContext.RowGroups
import FinanceContext.CellKeys
import FinanceContext.KeptEdges
import FinanceContext.HopReachability
import FinanceContext.ComponentLabels
import FinanceContext.NodeIds
import FinanceContext.RangeHops
import FinanceContext.GraphEdges
import FinanceContext.Cycles
import FinanceContext.CycleRecords
import FinanceContext.RangeExpansion
import FinanceContext.RangeCycles
import FinanceContext.RangeLags
import FinanceContext.RangeNodes
import FinanceContext.GenerationGuard
import FinanceContext.StrippedTexts
import FinanceContext.NodeCodecs
import FinanceContext.RemoteCalls
import FinanceContext.ObjectMirror
import FinanceContext.MarkerSoundness
import FinanceContext.KeyedSets
import FinanceContext.RangeTargets
import FinanceContext.RowAdjacency
import FinanceContext.RowNeighbours
import FinanceContext.TextLines
import FinanceContext.MarkdownRender
import FinanceContext.MarkdownStream
import FinanceContext.MarkdownAgreement
import FinanceContext.SheetReaders
import FinanceContext.SheetAgreement
import FinanceContext.OperatorParsing
import FinanceContext.FormulaScan
import FinanceContext.FormulaParse
import FinanceContext.FormulaTokens
import FinanceContext.FormulaEngine
import FinanceContext.FormulaWriting
import FinanceContext.FormulaReading
import FinanceContext.FormulaWords
import FinanceContext.FormulaReferences
import FinanceContext.FormulaScanning
import FinanceContext.FormulaReparsing
import FinanceContext.FormulaRoundTrip
import FinanceContext.MemoryBus
import FinanceContext.FormulaShift
import FinanceContext.DerivedScan
import FinanceContext.IntervalRuns
import FinanceContext.NestedGroups
import FinanceContext.UsageQueries
import FinanceContext.KnownNodes
import FinanceContext.SegmentTrees
import FinanceContext.CoverIndex
import FinanceContext.RangeCodec
import FinanceContext.HopExactness
import FinanceContext.OperatorGrouping
import FinanceContext.OperatorReading
import FinanceContext.FormulaOperators
import FinanceContext.ParentScans
import FinanceContext.RowParents
import FinanceContext.RowForest
import FinanceContext.EdgeEstimate
import FinanceContext.CalendarDays
import FinanceContext.PeriodKeys
import FinanceContext.PeriodShapes
import FinanceContext.PeriodCalendar
import FinanceContext.PeriodContinuation
import FinanceContext.CalendarLags
import FinanceContext.PeriodSpelling
import FinanceContext.PresenceRows
import FinanceContext.PresenceIndex
import FinanceContext.PresenceRoundTrip
import FinanceContext.RepeatedKeys
import FinanceContext.SharedAxes
import FinanceContext.SharedFlags
import FinanceContext.GraphIndex
import FinanceContext.IndexPaths
import FinanceContext.BreadthFirst
import FinanceContext.GraphTrace
import FinanceContext.TraceWalk
import FinanceContext.TraceVerdict
import FinanceContext.DirectReads
import FinanceContext.TraceExactness
import FinanceContext.DefinedNames
import FinanceContext.WorkbookTimelines
import FinanceContext.MeteredRuns
import FinanceContext.Ole2
import FinanceContext.DeliveryOrder
import FinanceContext.PipeRows
import FinanceContext.MarkdownTables
import FinanceContext.DocumentTables
import FinanceContext.JsonStream
import FinanceContext.TokenGaps
import FinanceContext.HeaderNormalization
import FinanceContext.HeaderFolding
import FinanceContext.HeaderFixpoint
import FinanceContext.Patterns
import FinanceContext.HeaderWords
import FinanceContext.CalendarMatch
import FinanceContext.HeaderClassification
import FinanceContext.HeaderWindows
import FinanceContext.HeaderIntegers
import FinanceContext.ClassificationShortcuts
import FinanceContext.ColumnLetters
import FinanceContext.SpanLists
import FinanceContext.LegacyCache
import FinanceContext.LegacyOverlay
import FinanceContext.Worklists
import FinanceContext.LayoutSources
import FinanceContext.LayoutImports
import FinanceContext.PatternFences
import FinanceContext.TokenSpans
import FinanceContext.LiteralSpans
import FinanceContext.FormulaClasses
import FinanceContext.ClassLiterals
import FinanceContext.LockedFiles
import FinanceContext.JsonUpdates
import FinanceContext.SlotTables
import FinanceContext.PackedCycles
import FinanceContext.GraphStream
import FinanceContext.StreamedGraph
import FinanceContext.QuotedWords
import FinanceContext.GraphFiles
import FinanceContext.GraphFileTexts
import FinanceContext.JsonReading
import FinanceContext.StoredJson
import FinanceContext.MetaDocuments
import FinanceContext.MetaUpdates
import FinanceContext.EmbeddedWorker
import FinanceContext.SpilledGroups
import FinanceContext.LayoutGroups
import FinanceContext.RowGroupFiles
