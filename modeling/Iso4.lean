import Iso4.Lib.Execution
import Iso4.Lib.Program
import Iso4.Lib.MinHeap
import Iso4.Policy
import Iso4.Registry
import Iso4.Ledger
import Iso4.Types
import Iso4.Guard
import Iso4.CpuLimit
import Iso4.Timers
import Iso4.Run
import Iso4.Core
import Iso4.Turns
import Iso4.InstanceLoop
import Iso4.Frame
import Iso4.Guest
import Iso4.Effects
import Iso4.TurnCode
import Iso4.Custody
import Iso4.Deadlines
import Iso4.Settlement
import Iso4.Lib.Wire
import Iso4.Outbox
import Iso4.OutBodies
import Iso4.OutDrive
import Iso4.InBodies
import Iso4.InCredit
import Iso4.FetchRules
import Iso4.FetchRedirect
import Iso4.Payloads
import Iso4.PayloadRoundTrip
import Iso4.StreamSources
import Iso4.OutboundStreams
import Iso4.Retirement
import Iso4.SlotPool
import Iso4.Connections
import Iso4.Lib.Codec
import Iso4.RuntimePayloads
import Iso4.RuntimeRoundTrip
import Iso4.Lib.Cursor
import Iso4.PayloadCursors
import Iso4.StrictPayloads
import Iso4.Framing
import Iso4.FrameAgreement
import Iso4.Lib.KeyTree
import Iso4.Imports
import Iso4.ImportCalls
import Iso4.Session
import Iso4.SessionTable
import Iso4.SessionRouting
import Iso4.Lib.Cyclic
import Iso4.RunIds
import Iso4.RouterSettles
import Iso4.RunIdReuse
import Iso4.PrefixRebinds
import Iso4.ImportRebinds
import Iso4.RebindAgreement
import Iso4.GlobalRebinds
import Iso4.PrefixStore
import Iso4.PrefixLife
import Iso4.Pressure
import Iso4.Shedding
import Iso4.Reuse
import Iso4.PrefixEntries
import Iso4.FetchDecision
import Iso4.Lib.JsNumber
import Iso4.ReservedIp
import Iso4.ReservedForms
import Iso4.ReservedCheck
import Iso4.Lib.Graph
import Iso4.HostValues
import Iso4.Materialize
import Iso4.MaterializeCopy
import Iso4.Rehydrate
import Iso4.RehydrateWalk
import Iso4.RehydrateRun
import Iso4.HostFields
import Iso4.HostGraphs
import Iso4.HostBeside
import Iso4.BesideInstance
import Iso4.FrameTypes
import Iso4.TimerHistory
import Iso4.TimerMemory
import Iso4.TimerClocks
import Iso4.TimerTurns
import Iso4.Waiters
import Iso4.BridgeRecords
import Iso4.Lib.Counts
import Iso4.CompletionDelivery
import Iso4.Console
import Iso4.Lib.Spans
import Iso4.WallClock
import Iso4.Lib.Tally
import Iso4.OneShotBodies
import Iso4.TextRoundTrip
import Iso4.HeaderLists
import Iso4.LinkedParams
import Iso4.ErrorTexts
import Iso4.ArgumentHoles
import Iso4.BodyDrain
import Iso4.TeeStreams
import Iso4.FetchTypes
import Iso4.HostReading
import Iso4.BrandScan
import Iso4.ArrivalOrder
import Iso4.PrefixAnswers
import Iso4.BridgeProgress
import Iso4.AsyncContext
import Iso4.LinkDelivery
import Iso4.BodyFlow
import Iso4.ModuleLinks
import Iso4.ModuleText
import Iso4.Snapshot
