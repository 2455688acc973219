import SimbusNoc.Library.Ensures
import SimbusNoc.Library.Histogram
import SimbusNoc.Library.Hysteresis
import SimbusNoc.Library.Lanes
import SimbusNoc.Library.PartialWalk
import SimbusNoc.Library.RaceFree
import SimbusNoc.Library.Regions
import SimbusNoc.Library.RingWalk
import SimbusNoc.Library.RoundRobin
import SimbusNoc.Library.Sequential
import SimbusNoc.Library.Stages
import SimbusNoc.Library.Threads
import SimbusNoc.Library.Tiling
import SimbusNoc.Library.Variant
import SimbusNoc.Library.WordArithmetic
import SimbusNoc.Manycore.AccountTurn
import SimbusNoc.Manycore.Arbitration
import SimbusNoc.Manycore.ArchSem
import SimbusNoc.Manycore.AtomicCore
import SimbusNoc.Manycore.BaseInstructions
import SimbusNoc.Manycore.BusLoad
import SimbusNoc.Manycore.ByteMemory
import SimbusNoc.Manycore.Canonical
import SimbusNoc.Manycore.Channel
import SimbusNoc.Manycore.Codec
import SimbusNoc.Manycore.Consistency
import SimbusNoc.Manycore.ControlWindow
import SimbusNoc.Manycore.ControllerProgress
import SimbusNoc.Manycore.ControllerTurn
import SimbusNoc.Manycore.CoreRuns
import SimbusNoc.Manycore.CycleAccounting
import SimbusNoc.Manycore.Decode
import SimbusNoc.Manycore.DecodeExact
import SimbusNoc.Manycore.DecodeFacts
import SimbusNoc.Manycore.DecodeTables
import SimbusNoc.Manycore.DecodeVectors
import SimbusNoc.Manycore.ExecOpv
import SimbusNoc.Manycore.FenceDrains
import SimbusNoc.Manycore.FinishedDrained
import SimbusNoc.Manycore.HartAccount
import SimbusNoc.Manycore.HartCourse
import SimbusNoc.Manycore.HartMoves
import SimbusNoc.Manycore.HartPorts
import SimbusNoc.Manycore.HartProgress
import SimbusNoc.Manycore.HartResponse
import SimbusNoc.Manycore.HartStates
import SimbusNoc.Manycore.HartTurn
import SimbusNoc.Manycore.HartView
import SimbusNoc.Manycore.HartWork
import SimbusNoc.Manycore.InstructionSet
import SimbusNoc.Manycore.IntegerUnit
import SimbusNoc.Manycore.Interconnect
import SimbusNoc.Manycore.InterconnectLaws
import SimbusNoc.Manycore.Invariant
import SimbusNoc.Manycore.Jumps
import SimbusNoc.Manycore.Layout
import SimbusNoc.Manycore.Memory
import SimbusNoc.Manycore.MemoryRefinement
import SimbusNoc.Manycore.MmioBusAdapter
import SimbusNoc.Manycore.MmioCommands
import SimbusNoc.Manycore.MmioStore
import SimbusNoc.Manycore.NocChannel
import SimbusNoc.Manycore.Percentile
import SimbusNoc.Manycore.PreciseFaults
import SimbusNoc.Manycore.ProgramConsistency
import SimbusNoc.Manycore.ProgramRuns
import SimbusNoc.Manycore.ProgramView
import SimbusNoc.Manycore.Protocol
import SimbusNoc.Manycore.RaceFreePrograms
import SimbusNoc.Manycore.ResponseOwnership
import SimbusNoc.Manycore.Rv64AtomicCore
import SimbusNoc.Manycore.Rv64Layout
import SimbusNoc.Manycore.Rv64ManycoreSystem
import SimbusNoc.Manycore.Rv64Program
import SimbusNoc.Manycore.Rv64Safety
import SimbusNoc.Manycore.SafePrograms
import SimbusNoc.Manycore.Script
import SimbusNoc.Manycore.ScriptSafety
import SimbusNoc.Manycore.Service
import SimbusNoc.Manycore.SharedBus
import SimbusNoc.Manycore.SharedBusChannel
import SimbusNoc.Manycore.SharedBusLedger
import SimbusNoc.Manycore.SharedBusStatistics
import SimbusNoc.Manycore.System
import SimbusNoc.Manycore.SystemAccount
import SimbusNoc.Manycore.SystemProgress
import SimbusNoc.Manycore.Termination
import SimbusNoc.Manycore.TimingTable
import SimbusNoc.Manycore.Traffic
import SimbusNoc.Manycore.Unsupported
import SimbusNoc.Manycore.VectorAccess
import SimbusNoc.Manycore.VectorArithmetic
import SimbusNoc.Manycore.VectorBlocks
import SimbusNoc.Manycore.VectorDescriptors
import SimbusNoc.Manycore.VectorFile
import SimbusNoc.Manycore.VectorResults
import SimbusNoc.Manycore.VectorRoom
import SimbusNoc.Manycore.VectorSetting
import SimbusNoc.Manycore.VectorTransactions
import SimbusNoc.Manycore.WindowClear
import SimbusNoc.Noc.Admission
import SimbusNoc.Noc.Arrival
import SimbusNoc.Noc.Bus
import SimbusNoc.Noc.Common
import SimbusNoc.Noc.Congestion
import SimbusNoc.Noc.Credits
import SimbusNoc.Noc.Delivery
import SimbusNoc.Noc.Drain
import SimbusNoc.Noc.Endpoints
import SimbusNoc.Noc.Fairness
import SimbusNoc.Noc.Gridlock
import SimbusNoc.Noc.IdReuse
import SimbusNoc.Noc.IterationOrder
import SimbusNoc.Noc.Latency
import SimbusNoc.Noc.LoneMessage
import SimbusNoc.Noc.Mesh
import SimbusNoc.Noc.MeshRoutes
import SimbusNoc.Noc.MessageLatency
import SimbusNoc.Noc.Messages
import SimbusNoc.Noc.Moves
import SimbusNoc.Noc.OneFlow
import SimbusNoc.Noc.OneReceiver
import SimbusNoc.Noc.PacketCount
import SimbusNoc.Noc.Progress
import SimbusNoc.Noc.Reachable
import SimbusNoc.Noc.Reliability
import SimbusNoc.Noc.RouteGeneration
import SimbusNoc.Noc.RouteTable
import SimbusNoc.Noc.RouteValidation
import SimbusNoc.Noc.Routes
import SimbusNoc.Noc.Runs
import SimbusNoc.Noc.SingleRing
import SimbusNoc.Noc.Tick
import SimbusNoc.Noc.TickSpec
import SimbusNoc.Noc.TickTurns
import SimbusNoc.Noc.Transfer
import SimbusNoc.Noc.Transport
import SimbusNoc.Noc.WellFormed
