import Drachma.Lib.Footprint
import Drachma.Lib.Handshake
import Drachma.Storage
import Drachma.Icap
import Drachma.Selector
import Drachma.Prc
import Drachma.RrController
import Drachma.Device
import Drachma.IcapWait
import Drachma.Simulation
import Drachma.HitPath
import Drachma.TransferDecision
import Drachma.TaskConservation
import Drachma.RequestHandshake
import Drachma.TransferExclusion
import Drachma.RegionLocality
import Drachma.OrderIndependence
import Drachma.HitDetection
import Drachma.MemoryCounter
import Drachma.BitstreamIdentity
import Drachma.TaskOrder
import Drachma.EmptyQueue
import Drachma.Capabilities
import Drachma.RegionChoice
import Drachma.BitstreamChoice
import Drachma.TaskExecution
import Drachma.FileHandler
import Drachma.Wallet
import Drachma.MemoryLoading
import Drachma.WalletLoading
import Drachma.ExecutionLatency
import Drachma.TransferLatency
import Drachma.IcapControl
import Drachma.RunningFlag
import Drachma.InstalledTask
import Drachma.TaskQueue
import Drachma.ExecutingSignal
import Drachma.VacantRegion
import Drachma.ApplicationFile
import Drachma.Lib.LinkedChain
import Drachma.MemoryHierarchy
import Drachma.BitstreamLibrary
import Drachma.BitstreamSizes
import Drachma.FileGrammar
import Drachma.WalletEdits
import Drachma.WalletLookup
import Drachma.RegionNumbers
import Drachma.StoreLookups
import Drachma.CacheReplacement
import Drachma.TraceToken
import Drachma.RankedSpeed
import Drachma.SimulationFate
import Drachma.TaskCounts
import Drachma.RegionLife
import Drachma.OneTransferEach
import Drachma.ColdStart
import Drachma.InstallTime
import Drachma.RunOrder
import Drachma.CommandLine
import Drachma.WalletStore
import Drachma.FixedPriority
import Drachma.ExecutionWindow
import Drachma.BlockedTasks
