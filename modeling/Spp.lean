import Spp.Lib.CString
import Spp.Lib.Arrays
import Spp.Lib.GuardedRun
import Spp.Vf.Types
import Spp.Vf.Tables
import Spp.Vf.DataPath
import Spp.Vf.CommandDec
import Spp.Vf.CommandProc
import Spp.Vf.DecodedCommand
import Spp.Vf.CommandSpec
import Spp.Vf.ComponentTable
import Spp.Vf.PortOwnership
import Spp.Vf.FailedCommand
import Spp.Lib.Handoff
import Spp.Vf.FlushWait
import Spp.Vf.TwoPhase
import Spp.Vf.ClassifierMac
import Spp.Vf.ClassifierUpdate
import Spp.Vf.TxBurst
import Spp.Mirror.MirrorProc
import Spp.Vf.ClassifierTables
import Spp.Vf.ClassifierRun
import Spp.Vf.WorkerPath
import Spp.Vf.WorkerPathInv
import Spp.Vf.WorkerPathSafe
import Spp.Vf.AbilityTable
import Spp.Vf.PortAbility
import Spp.Vf.AbilityFlush
import Spp.Vf.PortDevice
import Spp.Lib.VlanTag
import Spp.Vf.VlanFrame
import Spp.Vf.Multicast
import Spp.Vf.CommandGrammar
import Spp.Vf.DecoderCopies
import Spp.Vf.CommandConn
import Spp.Vf.Runtime
import Spp.Vf.CommandReply
import Spp.Vf.RuntimeStep
import Spp.Vf.OneReply
import Spp.Vf.ClassifierStop
import Spp.Nfv.Tables
import Spp.Nfv.ForwardTable
import Spp.Nfv.Forward
import Spp.Nfv.Statistics
import Spp.Ctl.SendCommand
import Spp.Ctl.Procs
import Spp.Lib.Python
import Spp.Ctl.WebApi
import Spp.Ctl.Validation
import Spp.Vf.TokenValues
import Spp.Vf.ClassifierEntry
import Spp.Vf.EntryRuns
import Spp.Mirror.MbufMemory
import Spp.Mirror.MirrorCopy
import Spp.Mirror.MirrorFaithful
import Spp.Lib.Json
import Spp.Vf.ReplyText
import Spp.Vf.ReplyJson
import Spp.Vf.ReplyRuns
import Spp.Vf.OwnData
import Spp.Vf.VlanExact
import Spp.Vf.MacParser
import Spp.Vf.ClassifierRule
import Spp.Pcap.Capture
import Spp.Pcap.Places
import Spp.Lib.Parties
import Spp.Pcap.StartUp
import Spp.Pcap.CaptureStop
import Spp.Pcap.Sessions
import Spp.Lib.Options
import Spp.Lib.CText
import Spp.Ctl.Launch
import Spp.Primary.ParseCommand
import Spp.Ctl.LaunchOptions
import Spp.Lib.PyText
import Spp.Ctl.VfShell
import Spp.Ctl.VfShellCommands
import Spp.Vf.NumericTokens
import Spp.Vf.PortDelete
import Spp.Vf.Retag
import Spp.Nfv.Rejected
import Spp.Nfv.Readd
import Spp.Lib.TokenList
import Spp.Primary.TokenBounds
import Spp.Lib.JsonText
import Spp.Primary.StatusReply
import Spp.Nfv.StatusReply
import Spp.Lib.Lifetimes
import Spp.Pcap.FileWriter
import Spp.Pcap.CaptureFiles
import Spp.Nfv.DeviceNames
import Spp.Primary.Args
import Spp.Ctl.Servers
import Spp.Vf.TableNames
import Spp.Vf.StringBuffer
import Spp.Ctl.Topology
import Spp.Pcap.Resources
import Spp.Lib.Double
import Spp.Vf.RingLatency
import Spp.Lib.NumberText
import Spp.Vf.DecoderDefined
import Spp.Ctl.ShellToVf
import Spp.Vf.LifeStop
import Spp.Vf.LifeServing
import Spp.Vf.Fabric
import Spp.Vf.RuntimeServe
import Spp.Vf.Configuration
import Spp.Vf.ConfiguredRuns
import Spp.Vf.PublishedState
import Spp.Vf.PublishedRuns
import Spp.Vf.PublishedProcess
import Spp.Vf.StatusFaithful
import Spp.Vf.TableFaithful
import Spp.Vf.InterfaceArrays
