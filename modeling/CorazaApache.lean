import CorazaApache.Apr.Brigade
import CorazaApache.Base.Arena
import CorazaApache.Base.CString
import CorazaApache.Base.Custody
import CorazaApache.Base.Feed
import CorazaApache.Base.Framing
import CorazaApache.Base.Gate
import CorazaApache.Base.Mutex
import CorazaApache.Base.Override
import CorazaApache.Base.Part
import CorazaApache.Base.Pools
import CorazaApache.Base.Prog
import CorazaApache.Base.Recorded
import CorazaApache.Base.Registers
import CorazaApache.Base.Run
import CorazaApache.Base.Text
import CorazaApache.Base.Trace
import CorazaApache.Config.BuildCalls
import CorazaApache.Config.CheckConfig
import CorazaApache.Config.ChildExit
import CorazaApache.Config.ChildInit
import CorazaApache.Config.ChildLife
import CorazaApache.Config.DirConf
import CorazaApache.Config.History
import CorazaApache.Config.Holders
import CorazaApache.Config.Isolation
import CorazaApache.Config.Lifetimes
import CorazaApache.Config.Loading
import CorazaApache.Config.LockSteps
import CorazaApache.Config.MergeAlgebra
import CorazaApache.Config.Pointers
import CorazaApache.Config.Process
import CorazaApache.Config.Records
import CorazaApache.Config.Rules
import CorazaApache.Config.Scan
import CorazaApache.Config.ScanChunks
import CorazaApache.Config.ScanReport
import CorazaApache.Config.ScanRun
import CorazaApache.Config.ScanStep
import CorazaApache.Config.Startup
import CorazaApache.Config.StartupCoherence
import CorazaApache.Config.StartupHolders
import CorazaApache.Config.ThreadBuilds
import CorazaApache.Config.ThreadProgress
import CorazaApache.Config.Threads
import CorazaApache.Config.VirtualHosts
import CorazaApache.Config.Waf
import CorazaApache.Config.WafCache
import CorazaApache.Dl.Open
import CorazaApache.Http.Atomic
import CorazaApache.Http.AuditLog
import CorazaApache.Http.BodyIn
import CorazaApache.Http.ChainOrder
import CorazaApache.Http.Conservation
import CorazaApache.Http.Exchange
import CorazaApache.Http.FailClosed
import CorazaApache.Http.FilterOrder
import CorazaApache.Http.FilterOut
import CorazaApache.Http.FilterStep
import CorazaApache.Http.Frame
import CorazaApache.Http.HandlerIo
import CorazaApache.Http.HeaderSets
import CorazaApache.Http.Headers
import CorazaApache.Http.HookOrder
import CorazaApache.Http.Intervention
import CorazaApache.Http.Outcome
import CorazaApache.Http.Packing
import CorazaApache.Http.Phase1
import CorazaApache.Http.PhaseFour
import CorazaApache.Http.Protocol
import CorazaApache.Http.ProtocolRun
import CorazaApache.Http.Redirect
import CorazaApache.Http.RedirectOut
import CorazaApache.Http.Refused
import CorazaApache.Http.RefusedChain
import CorazaApache.Http.Release
import CorazaApache.Http.Replay
import CorazaApache.Http.Response
import CorazaApache.Http.ResponseRun
import CorazaApache.Http.Transparency
