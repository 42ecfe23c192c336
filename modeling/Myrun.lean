import Myrun.Text
import Myrun.Error
import Myrun.Float64
import Myrun.Json
import Myrun.JsonRoundTrip
import Myrun.JsonGrammar
import Myrun.JsonNumerals
import Myrun.Address
import Myrun.Capability
import Myrun.Config
import Myrun.ConfigValidate
import Myrun.ConfigRoundTrip
import Myrun.Cli
import Myrun.CliArguments
import Myrun.Ipc
import Myrun.Ipam
import Myrun.IpamHistory
import Myrun.Interleaving
import Myrun.RuleText
import Myrun.Host
import Myrun.Store
import Myrun.Cgroup
import Myrun.PacketFilter
import Myrun.RuleListing
import Myrun.RuleCleanup
import Myrun.PrintedLines
import Myrun.FilterRestore
import Myrun.Network
import Myrun.Supervisor
import Myrun.Lifecycle
import Myrun.Runtime
import Myrun.Discipline
import Myrun.Conduct
import Myrun.ExitRecord
import Myrun.Init
import Myrun.Handshake
import Myrun.HandshakeRuns
import Myrun.Creation
import Myrun.Records
import Myrun.IpamExact
import Myrun.IpamUsable
import Myrun.FileTree
import Myrun.Resolve
import Myrun.CreationFailure
import Myrun.ConfigSpellings
import Myrun.Inheritance
import Myrun.Toml
import Myrun.TomlScan
import Myrun.TomlTotal
import Myrun.TomlGrammar
import Myrun.TomlScalars
import Myrun.TomlRendering
import Myrun.AttributeTree
import Myrun.ClassicBpf
import Myrun.Credentials
import Myrun.ExitChain
import Myrun.Interference
import Myrun.LexicalPath
import Myrun.LogFollow
import Myrun.Privileges
import Myrun.Volumes
import Myrun.FlagPrecedence
import Myrun.InlineValues
import Myrun.Binary64
import Myrun.CgroupLimits
import Myrun.LimitsEnforced
import Myrun.RecordRuns
import Myrun.Calendar
import Myrun.DefaultHostname
import Myrun.ProcessStat
import Myrun.VethNames
import Myrun.MountInfo
import Myrun.LockCustody
import Myrun.SingleLaunch
import Myrun.Cleanup
import Myrun.Reclaim
import Myrun.Rollback
import Myrun.Interpretation
import Myrun.Supervision
import Myrun.SupervisionRuns
import Myrun.MountTable
import Myrun.RootSetup
import Myrun.RootRuns
import Myrun.NetlinkReplies
import Myrun.NetlinkExchange
import Myrun.LinkDump
