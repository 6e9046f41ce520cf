import BoostProcess.V2.Posix.FailurePath
import BoostProcess.V2.Posix.Argv
import BoostProcess.V2.Posix.ParallelBinding
import BoostProcess.V2.Stdio.Ownership
import BoostProcess.V2.Process.StalePid
import BoostProcess.V2.Process.Provenance
import BoostProcess.V2.Process.Owner
import BoostProcess.V2.Process.Embedding
import BoostProcess.V2.Detail.Utf8RoundTrip
import BoostProcess.V2.Environment.Block
import BoostProcess.V2.Ext.Env
import BoostProcess.V2.Ext.Cmd
import BoostProcess.V2.Windows.CommandLine
import BoostProcess.V2.Environment.Hash
import BoostProcess.V2.Posix.LifetimePipe
import BoostProcess.V1.Posix.PipeBinding
import BoostProcess.V1.Posix.ErrorChannel
import BoostProcess.V1.Posix.CommandLine
import BoostProcess.V1.PipeBuf.Output
import BoostProcess.V1.PipeBuf.Input
import BoostProcess.V1.Environment
import BoostProcess.V1.Child
import BoostProcess.V1.Posix.SigchldWakeup
import BoostProcess.V1.Posix.LaunchOutcome
import BoostProcess.V1.Posix.PipeOwnership
import BoostProcess.V2.Environment.FindExecutable
import BoostProcess.V2.Environment.GetVariable
import BoostProcess.V2.Detail.Utf8Errors
import BoostProcess.V1.Windows.Environment
import BoostProcess.V2.Posix.CloseAll
import BoostProcess.V2.Pid.Linux
import BoostProcess.V2.Detail.Utf8Bounds
import BoostProcess.V2.Windows.EscapeCalls
import BoostProcess.V2.CStringOrder
import BoostProcess.V1.PipeBuf.Flush
import BoostProcess.V1.PipeBuf.Wide
import BoostProcess.V1.Posix.ErrorLoops
import BoostProcess.V1.Posix.CmdStyle
import BoostProcess.V1.Posix.ArgRanges
import BoostProcess.V1.Posix.CmdShell
import BoostProcess.V1.Posix.CmdSetter
import BoostProcess.V1.Windows.BuildArgs
import BoostProcess.V1.Posix.EnvironmentImpl
import BoostProcess.V1.Windows.EnvironmentReaders
import BoostProcess.V1.ListVariables
import BoostProcess.V1.Locale
import BoostProcess.V1.Posix.WaitGroup
import BoostProcess.V1.Posix.WaitUntil
import BoostProcess.V1.Posix.WaitGroupUntil
import BoostProcess.V1.Posix.GroupObjects
import BoostProcess.V1.Posix.LimitHandles
import BoostProcess.V1.Posix.SigInit
import BoostProcess.V1.Posix.VforkLaunch
import BoostProcess.V1.Posix.ChildObjects
import BoostProcess.V1.Posix.AsyncOut
import BoostProcess.V1.Posix.AsyncIn
import BoostProcess.V2.Windows.BasicProcess
import BoostProcess.V1.Windows.WaitGroup
import BoostProcess.V1.Posix.ExeBuilder
import BoostProcess.V1.Posix.SigchldDelivery
import BoostProcess.V1.Posix.AsyncSystem
