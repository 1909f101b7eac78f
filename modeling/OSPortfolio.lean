import OSPortfolio.Lib.Run
import OSPortfolio.Ish.WaitLoop
import OSPortfolio.Ish.BuiltIn
import OSPortfolio.Ish.Env
import OSPortfolio.Ish.Pipeline
import OSPortfolio.Ish.JobHistory
import OSPortfolio.Ish.JobGroups
import OSPortfolio.Ish.ProcessCommands
import OSPortfolio.Lib.Linearizable
import OSPortfolio.Chubby.Service
import OSPortfolio.Ish.Words
import OSPortfolio.Chubby.JoinCluster
import OSPortfolio.Chubby.Replicas
import OSPortfolio.Ish.ChangeDir
import OSPortfolio.Ish.JobNumbers
import OSPortfolio.Ish.PidReuse
import OSPortfolio.Ish.Announcements
import OSPortfolio.Ish.Alias
import OSPortfolio.Ish.Substitution
import OSPortfolio.Ish.BuiltLine
import OSPortfolio.Ish.Ambiguity
import OSPortfolio.Ish.StderrPipe
import OSPortfolio.Ish.Arguments
import OSPortfolio.Ish.FixPath
import OSPortfolio.Ish.Quoting
import OSPortfolio.Ish.PrintCommand
import OSPortfolio.Ish.LineRecovery
import OSPortfolio.Ish.LongWords
import OSPortfolio.Ish.LoopEnd
import OSPortfolio.Ish.JobStatus
import OSPortfolio.Chubby.Routes
import OSPortfolio.Ish.ExecPath
import OSPortfolio.Ish.Composed
import OSPortfolio.Ish.JobArgument
import OSPortfolio.Ish.OutputFile
import OSPortfolio.Ish.UpdatePath
import OSPortfolio.Ish.EscapedCopy
import OSPortfolio.Ish.LexYy
import OSPortfolio.Ish.FrontEnd
import OSPortfolio.Ish.CommandHeap
import OSPortfolio.Ish.SessionHeap
import OSPortfolio.Chubby.Cluster
import OSPortfolio.Chubby.ConcurrentJoins
import OSPortfolio.Ish.TerminalOwner
import OSPortfolio.Ish.JobMemory
