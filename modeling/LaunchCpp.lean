import LaunchCpp.DependencyManager
import LaunchCpp.ExecuteProcess
import LaunchCpp.EscapedArguments
import LaunchCpp.ProcessSetup
import LaunchCpp.Yaml.Elements
import LaunchCpp.Yaml.Mappings
import LaunchCpp.Yaml.MappingReaders
import LaunchCpp.Yaml.SkippedLines
import LaunchCpp.Yaml.Total
import LaunchCpp.Yaml.Scalars
import LaunchCpp.Yaml.QuotedArrays
import LaunchCpp.Yaml.LineEndings
import LaunchCpp.Yaml.Tabs
import LaunchCpp.Yaml.WrittenSubstitutions
import LaunchCpp.ThreadPoolShutdown
import LaunchCpp.ThreadPoolProgress
import LaunchCpp.MultipleShutdowns
import LaunchCpp.ServiceShutdown
import LaunchCpp.HeartbeatChecksum
import LaunchCpp.WatchdogCallbacks
import LaunchCpp.WatchdogAlarms
import LaunchCpp.ProcessStat
import LaunchCpp.EventDispatcher
import LaunchCpp.EventQueueLocking
import LaunchCpp.FailedRuns
import LaunchCpp.LaunchConfigurations
import LaunchCpp.LaunchProgram
import LaunchCpp.StartupWaves
import LaunchCpp.RepeatedEntries
import LaunchCpp.ResolutionErrors
import LaunchCpp.ProcessQueries
import LaunchCpp.ExecutorHistory
import LaunchCpp.RegisteredNodes
import LaunchCpp.SharedWatchdog
import LaunchCpp.WatchdogThread
import LaunchCpp.Singleton
import LaunchCpp.RetryAttempts
import LaunchCpp.RetryDelays
import LaunchCpp.ResourceLimits
import LaunchCpp.SystemResources
import LaunchCpp.Yaml.ParsedValues
import LaunchCpp.Conditions
import LaunchCpp.SystemSubstitutions
import LaunchCpp.NodeCommand
import LaunchCpp.ChildOutput
