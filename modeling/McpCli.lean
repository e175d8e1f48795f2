import McpCli.Proofs.Bridge.Calls
import McpCli.Proofs.Daemon.Scan
import McpCli.Proofs.Daemon.IdleTracker
import McpCli.Proofs.Daemon.Serve
import McpCli.Proofs.Daemon.Patch
import McpCli.Proofs.Daemon.PatchSound
import McpCli.Proofs.Daemon.WriteRace
import McpCli.Proofs.Bridge.Delivery
import McpCli.Proofs.Daemon.Restart
import McpCli.Proofs.Daemon.History
import McpCli.Proofs.Daemon.Polling
import McpCli.Proofs.Daemon.WriteFaults
import McpCli.Proofs.Daemon.WriteEcho
import McpCli.Proofs.Daemon.ReadRace
import McpCli.Proofs.Daemon.TornRead
import McpCli.Proofs.Daemon.SearchRace
import McpCli.Proofs.Daemon.ScanFiles
import McpCli.Proofs.Daemon.ForEach
import McpCli.Proofs.Daemon.ParseCache
import McpCli.Proofs.Daemon.ParseCacheRoom
import McpCli.Proofs.Daemon.Connection
import McpCli.Proofs.Daemon.Pipe
import McpCli.Proofs.Daemon.Substitute
import McpCli.Proofs.Daemon.Paging
import McpCli.Proofs.Daemon.JobLog
import McpCli.Proofs.Daemon.JobPieces
import McpCli.Proofs.Daemon.JobLife
import McpCli.Proofs.Daemon.Outline
import McpCli.Proofs.Daemon.SkeletonTarget
import McpCli.Proofs.Daemon.StripNoise
import McpCli.Proofs.Daemon.SearchCacheLru
import McpCli.Proofs.Daemon.PoolRun
import McpCli.Proofs.Daemon.Limits
import McpCli.Proofs.Daemon.GitLog
import McpCli.Proofs.Daemon.Compact
import McpCli.Proofs.Daemon.Metrics
import McpCli.Proofs.Daemon.ToolRun
import McpCli.Proofs.Cli.CodexForms
import McpCli.Proofs.Daemon.WatchRun
import McpCli.Proofs.Daemon.Imports
import McpCli.Proofs.Daemon.ImportPaths
import McpCli.Proofs.Daemon.Dependencies
import McpCli.Proofs.Bridge.Mcp
import McpCli.Proofs.Protocol.Paths
import McpCli.Proofs.Daemon.PathRace
import McpCli.Proofs.Daemon.ReadAnswer
import McpCli.Proofs.Daemon.JobTable
import McpCli.Proofs.Daemon.SearchCompact
import McpCli.Proofs.Daemon.ToolOutput
import McpCli.Proofs.Bridge.Conversation
import McpCli.Proofs.Cli.ConfigFile
import McpCli.Proofs.Daemon.MetricsReport
import McpCli.Proofs.Daemon.GitStatus
import McpCli.Proofs.Daemon.GitDiff
import McpCli.Proofs.Bridge.Spawn
import McpCli.Proofs.Daemon.Signature
