import GithubAgent.Queue.Loss
import GithubAgent.Queue.SingleHand
import GithubAgent.Queue.Terminal
import GithubAgent.Queue.Backup
import GithubAgent.Lock.WorktreeLock
import GithubAgent.Lock.Exclusion
import GithubAgent.Lock.Interrupt
import GithubAgent.Sync.RepoSync
import GithubAgent.Sync.Waiting
import GithubAgent.Base.Lists
import GithubAgent.Indexing.Embedding
import GithubAgent.Indexing.Attach
import GithubAgent.Shared.Payload
import GithubAgent.Webhook.Engine
import GithubAgent.Webhook.Extractor
import GithubAgent.Webhook.Handler
import GithubAgent.Webhook.Routing
import GithubAgent.Webhook.Conversation
import GithubAgent.Base.Table
import GithubAgent.Indexing.CodeGraph
import GithubAgent.Indexing.IndexJob
import GithubAgent.Indexing.FullIndex
import GithubAgent.Indexing.Rebuild
import GithubAgent.Session.Store
import GithubAgent.Session.TurnLimit
import GithubAgent.Session.Flags
import GithubAgent.Base.Strings
import GithubAgent.Worktree.Refs
import GithubAgent.Worktree.Checkout
import GithubAgent.Queue.Token
import GithubAgent.Base.Directories
import GithubAgent.Worktree.Orphans
import GithubAgent.Base.Coroutine
import GithubAgent.Executor.Teardown
import GithubAgent.Indexing.Embedded
import GithubAgent.Lock.Handover
import GithubAgent.Session.Inbox
import GithubAgent.Session.Delivery
import GithubAgent.Indexing.Verdict
import GithubAgent.Queue.DeadLetter
import GithubAgent.Shared.Conversation
import GithubAgent.Session.Records
import GithubAgent.Session.Complete
import GithubAgent.Session.Subscribers
import GithubAgent.Session.Lookup
import GithubAgent.Session.ClosedThread
import GithubAgent.Session.History
import GithubAgent.Session.Transcript
import GithubAgent.Base.Statements
import GithubAgent.Indexing.Database
import GithubAgent.Indexing.View
import GithubAgent.Indexing.CallParts
import GithubAgent.Indexing.Skip
import GithubAgent.Lock.Ownership
import GithubAgent.Base.AsyncLock
import GithubAgent.Base.Window
import GithubAgent.RateLimit.InMemory
import GithubAgent.RateLimit.Distributed
import GithubAgent.Base.Lines
import GithubAgent.Base.Utf8
import GithubAgent.Hook.NoLostUpdate
import GithubAgent.Hook.Parallel
import GithubAgent.Hook.Reader
import GithubAgent.Hook.Turns
import GithubAgent.Session.Fallback
import GithubAgent.Base.Escape
import GithubAgent.Webhook.Prompt
import GithubAgent.Executor.LastRun
import GithubAgent.Base.LastBy
import GithubAgent.Executor.PostJobs
import GithubAgent.Base.LazyCache
import GithubAgent.Indexing.Queries
import GithubAgent.Indexing.Caches
import GithubAgent.Base.Words
import GithubAgent.Executor.SystemPrompt
import GithubAgent.Executor.PromptContext
import GithubAgent.Executor.PromptPasses
import GithubAgent.Executor.PromptBudget
import GithubAgent.Base.Formattable
import GithubAgent.Webhook.Accepted
import GithubAgent.Worktree.Reuse
import GithubAgent.Worktree.ProjectDir
import GithubAgent.Worktree.BranchCleanup
import GithubAgent.Base.TextLines
import GithubAgent.Indexing.GitDiff
import GithubAgent.Indexing.DiffExact
import GithubAgent.Indexing.Ranges
import GithubAgent.Indexing.Extractor
import GithubAgent.Indexing.FileRelations
import GithubAgent.Base.Scan
import GithubAgent.Indexing.Attribution
import GithubAgent.Indexing.FromImports
import GithubAgent.Base.Distance
import GithubAgent.Indexing.Impact
import GithubAgent.Indexing.Flow
import GithubAgent.Base.FirstFit
import GithubAgent.Indexing.Pairing
import GithubAgent.Indexing.Tags
import GithubAgent.Indexing.RecordIds
import GithubAgent.Indexing.Chunker
import GithubAgent.Indexing.Context
import GithubAgent.Indexing.Coverage
import GithubAgent.Indexing.ImportResolver
import GithubAgent.Indexing.ImportTargets
import GithubAgent.Base.WordSearch
import GithubAgent.Indexing.TextSearch
import GithubAgent.Indexing.SearchEngines
import GithubAgent.Base.Greedy
import GithubAgent.Executor.Truncation
import GithubAgent.Indexing.RegexChunker
import GithubAgent.Session.ControlChannel
import GithubAgent.Setup.RunSetup
import GithubAgent.Shared.SurrealClient
import GithubAgent.Shared.ThreadHistory
import GithubAgent.Base.JsonDumps
import GithubAgent.Mcp.Server
import GithubAgent.Mcp.SummaryCache
import GithubAgent.Base.Attempt
import GithubAgent.Indexing.FileTree
import GithubAgent.Shared.TranscriptParser
import GithubAgent.Shared.TranscriptLines
import GithubAgent.Session.TranscriptLoader
import GithubAgent.Indexing.TreeFiles
import GithubAgent.Base.Disk
import GithubAgent.Base.DiskFiles
import GithubAgent.Mcp.FileSummary
import GithubAgent.Mcp.Memory
import GithubAgent.Mcp.MemoryIsolation
import GithubAgent.Mcp.MemoryNotes
import GithubAgent.Shared.GithubAuth
import GithubAgent.Base.PercentEncoding
import GithubAgent.Mcp.Proxy
import GithubAgent.Mcp.ProxyConfig
import GithubAgent.Base.EventStream
import GithubAgent.Mcp.ProxySessions
import GithubAgent.Mcp.ProxyRelay
import GithubAgent.Base.RankFusion
import GithubAgent.Mcp.HybridSearch
import GithubAgent.Base.Ledger
import GithubAgent.Queue.Requests
import GithubAgent.Base.Custody
import GithubAgent.Queue.RetryPool
import GithubAgent.Base.Simulation
import GithubAgent.Queue.Origin
import GithubAgent.Queue.Handoff
