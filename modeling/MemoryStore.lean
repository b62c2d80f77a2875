import MemoryStore.ThreadGroup.ActiveForest
import MemoryStore.ThreadGroup.Redirects
import MemoryStore.ThreadGroup.OperatorRelations
import MemoryStore.ThreadGroup.OperatorMembers
import MemoryStore.ThreadGroup.Conservation
import MemoryStore.EmbeddingSpace.Convergence
import MemoryStore.Maintenance.Exclusive
import MemoryStore.Maintenance.RoundFlag
import MemoryStore.Media.Available
import MemoryStore.DataMigration.Fencing
import MemoryStore.Conversation.Homogeneous
import MemoryStore.Media.Coherent
import MemoryStore.PlainSource.PruneExact
import MemoryStore.DataMigration.Takeover
import MemoryStore.DataMigration.Resumable
import MemoryStore.ThreadGroup.Announced
import MemoryStore.ThreadGroup.MemberOwners
import MemoryStore.ThreadGroup.Preview
import MemoryStore.ThreadGroup.Forbidden
import MemoryStore.ThreadGroup.Selection
import MemoryStore.ThreadGroup.CycleCheck
import MemoryStore.ThreadGroup.Retract
import MemoryStore.ThreadGroup.KeyEncoding
import MemoryStore.ThreadGroup.Associations
import MemoryStore.EmbeddingIndex.ScanExact
import MemoryStore.EmbeddingSpace.StorageConverges
import MemoryStore.Lib.Upsert
import MemoryStore.Lib.BackLinks
import MemoryStore.Reflection.Chain
import MemoryStore.Maintenance.OwnFailures
import MemoryStore.EmbeddingSwitch.Guard
import MemoryStore.Lib.Chunks
import MemoryStore.MemorySearch.Count
import MemoryStore.MemorySearch.CountExact
import MemoryStore.Lib.FirstOfEach
import MemoryStore.MemorySearch.Fusion
import MemoryStore.MemorySearch.PerMemory
import MemoryStore.MemorySearch.Search
import MemoryStore.MemorySearch.SearchFills
import MemoryStore.Lib.Spans
import MemoryStore.MemorySearch.Highlight
import MemoryStore.MemorySearch.HighlightExact
import MemoryStore.AgentImport.RawPayload
import MemoryStore.AgentImport.RawPayloadBudgets
import MemoryStore.ThreadFilter.Rows
import MemoryStore.ThreadFilter.Resolve
import MemoryStore.ThreadFilter.Browse
import MemoryStore.ThreadFilter.LabelPages
import MemoryStore.Conversation.Roster
import MemoryStore.Conversation.Imported
import MemoryStore.Conversation.RosterWrites
import MemoryStore.Conversation.ImportRefines
import MemoryStore.Conversation.ImportCall
import MemoryStore.Lib.Delimited
import MemoryStore.Reflection.Keys
import MemoryStore.AgentImport.ExternalId
import MemoryStore.AgentImport.OpenCode.Discovery
import MemoryStore.Lib.ReadyOrder
import MemoryStore.AgentImport.OpenCode.Normalize
import MemoryStore.Lib.Closure
import MemoryStore.Conversation.Ancestors
import MemoryStore.Conversation.Reimport
import MemoryStore.Lib.PageWalk
import MemoryStore.Reflection.Filter
import MemoryStore.Reflection.Redispatch
import MemoryStore.Lib.Lockstep
import MemoryStore.Reflection.ScoreStats
import MemoryStore.Lib.Json
import MemoryStore.DataMigration.Catalog
import MemoryStore.Reflection.Message
import MemoryStore.Reflection.SearchDocument
import MemoryStore.Reflection.ReadBack
import MemoryStore.Lib.Components
import MemoryStore.DataMigration.CycleNodes
import MemoryStore.AgentImport.ClaudeCode.Transcript
import MemoryStore.AgentImport.ClaudeCode.Places
import MemoryStore.AgentImport.ClaudeCode.Narrowing
import MemoryStore.AgentImport.ClaudeCode.ReplyTree
import MemoryStore.ThreadGroup.SplitAgain
import MemoryStore.AgentImport.OpenCode.Narrowing
import MemoryStore.AgentImport.OpenCode.NormalizeExact
