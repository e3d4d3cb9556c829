import RagflowAgent.Agent.Domain.Credentials
import RagflowAgent.Agent.Guarantees.AnswerStatus
import RagflowAgent.Agent.Guarantees.ApprovalExecution
import RagflowAgent.Agent.Guarantees.ApprovalViews
import RagflowAgent.Agent.Guarantees.BudgetSpend
import RagflowAgent.Agent.Guarantees.CachedEvidence
import RagflowAgent.Agent.Guarantees.CheckpointIsolation
import RagflowAgent.Agent.Guarantees.CitedEvidence
import RagflowAgent.Agent.Guarantees.EventSequences
import RagflowAgent.Agent.Guarantees.MemoryConsent
import RagflowAgent.Agent.Guarantees.Redaction
import RagflowAgent.Agent.Guarantees.ResumedApproval
import RagflowAgent.Agent.Guarantees.SourcedEvidence
import RagflowAgent.Agent.Guarantees.SqlScope
import RagflowAgent.Agent.Guarantees.StoredOutcome
import RagflowAgent.Agent.Guarantees.SufficientEvidence
import RagflowAgent.Agent.Guarantees.Termination
import RagflowAgent.Files.Disk
import RagflowAgent.Files.Walk
import RagflowAgent.Grouping
import RagflowAgent.Knowledge.Advanced.ParentChild
import RagflowAgent.Knowledge.Advanced.Raptor
import RagflowAgent.Knowledge.Advanced.Retriever
import RagflowAgent.Knowledge.Advanced.Temporal
import RagflowAgent.Knowledge.Application.Batch
import RagflowAgent.Knowledge.Chunking.Content
import RagflowAgent.Knowledge.Guarantees.AliasPublication
import RagflowAgent.Knowledge.Guarantees.BatchStatus
import RagflowAgent.Knowledge.Guarantees.ChunkIdentity
import RagflowAgent.Knowledge.Guarantees.CommandReplays
import RagflowAgent.Knowledge.Guarantees.CompareAndSet
import RagflowAgent.Knowledge.Guarantees.CurrentVersion
import RagflowAgent.Knowledge.Guarantees.DocumentRevision
import RagflowAgent.Knowledge.Guarantees.FailedDeliveries
import RagflowAgent.Knowledge.Guarantees.FailedRollback
import RagflowAgent.Knowledge.Guarantees.GraphProvenance
import RagflowAgent.Knowledge.Guarantees.GroundedAnswers
import RagflowAgent.Knowledge.Guarantees.Reconciliation
import RagflowAgent.Knowledge.Guarantees.RepeatedPurge
import RagflowAgent.Knowledge.Guarantees.RoutedSources
import RagflowAgent.Knowledge.Guarantees.SearchableIngestion
import RagflowAgent.Knowledge.Guarantees.SettledBuilds
import RagflowAgent.Knowledge.Guarantees.TableTexts
import RagflowAgent.Knowledge.Guarantees.TenantIsolation
import RagflowAgent.Knowledge.Guarantees.TerminalOperations
import RagflowAgent.Knowledge.Guarantees.TimeWindows
import RagflowAgent.Knowledge.Retrieval.Attempts
import RagflowAgent.Knowledge.Retrieval.Authority
import RagflowAgent.Knowledge.Retrieval.Filters
import RagflowAgent.Knowledge.Retrieval.Transforms
import RagflowAgent.Operations.Backup
import RagflowAgent.Operations.Containment
import RagflowAgent.Operations.Copies
import RagflowAgent.Operations.Restoration
import RagflowAgent.Text.Joined
import RagflowAgent.Text.Substitution
import RagflowAgent.Worker.Guarantees.OutboxDispatch
