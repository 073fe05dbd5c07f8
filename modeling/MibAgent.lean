import MibAgent.Failure
import MibAgent.Message
import MibAgent.Query
import MibAgent.Description
import MibAgent.LockTable
import MibAgent.Registry
import MibAgent.Request.Response
import MibAgent.Agent.Processing
import MibAgent.Agent.Registration
import MibAgent.Scenario
import MibAgent.Scenario.HandDriven
import MibAgent.Proofs.FailedUndo
import MibAgent.Proofs.Stores
import MibAgent.Proofs.Cuts
import MibAgent.Proofs.Partitions
import MibAgent.Proofs.Registrations
import MibAgent.Proofs.Lookup
import MibAgent.Proofs.LockTables
import MibAgent.Proofs.LockDiscipline
import MibAgent.Proofs.Searches
import MibAgent.Proofs.Instances
import MibAgent.Proofs.Reading
import MibAgent.Proofs.SingleReads
import MibAgent.Proofs.Shelves
import MibAgent.Proofs.Walks
import MibAgent.Proofs.Agreement
import MibAgent.Proofs.Narrowing
import MibAgent.Proofs.BulkReads
import MibAgent.Proofs.ResponseSize
import MibAgent.Proofs.LockHistories
import MibAgent.Proofs.Guards
import MibAgent.Proofs.Sightings
import MibAgent.Proofs.Secrecy
import MibAgent.Proofs.MixedKeys
import MibAgent.Proofs.SearchBounds
import MibAgent.Proofs.Progress
import MibAgent.Proofs.LegacyResponses
import MibAgent.Proofs.Withdrawals
import MibAgent.Proofs.Subtrees
import MibAgent.Proofs.Intersections
import MibAgent.Proofs.Encoding
import MibAgent.Proofs.ScopeOrder
import MibAgent.Proofs.RowBudget
import MibAgent.Proofs.Gaps
import MibAgent.Proofs.DottedNotation
import MibAgent.Proofs.FailurePositions
import MibAgent.Proofs.RefreshedRequests
import MibAgent.Proofs.RowListeners
import MibAgent.Proofs.FirstEntries
import MibAgent.Proofs.WindowSearch
import MibAgent.Proofs.Columns
import MibAgent.Proofs.Refusals
