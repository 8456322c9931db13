import CoherentCache.Main
import CoherentCache.Pipeline.Script
import CoherentCache.Remote.Run
import CoherentCache.Server.Session
import CoherentCache.Terminal
import CoherentCache.Proofs.Decimal
import CoherentCache.Proofs.Instant
import CoherentCache.Proofs.Timestamp
import CoherentCache.Proofs.MemoryStore.Shard
import CoherentCache.Proofs.MemoryStore.Slot
import CoherentCache.Proofs.Record
import CoherentCache.Proofs.MemoryStore.Timeline
import CoherentCache.Proofs.Operation
import CoherentCache.Proofs.MemoryStore.Plain
import CoherentCache.Proofs.MemoryStore.Window
import CoherentCache.Proofs.Cache.Asks
import CoherentCache.Proofs.Cache.Convergence
import CoherentCache.Proofs.Cache.Readback
import CoherentCache.Proofs.Resp.Command
import CoherentCache.Proofs.Resp.Reading
import CoherentCache.Proofs.Network.Traffic
import CoherentCache.Proofs.Remote.Call
import CoherentCache.Proofs.Pipeline.Recorded
import CoherentCache.Proofs.Pipeline.Activity
import CoherentCache.Proofs.Pipeline.Evidence
import CoherentCache.Proofs.Pipeline.Order
import CoherentCache.Proofs.Pipeline.Race
import CoherentCache.Proofs.Remote.Reaches
import CoherentCache.Proofs.Remote.Outcome
import CoherentCache.Proofs.Resp.Bounds
import CoherentCache.Proofs.MemoryStore.Tidy
import CoherentCache.Proofs.Remote.Wording
import CoherentCache.Proofs.Server.Replies
import CoherentCache.Proofs.Server.History
import CoherentCache.Proofs.Server.Answers
import CoherentCache.Proofs.Decimal.Significant
import CoherentCache.Proofs.Server.Report
import CoherentCache.Proofs.Server.Run
import CoherentCache.Proofs.Server.Pending
import CoherentCache.Proofs.Server.Unserved
import CoherentCache.Proofs.Server.ReportValues
import CoherentCache.Proofs.Server.Sequential
import CoherentCache.Proofs.Server.Faultless
import CoherentCache.Proofs.MemoryStore.Isolation
import CoherentCache.Proofs.Resp.Inlet
import CoherentCache.Proofs.Resp.Requests
import CoherentCache.Proofs.Decimal.Grammar
import CoherentCache.Proofs.Resp.Blocked
import CoherentCache.Proofs.Resp.Cuts
import CoherentCache.Proofs.Resp.Rescan
import CoherentCache.Proofs.Resp.Nesting
import CoherentCache.Proofs.Record.Persisted
import CoherentCache.Proofs.Resp.Agreement
import CoherentCache.Proofs.Remote.Handles
import CoherentCache.Proofs.Remote.Answers
import CoherentCache.Proofs.MemoryStore.Agenda
import CoherentCache.Proofs.MemoryStore.Sweep
import CoherentCache.Proofs.MemoryStore.Deadlines
import CoherentCache.Proofs.Pipeline.ReadThrough
import CoherentCache.Proofs.Remote.Exchanges
import CoherentCache.Proofs.MemoryStore.Unreadable
import CoherentCache.Proofs.Remote.Deeds
import CoherentCache.Proofs.Remote.Attempts
import CoherentCache.Proofs.MemoryStore.Visible
import CoherentCache.Proofs.Pipeline.Batches
import CoherentCache.Proofs.Pipeline.Executions
import CoherentCache.Proofs.Pipeline.Updates
import CoherentCache.Proofs.Remote.Corrupt
import CoherentCache.Proofs.Remote.Inspection
import CoherentCache.Proofs.Cache.Batches
import CoherentCache.Proofs.Server.Batches
import CoherentCache.Proofs.Pipeline.Populate
import CoherentCache.Proofs.MemoryStore.Conservation
import CoherentCache.Proofs.Cache.Accounting
import CoherentCache.Proofs.Pipeline.Accounts
import CoherentCache.Proofs.Server.Retention
import CoherentCache.Proofs.Settings.Loading
import CoherentCache.Proofs.Settings.Bounds
import CoherentCache.Proofs.Record.Acceptance
import CoherentCache.Proofs.Settings.Numerals
import CoherentCache.Proofs.Terminal.Conversation
import CoherentCache.Proofs.Timestamp.Readings
import CoherentCache.Proofs.MemoryStore.Expiries
import CoherentCache.Proofs.Remote.Sockets
