import TwinLog.Bulk.Load
import TwinLog.Bulk.Pool
import TwinLog.Bulk.Retry
import TwinLog.Bulk.Walk
import TwinLog.Bytes.Little
import TwinLog.Bytes.Sparse
import TwinLog.CommandLine
import TwinLog.Content.Source
import TwinLog.ContentLog.Basic
import TwinLog.ContentLog.Buffers
import TwinLog.ContentLog.Feed
import TwinLog.ContentLog.Transfer
import TwinLog.Digest.Blake3
import TwinLog.Disk
import TwinLog.Fault
import TwinLog.KeyLog.Basic
import TwinLog.KeyLog.Gate
import TwinLog.KeyLog.Header
import TwinLog.KeyLog.Replay
import TwinLog.Location
import TwinLog.Log
import TwinLog.Main
import TwinLog.Path
import TwinLog.Proofs.ContentLog.Chunks
import TwinLog.Proofs.ContentLog.Returns
import TwinLog.Proofs.ContentLog.Streaming
import TwinLog.Proofs.ContentLog.Tiling
import TwinLog.Proofs.ContentLog.Traffic
import TwinLog.Proofs.ContentLog.Whole
import TwinLog.Proofs.KeyLog.Layout
import TwinLog.Proofs.KeyLog.Upkeep
import TwinLog.Proofs.Log.Memory
import TwinLog.Proofs.Log.Opening
import TwinLog.Proofs.Vault.Crash
import TwinLog.Proofs.Vault.Opening
import TwinLog.Proofs.Vault.Rollback
import TwinLog.Proofs.Vault.Service
import TwinLog.Proofs.Vault.Sessions
import TwinLog.Proofs.Vault.Standing
import TwinLog.Proofs.Volume.Naming
import TwinLog.Proofs.Volume.Walk
import TwinLog.Text.Messages
import TwinLog.Text.Printable
import TwinLog.Vault.Basic
import TwinLog.Vault.Settings
import TwinLog.Volume.Files
import TwinLog.Volume.Tree
import TwinLog.Proofs.KeyLog.History
import TwinLog.Proofs.KeyLog.Commit
import TwinLog.Proofs.Vault.Readers
import TwinLog.Proofs.Vault.Truncation
import TwinLog.Proofs.Volume.Places
import TwinLog.Proofs.Vault.Apart
import TwinLog.Proofs.Volume.Making
import TwinLog.Proofs.ContentLog.Outcome
import TwinLog.Proofs.ContentLog.Scripts
import TwinLog.Proofs.KeyLog.Outcome
import TwinLog.Proofs.Vault.Ledger
import TwinLog.Proofs.Vault.Shelf
import TwinLog.Proofs.Vault.World
import TwinLog.Proofs.Vault.Failure
import TwinLog.Proofs.Vault.Tuning
import TwinLog.Proofs.ContentLog.Persisted
import TwinLog.Proofs.KeyLog.Calls
import TwinLog.Proofs.KeyLog.Crowd
import TwinLog.Proofs.Log.Lifetime
import TwinLog.Proofs.Vault.Retries
import TwinLog.Proofs.Bulk.Agreement
import TwinLog.Proofs.KeyLog.Grammar
import TwinLog.Proofs.KeyLog.Refusal
import TwinLog.Proofs.ContentLog.Aftermath
import TwinLog.Proofs.ContentLog.Copying
import TwinLog.Proofs.ContentLog.Exact
import TwinLog.Proofs.ContentLog.Requests
import TwinLog.Proofs.ContentLog.EarlyEnd
import TwinLog.Proofs.ContentLog.Provided
import TwinLog.Proofs.Bulk.Chronicle
import TwinLog.Proofs.ContentLog.Probe
import TwinLog.Proofs.Bulk.Attempts
import TwinLog.Proofs.Bulk.Reported
import TwinLog.Proofs.Volume.Inside
import TwinLog.Proofs.Volume.Branch
import TwinLog.Proofs.Bulk.Collected
import TwinLog.Proofs.KeyLog.Codec
import TwinLog.Proofs.Log.Cursor
import TwinLog.Proofs.KeyLog.Words
import TwinLog.Proofs.ContentLog.Words
import TwinLog.Proofs.Vault.Words
