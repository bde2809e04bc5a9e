import ChainLedger.Http.Routes
import ChainLedger.Queue.Worker
import ChainLedger.Schema.Migrator
import ChainLedger.Settings.Provision
import ChainLedger.Proofs.Store.Yields
import ChainLedger.Proofs.Ledger.Reconciling
import ChainLedger.Proofs.Service.Chain
import ChainLedger.Proofs.Service.Storing
import ChainLedger.Proofs.Service.Reachable
import ChainLedger.Proofs.Ledger.Records
import ChainLedger.Proofs.Ledger.History
import ChainLedger.Proofs.Ledger.Repetition
import ChainLedger.Proofs.Service.Run
import ChainLedger.Proofs.Service.Tracks
import ChainLedger.Proofs.Service.MainChain
import ChainLedger.Proofs.Store.Refusals
import ChainLedger.Proofs.Store.Answers
import ChainLedger.Proofs.Ledger.Atomicity
import ChainLedger.Proofs.Queue.Attempts
import ChainLedger.Proofs.Queue.Serving
import ChainLedger.Proofs.Queue.Retries
import ChainLedger.Proofs.Queue.Interleaving
import ChainLedger.Proofs.Service.Blockwise
import ChainLedger.Proofs.Service.Preparing
import ChainLedger.Proofs.Service.Interruption
import ChainLedger.Proofs.Service.Content
import ChainLedger.Proofs.Service.Showing
import ChainLedger.Proofs.Service.Alike
import ChainLedger.Proofs.Service.Working
import ChainLedger.Proofs.Service.Resending
import ChainLedger.Proofs.Service.Traffic
import ChainLedger.Proofs.Service.Undisturbed
import ChainLedger.Proofs.Service.Turns
import ChainLedger.Proofs.Service.Telling
import ChainLedger.Proofs.Service.Dispatching
import ChainLedger.Proofs.Service.Failing
import ChainLedger.Proofs.Service.LastReports
import ChainLedger.Proofs.Service.Settling
import ChainLedger.Proofs.Service.Timing
import ChainLedger.Proofs.Service.Overtaking
import ChainLedger.Proofs.Service.Pages
import ChainLedger.Proofs.Service.PageWords
import ChainLedger.Proofs.Service.Tip
import ChainLedger.Proofs.Service.Reading
import ChainLedger.Proofs.Decimal.Numerals
import ChainLedger.Proofs.Service.AssetHistory
import ChainLedger.Proofs.Service.BlockContents
import ChainLedger.Proofs.Service.Registry
import ChainLedger.Proofs.Json.Building
import ChainLedger.Proofs.Json.Reading
import ChainLedger.Proofs.Report.Spellings
import ChainLedger.Proofs.Report.RoundTrip
import ChainLedger.Proofs.Schema.Standing
import ChainLedger.Proofs.Schema.Histories
import ChainLedger.Proofs.Schema.Dependencies
import ChainLedger.Proofs.Ledger.Verdicts
import ChainLedger.Proofs.Ledger.Footprint
import ChainLedger.Proofs.Ledger.Range
import ChainLedger.Proofs.Ledger.Amounts
import ChainLedger.Proofs.Service.Conversion
import ChainLedger.Proofs.Report.Checks
import ChainLedger.Proofs.Service.AssetSearch
import ChainLedger.Proofs.Service.ServedDecimals
import ChainLedger.Proofs.Service.Positions
import ChainLedger.Proofs.Service.NamedItems
import ChainLedger.Proofs.Settings.Redaction
import ChainLedger.Proofs.Settings.NamedDatabase
