import ChainExplorer.Db.Converge
import ChainExplorer.Db.Pages
import ChainExplorer.Db.BlobKeys
import ChainExplorer.Indexer.Genesis
import ChainExplorer.Indexer.Repair
import ChainExplorer.Indexer.Anchoring
import ChainExplorer.Indexer.KnownTokens
import ChainExplorer.Indexer.Refused
import ChainExplorer.Indexer.Chunks
import ChainExplorer.Indexer.Stats
import ChainExplorer.Rpc.Matching
import ChainExplorer.AddressForms
import ChainExplorer.FunctionName
import ChainExplorer.FormatToken
import ChainExplorer.Views
import ChainExplorer.Trace
import ChainExplorer.Misses
import ChainExplorer.Web.Feed
import ChainExplorer.Web.CallStatus
import ChainExplorer.Web.BalanceChanges
import ChainExplorer.Web.Summary
import ChainExplorer.Web.Amounts
import ChainExplorer.Web.Links
import ChainExplorer.Web.Search
import ChainExplorer.Web.PageArithmetic
import ChainExplorer.Indexer.Mirror
import ChainExplorer.Indexer.Conserved
import ChainExplorer.Indexer.Metadata
import ChainExplorer.Web.Labels
import ChainExplorer.Web.Traces
import ChainExplorer.Web.Holdings
import ChainExplorer.Indexer.Shutdown
import ChainExplorer.Web.Walks
import ChainExplorer.Db.Opening
import ChainExplorer.Web.Blame
import ChainExplorer.Web.Payloads
import ChainExplorer.Web.TokenNames
import ChainExplorer.Web.CallTree
