import Answr.Loops
import Answr.Requests
import Answr.CoreData
import Answr.Reconcile
import Answr.Loading
import Answr.Matching
import Answr.Merge
import Answr.MergeSpec
import Answr.Staleness
import Answr.ZoneFrame
import Answr.Pool
import Answr.Tree
import Answr.Completion
import Answr.CompletionRuns
import Answr.Confirmations
import Answr.PartialWrites
import Answr.Ledger
import Answr.Completions
import Answr.SignIn
import Answr.SignInRuns
import Answr.Launches
import Answr.Screen
import Answr.ScreenRuns
import Answr.Countdown
import Answr.Fetch
import Answr.FetchRuns
import Answr.Refresh
import Answr.Delivery
import Answr.Answers
import Answr.FetchEnds
import Answr.Contents
import Answr.RoundTrip
import Answr.Rounds
import Answr.Showing
import Answr.Unique
import Answr.Assigned
import Answr.Interrupted
import Answr.Resumed
import Answr.Checklist
import Answr.Handover
import Answr.Fleet
import Answr.Phones
import Answr.FleetRuns
import Answr.Credits
import Answr.Inventory
import Answr.Persistence
import Answr.Transactions
import Answr.Reruns
import Answr.Exchange
import Answr.Accounts
import Answr.Connections
import Answr.Transacting
import Answr.Settling
import Answr.Served
import Answr.ExchangeRuns
import Answr.CounterTransactions
import Answr.Entries
import Answr.LLRB
import Answr.Balance
import Answr.Removals
import Answr.TreeBuilder
import Answr.SortedDictionary
import Answr.DictionaryReads
import Answr.DictionaryRuns
import Answr.Enumerators
import Answr.KeyOrder
import Answr.SnapshotNode
import Answr.SnapshotRuns
