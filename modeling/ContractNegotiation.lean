import ContractNegotiation.Main
import ContractNegotiation.Simulation.Session
import ContractNegotiation.Proofs.Transition.Table
import ContractNegotiation.Proofs.Action
import ContractNegotiation.Proofs.Transactions
import ContractNegotiation.Proofs.Command
import ContractNegotiation.Proofs.Store
import ContractNegotiation.Proofs.Store.History
import ContractNegotiation.Proofs.Environment
import ContractNegotiation.Proofs.Store.Evolution
import ContractNegotiation.Proofs.Store.Calls
import ContractNegotiation.Proofs.Store.Lease
import ContractNegotiation.Proofs.Store.Choice
import ContractNegotiation.Proofs.Manager
import ContractNegotiation.Proofs.Manager.Round
import ContractNegotiation.Proofs.Site
import ContractNegotiation.Proofs.Lending
import ContractNegotiation.Proofs.Page
import ContractNegotiation.Proofs.Page.Poll
import ContractNegotiation.Proofs.Page.Turn
import ContractNegotiation.Proofs.Network
import ContractNegotiation.Proofs.Journal
import ContractNegotiation.Proofs.Retry
import ContractNegotiation.Proofs.Manager.Desk
import ContractNegotiation.Proofs.Manager.Commands
import ContractNegotiation.Proofs.Manager.Discipline
import ContractNegotiation.Proofs.Manager.Retries
import ContractNegotiation.Proofs.Record
import ContractNegotiation.Proofs.Connector
import ContractNegotiation.Proofs.Archive
import ContractNegotiation.Proofs.Connector.Trail
import ContractNegotiation.Proofs.Timed
import ContractNegotiation.Proofs.Timed.Turn
import ContractNegotiation.Proofs.Network.Accord
import ContractNegotiation.Proofs.Network.Exchange
import ContractNegotiation.Proofs.Network.Agreement
import ContractNegotiation.Proofs.Network.Answer
import ContractNegotiation.Proofs.Network.Redelivery
import ContractNegotiation.Proofs.Connector.Correlation
import ContractNegotiation.Proofs.Network.Turn
import ContractNegotiation.Proofs.Network.Round
import ContractNegotiation.Proofs.Network.Delivery
import ContractNegotiation.Proofs.Network.Decline
import ContractNegotiation.Proofs.Network.TwoParties
import ContractNegotiation.Proofs.Network.Bargain
import ContractNegotiation.Proofs.Network.Polling
import ContractNegotiation.Proofs.Timed.Round
import ContractNegotiation.Proofs.Manager.Alike
import ContractNegotiation.Proofs.Store.Roles
import ContractNegotiation.Proofs.Network.Roles
import ContractNegotiation.Proofs.Network.Refusals
import ContractNegotiation.Proofs.Network.Failures
import ContractNegotiation.Proofs.Network.Traffic
import ContractNegotiation.Proofs.Network.Audit
import ContractNegotiation.Proofs.Network.Unannounced
import ContractNegotiation.Proofs.Network.EarlyDecline
import ContractNegotiation.Proofs.Manager.Upkeep
import ContractNegotiation.Proofs.Timed.Upkeep
import ContractNegotiation.Proofs.Timed.Commands
import ContractNegotiation.Proofs.Timed.Chronicle
import ContractNegotiation.Proofs.Timed.Loop
import ContractNegotiation.Proofs.Timed.Pace
import ContractNegotiation.Proofs.Timed.Precedence
import ContractNegotiation.Proofs.Timed.Cancel
import ContractNegotiation.Proofs.Timed.Workers
import ContractNegotiation.Proofs.Query.Paging
import ContractNegotiation.Proofs.Query.Wildcard
import ContractNegotiation.Proofs.Query.Views
import ContractNegotiation.Proofs.Query.Operators
import ContractNegotiation.Proofs.Query.Expressions
import ContractNegotiation.Proofs.Binary64.Numeral
import ContractNegotiation.Proofs.Query.Numbers
import ContractNegotiation.Proofs.Settings.Document
import ContractNegotiation.Proofs.Manager.Limits
import ContractNegotiation.Proofs.Settings.Limits
import ContractNegotiation.Proofs.Retry.Delay
import ContractNegotiation.Proofs.LogEntry
import ContractNegotiation.Proofs.Identifier
