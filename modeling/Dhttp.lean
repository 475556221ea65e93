import Dhttp.Lib.Fallible
import Dhttp.Lib.OperatorTree
import Dhttp.Lib.PolishWords
import Dhttp.Lib.FirstCopies
import Dhttp.Lib.GraphSearch
import Dhttp.Lib.PrecedenceClimbing
import Dhttp.Lib.TextSplitting
import Dhttp.Lib.DottedNames
import Dhttp.Lib.ByteText
import Dhttp.Lib.OrderedCollect
import Dhttp.Lib.Survivors
import Dhttp.Lib.OwnedRegistry
import Dhttp.Lib.Interleaving
import Dhttp.Lib.FileTrees
import Dhttp.Lib.Refinement
import Dhttp.Access.Reachability
import Dhttp.Access.ByteTables
import Dhttp.Access.SearchExactness
import Dhttp.Access.InputLanguages
import Dhttp.Access.Patterns
import Dhttp.Access.StackMachine
import Dhttp.Access.StackRuns
import Dhttp.Access.StackGrouping
import Dhttp.Access.Atoms
import Dhttp.Access.Tokens
import Dhttp.Access.RuleSyntax
import Dhttp.Access.InfixRoundTrip
import Dhttp.Access.StoredRules
import Dhttp.Access.RequestMatching
import Dhttp.Access.LiteralLib
import Dhttp.Access.AcceptedConditions
import Dhttp.Access.RejectedPatterns
import Dhttp.Access.InputGrammars
import Dhttp.Access.RuleRows
import Dhttp.Access.RuleEvaluation
import Dhttp.Access.UniqueMigration
import Dhttp.Access.RuleStore
import Dhttp.Access.RuleStoreSteps
import Dhttp.Access.RulePriority
import Dhttp.Access.RuleStoreRuns
import Dhttp.Access.ReadSkew
import Dhttp.Access.ArityCheck
import Dhttp.Access.ValidatedEvaluation
import Dhttp.Access.Deduplication
import Dhttp.Access.RuleListing
import Dhttp.Access.RuleRemoval
import Dhttp.Access.RuleDisplay
import Dhttp.Access.Policy
import Dhttp.Access.PolicyRefinement
import Dhttp.Home.Names
import Dhttp.Home.DnsNames
import Dhttp.Home.Settings
import Dhttp.Home.Certificate
import Dhttp.Home.Profiles
import Dhttp.Home.ProfileViews
import Dhttp.Home.ProfileAgreement
import Dhttp.Home.SaveIdentity
import Dhttp.Home.SaveRuns
import Dhttp.Home.SaveTransactions
import Dhttp.Home.OcspRefresh
import Dhttp.Home.OcspRuns
import Dhttp.Log.Record
import Dhttp.Log.AddressText
import Dhttp.Log.AccessFormat
import Dhttp.Log.AccessDecoding
import Dhttp.Log.CertificateFormat
import Dhttp.Log.CertificateDecoding
import Dhttp.Client.UriExpansion
import Dhttp.Client.ExpansionExactness
import Dhttp.Client.NameExpansion
import Dhttp.Client.Routing
import Dhttp.Client.RoutingKeys
import Dhttp.Api.Errors
import Dhttp.Api.ErrorRecovery
import Dhttp.Api.Lifecycle
import Dhttp.Api.Scopes
import Dhttp.Api.ScopeRuns
import Dhttp.Api.Signatures
import Dhttp.Api.Redirects
import Dhttp.Api.RedirectChains
import Dhttp.Api.UploadChannel
import Dhttp.Api.UploadRuns
import Dhttp.Api.UploadDelivery
import Dhttp.Api.ReceiveBridge
import Dhttp.Api.BridgeRuns
import Dhttp.Api.BridgeStops
import Dhttp.Api.BridgeDelivery
import Dhttp.Api.Requests
import Dhttp.Api.RequestRuns
import Dhttp.Api.RequestAnswers
import Dhttp.Api.RequestStops
import Dhttp.Api.Listening
import Dhttp.Api.ListenerRuns
import Dhttp.Api.ListenerCloses
import Dhttp.Api.NativeHandlers
import Dhttp.Api.ServerExchange
import Dhttp.Api.ServerRuns
import Dhttp.Network.InterfaceSnapshot
import Dhttp.Network.NatMappings
import Dhttp.Network.NatHeartbeats
import Dhttp.Network.NatProbes
import Dhttp.Network.NatProbeRuns
import Dhttp.Network.Interfaces
import Dhttp.Network.InterfaceScans
import Dhttp.Network.Reconciliation
import Dhttp.Network.InterfaceLifecycle
import Dhttp.Network.Listeners
import Dhttp.Network.ListenerRuns
import Dhttp.Network.Connections
import Dhttp.Network.ConnectionRuns
import Dhttp.Network.ServedStreams
