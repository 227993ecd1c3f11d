import MycsCommon.Proofs.GroupKeys
import MycsCommon.Proofs.ForwardOrder
import MycsCommon.Proofs.OAuthState
import MycsCommon.Proofs.StreamNulls
import MycsCommon.Proofs.RebuiltDocuments
import MycsCommon.Proofs.StreamCuts
import MycsCommon.Proofs.StreamKeys
import MycsCommon.Proofs.PayloadCustody
import MycsCommon.Proofs.SessionKeys
import MycsCommon.Proofs.ChunkTransfer
import MycsCommon.Proofs.CliOutput
import MycsCommon.Proofs.DnsRestore
import MycsCommon.Proofs.PackedData
import MycsCommon.Proofs.PayloadIntegrity
import MycsCommon.Proofs.PublishResults
import MycsCommon.Proofs.NodeCheckDeadlock
import MycsCommon.Proofs.DraftedRules
import MycsCommon.Proofs.ForwardKeys
import MycsCommon.Proofs.IdleRouter
import MycsCommon.Proofs.FamilyParity
import MycsCommon.Proofs.TokenParsing
import MycsCommon.Proofs.FailingSink
import MycsCommon.Proofs.FilterErrors
import MycsCommon.Proofs.RejectedWrites
import MycsCommon.Proofs.TruncatedPayloads
import MycsCommon.Proofs.ChunkedLines
import MycsCommon.Proofs.DispatchStop
import MycsCommon.Proofs.ShortWrites
import MycsCommon.Proofs.SplitLines
import MycsCommon.Proofs.TickerIntervals
import MycsCommon.Proofs.AbandonedLocks
import MycsCommon.Proofs.CounterTotals
import MycsCommon.Proofs.Gateways
import MycsCommon.Proofs.InterfaceNames
import MycsCommon.Proofs.LookupRaces
import MycsCommon.Proofs.PeerKeys
import MycsCommon.Proofs.ReseededKeys
import MycsCommon.Proofs.ResolvedNames
import MycsCommon.Proofs.RouteFamilies
import MycsCommon.Proofs.RouterSelection
import MycsCommon.Proofs.WireguardPeers
