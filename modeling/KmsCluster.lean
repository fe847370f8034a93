import KmsCluster.Lib.BigEndian
import KmsCluster.Lib.SelfDelimiting
import KmsCluster.Lib.Base64Url
import KmsCluster.Lib.Bare
import KmsCluster.Lib.Fallible
import KmsCluster.Lib.Interpolation
import KmsCluster.Lib.AssocMap
import KmsCluster.Lib.Runs
import KmsCluster.Lib.Correspondence
import KmsCluster.Lib.Mutex
import KmsCluster.Lib.Inodes
import KmsCluster.Crypto
import KmsCluster.ScalarCurve
import KmsCluster.Server
import KmsCluster.NodeList
import KmsCluster.NodeListSteps
import KmsCluster.NodeListRefresh
import KmsCluster.NodeListOrder
import KmsCluster.Membership
import KmsCluster.Derive
import KmsCluster.DeriveFaulty
import KmsCluster.DeriveTrace
import KmsCluster.DeriveAltered
import KmsCluster.Auth
import KmsCluster.AppKey
import KmsCluster.Messages
import KmsCluster.Freshness
import KmsCluster.Verifier
import KmsCluster.VerifierAvailability
import KmsCluster.VerifierFlight
import KmsCluster.VerifierCounters
import KmsCluster.VerifierPoll
import KmsCluster.VerifierEviction
import KmsCluster.Reshare
import KmsCluster.ReshareAlgebra
import KmsCluster.ClusterView
import KmsCluster.Dkg
import KmsCluster.RoundBarrier
import KmsCluster.DkgDriver
import KmsCluster.SessionNet
import KmsCluster.Redelivery
import KmsCluster.Genesis
import KmsCluster.Process
import KmsCluster.PeerCalls
import KmsCluster.ShardContribution
import KmsCluster.ResponseNet
import KmsCluster.Readiness
import KmsCluster.FormCluster
import KmsCluster.Seal
import KmsCluster.BlobFile
import KmsCluster.SealRoundTrip
import KmsCluster.DurableShare
import KmsCluster.UintZigzag
import KmsCluster.Baseline
import KmsCluster.ReshareSession
import KmsCluster.Gossip
import KmsCluster.GossipRun
import KmsCluster.KnownEpoch
import KmsCluster.FreshEpoch
import KmsCluster.GossipNet
import KmsCluster.UrlChange
import KmsCluster.Cluster
import KmsCluster.ClusterShares
import KmsCluster.EpochIdentity
import KmsCluster.MasterPreserved
import KmsCluster.KeyService
import KmsCluster.GossipSpread
import KmsCluster.GossipConverge
