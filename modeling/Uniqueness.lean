import Uniqueness.Main
import Uniqueness.Cluster.Provider
import Uniqueness.Cluster.Service
import Uniqueness.Proofs.JsonStrings
import Uniqueness.Proofs.Numerals
import Uniqueness.Proofs.SortedMaps
import Uniqueness.Proofs.JsonRoundTrip
import Uniqueness.Proofs.JsonExtension
import Uniqueness.Proofs.LawfulCodecs
import Uniqueness.Proofs.DigestTexts
import Uniqueness.Proofs.StateKeys
import Uniqueness.Proofs.StoreContents
import Uniqueness.Proofs.ClaimRecords
import Uniqueness.Proofs.MachineSteps
import Uniqueness.Proofs.FirstWriterWins
import Uniqueness.Proofs.OwnConflicts
import Uniqueness.Proofs.SnapshotStreams
import Uniqueness.Proofs.SnapshotFormat
import Uniqueness.Proofs.SnapshotInstalls
import Uniqueness.Proofs.LogReplay
import Uniqueness.Proofs.RepeatedClaims
import Uniqueness.Proofs.Retries
import Uniqueness.Proofs.ReplicaSteps
import Uniqueness.Proofs.CrashReplay
import Uniqueness.Proofs.SnapshotFolders
import Uniqueness.Proofs.NewestSnapshot
import Uniqueness.Proofs.ConcurrentSnapshots
import Uniqueness.Proofs.TornFolders
import Uniqueness.Proofs.InterruptedSnapshots
import Uniqueness.Proofs.ReplicaSnapshots
import Uniqueness.Proofs.ReplicaAgreement
import Uniqueness.Proofs.InstallOutcomes
import Uniqueness.Proofs.Bootstrap
import Uniqueness.Proofs.ConcurrentChanges
import Uniqueness.Proofs.AppliedBatches
import Uniqueness.Proofs.SoleVoters
import Uniqueness.Proofs.ProvidersAgree
import Uniqueness.Proofs.CanonicalSnapshots
import Uniqueness.Proofs.ContiguousJournals
import Uniqueness.Proofs.IndependentClaims
import Uniqueness.Proofs.StoreSessions
import Uniqueness.Proofs.SnapshotReaders
import Uniqueness.Proofs.RefusedQueries
import Uniqueness.Proofs.SnapshotLabels
import Uniqueness.Proofs.InstalledCounts
import Uniqueness.Proofs.WrittenStreams
import Uniqueness.Proofs.RequestCourses
import Uniqueness.Proofs.DeadAddresses
import Uniqueness.Proofs.RetryableFailures
import Uniqueness.Proofs.LeaderHints
import Uniqueness.Proofs.KeptConnections
import Uniqueness.Proofs.HexDigits
import Uniqueness.Proofs.ReferenceTexts
import Uniqueness.Proofs.Waits
import Uniqueness.Proofs.NamedPeers
import Uniqueness.Proofs.PeersInSettings
import Uniqueness.Proofs.AppliedBatches
