import PcapEvidence.AsPathHops
import PcapEvidence.BerExact
import PcapEvidence.BgpCandidateBatch
import PcapEvidence.BgpCandidateReduce
import PcapEvidence.BgpFeedTree
import PcapEvidence.BgpPipelineOpens
import PcapEvidence.BgpPolicySelect
import PcapEvidence.BgpRibContinuity
import PcapEvidence.BgpSemantic
import PcapEvidence.BgpStoreReplay
import PcapEvidence.BgpUpdateOrder
import PcapEvidence.BmpReplayRun
import PcapEvidence.CaptureIndexLoad
import PcapEvidence.CaptureWords
import PcapEvidence.ChecksumSum
import PcapEvidence.ConfirmationsRows
import PcapEvidence.CorrelateRun
import PcapEvidence.Dnp3FramingReport
import PcapEvidence.Dnp3Probe
import PcapEvidence.DnpFileOrder
import PcapEvidence.DnsKey
import PcapEvidence.EngineRun
import PcapEvidence.EpochAliases
import PcapEvidence.FragmentAccounting
import PcapEvidence.FragmentCompletion
import PcapEvidence.HistoryAnchors
import PcapEvidence.HistoryExtent
import PcapEvidence.JournalCorruption
import PcapEvidence.ModbusAgreement
import PcapEvidence.MrtExact
import PcapEvidence.NgRoundTrip
import PcapEvidence.ProvenanceBuilt
import PcapEvidence.SegmentsRun
import PcapEvidence.Sha256Standard
import PcapEvidence.StreamAccount
import PcapEvidence.StreamOrder
import PcapEvidence.StreamPairing
import PcapEvidence.TcpTranslation
