import RiskClaw.ReactiveMachine
import RiskClaw.AccountStore
import RiskClaw.SpacedTimes
import RiskClaw.SolanaRuntime
import RiskClaw.DevnetConfig
import RiskClaw.SwigDelegation
import RiskClaw.SwigRateLimit
import RiskClaw.SwigIsolation
import RiskClaw.RiskPolicyProgram
import RiskClaw.RiskPolicyControl
import RiskClaw.OnchainClient
import RiskClaw.ClientRuns
import RiskClaw.ClientSignatures
import RiskClaw.ClientIdempotency
import RiskClaw.ClientWindow
import RiskClaw.AgentLoop
import RiskClaw.PolicyWrites
import RiskClaw.SwigGates
import RiskClaw.AdaptiveQueries
import RiskClaw.ThresholdCircuit
import RiskClaw.LittleEndian
import RiskClaw.ThresholdPacking
import RiskClaw.AccountLayout
import RiskClaw.PolicyHash
import RiskClaw.GreedySampling
import RiskClaw.ReadThrottle
import RiskClaw.ClientRejections
import RiskClaw.LeftmostSearch
import RiskClaw.ConfigPatch
import RiskClaw.AgentRegistration
import RiskClaw.ObserverLifecycle
import RiskClaw.TextPieces
import RiskClaw.ConfigGrammar
import RiskClaw.RegistryBlock
import RiskClaw.PatchFrame
import RiskClaw.AgentIdentity
import RiskClaw.ConfigRuns
import RiskClaw.AgentProcess
import RiskClaw.ClientFleet
import RiskClaw.SwigSampling
import RiskClaw.ObserverEmissions
import RiskClaw.JsonText
import RiskClaw.JsonPrefixes
import RiskClaw.RegistryTexts
import RiskClaw.RegistryFile
import RiskClaw.KeywordSegments
import RiskClaw.DeployScript
import RiskClaw.ConfigLayout
import RiskClaw.SharedConfig
import RiskClaw.Base58
import RiskClaw.KeyTexts
import RiskClaw.ZoneDirectory
import RiskClaw.EventFeed
import RiskClaw.AuditTrail
import RiskClaw.PolicyEditor
import RiskClaw.PolicyProposals
import RiskClaw.FixedFormats
import RiskClaw.SerializedCells
import RiskClaw.WireFormat
import RiskClaw.WirePrograms
