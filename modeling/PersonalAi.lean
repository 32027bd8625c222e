import PersonalAi.Core
import PersonalAi.Capabilities
import PersonalAi.GuestReplay
import PersonalAi.Minting
import PersonalAi.CgiEnvelope
import PersonalAi.RegistryConfinement
import PersonalAi.RotationRuns
import PersonalAi.RotationRevokes
import PersonalAi.RotationAgreement
import PersonalAi.RotationFaults
import PersonalAi.FolderPairing
import PersonalAi.GateTraces
import PersonalAi.RunCalls
import PersonalAi.StreamAgreement
import PersonalAi.ActionParsing
import PersonalAi.SseStream
import PersonalAi.StreamChunks
import PersonalAi.CrdtEdits
import PersonalAi.CrdtShipping
import PersonalAi.PullBatches
import PersonalAi.RowConvergence
import PersonalAi.StoreEncryption
import PersonalAi.PackageSignature
import PersonalAi.BrokerServes
import PersonalAi.BrokerStreams
import PersonalAi.WorkflowResume
import PersonalAi.TaskClaims
import PersonalAi.AppPlacement
import PersonalAi.MigrationRuns
import PersonalAi.PlacementTurns
import PersonalAi.PlacementRuns
import PersonalAi.RotationRows
import PersonalAi.RotationSettles
import PersonalAi.Approvals
import PersonalAi.SandboxRuns
import PersonalAi.PlacementGates
import PersonalAi.StoredKeys
import PersonalAi.MeshDiscovery
import PersonalAi.ModelStore
import PersonalAi.ModelIntegrity
import PersonalAi.ModelLocation
import PersonalAi.AppFetch
import PersonalAi.AppFiles
import PersonalAi.Lib.Hosts
import PersonalAi.Lib.Links
import PersonalAi.Lib.LinkChanges
import PersonalAi.FileJail
import PersonalAi.MemoryTools
import PersonalAi.MemoryScopes
import PersonalAi.Lib.Lines
import PersonalAi.MailDrafts
import PersonalAi.MailCredentials
import PersonalAi.MailReplies
import PersonalAi.MailSearch
import PersonalAi.MailConfinement
import PersonalAi.TombstoneFrames
import PersonalAi.CrdtReadable
import PersonalAi.CrdtTimes
import PersonalAi.SyncFiles
import PersonalAi.FileConfinement
import PersonalAi.Lib.Disk
import PersonalAi.FaultyFiles
import PersonalAi.DataSwap
import PersonalAi.Lib.Lower
import PersonalAi.FastPathIntents
import PersonalAi.Lib.Search
import PersonalAi.WorkflowReferences
import PersonalAi.WorkflowTemplates
import PersonalAi.Lib.Uuid
import PersonalAi.Pairing
import PersonalAi.Lib.Joined
import PersonalAi.SignedFields
import PersonalAi.CrdtPlain
import PersonalAi.AuditLog
import PersonalAi.MemoryRecall
import PersonalAi.TaskSchedules
import PersonalAi.ObjectKeys
import PersonalAi.DocumentText
import PersonalAi.DocumentIngest
import PersonalAi.DataRestore
import PersonalAi.StaticServing
import PersonalAi.LocalTargets
import PersonalAi.AppTokens
import PersonalAi.ModelConfinement
import PersonalAi.VoiceCapture
import PersonalAi.CircleKeys
import PersonalAi.BlobStore
import PersonalAi.PeerSelection
import PersonalAi.ServeStream
import PersonalAi.AppNames
import PersonalAi.Lib.UrlPaths
import PersonalAi.GitLabPaths
import PersonalAi.MediaJobs
import PersonalAi.Lib.Riff
import PersonalAi.WavFiles
import PersonalAi.AppIcons
import PersonalAi.AppLogs
import PersonalAi.ServerSlots
import PersonalAi.Lib.Rfc3339
import PersonalAi.StoredTimes
import PersonalAi.PolicyEdits
import PersonalAi.SyncTargets
import PersonalAi.Lib.Inodes
import PersonalAi.FolderCalls
import PersonalAi.FolderAtomic
import PersonalAi.RelayCalls
import PersonalAi.RelayRuns
import PersonalAi.RelayChanges
import PersonalAi.PwaPages
import PersonalAi.BrokerCalls
import PersonalAi.DeviceGrants
