import ZoneweaverAgent.CommandProgram
import ZoneweaverAgent.DerivedSchema
import ZoneweaverAgent.DocumentRuns
import ZoneweaverAgent.DocumentWriters
import ZoneweaverAgent.EventLoop
import ZoneweaverAgent.EventLoopAlone
import ZoneweaverAgent.FieldDsl
import ZoneweaverAgent.FieldDslAccepted
import ZoneweaverAgent.FieldDslLint
import ZoneweaverAgent.FieldDslValidate
import ZoneweaverAgent.FieldNoninterference
import ZoneweaverAgent.FieldVisibility
import ZoneweaverAgent.HostsTemplate
import ZoneweaverAgent.JsonSchema
import ZoneweaverAgent.JsonValue
import ZoneweaverAgent.KeyedList
import ZoneweaverAgent.OperationCategories
import ZoneweaverAgent.PendingChanges
import ZoneweaverAgent.PendingChangesRuns
import ZoneweaverAgent.ShowIfGrammar
import ZoneweaverAgent.SuspendCheckpoint
import ZoneweaverAgent.TaskQueue
import ZoneweaverAgent.TaskQueueAbsorbing
import ZoneweaverAgent.TaskQueueAnchors
import ZoneweaverAgent.TaskQueueCancellation
import ZoneweaverAgent.TaskQueueCascade
import ZoneweaverAgent.TaskQueueCascadeRuns
import ZoneweaverAgent.TaskQueueCategories
import ZoneweaverAgent.TaskQueueEnded
import ZoneweaverAgent.TaskQueueExclusion
import ZoneweaverAgent.TaskQueueGate
import ZoneweaverAgent.TaskQueueInvariant
import ZoneweaverAgent.TaskQueueRelease
import ZoneweaverAgent.TaskQueueRollup
import ZoneweaverAgent.TaskQueueSteps
import ZoneweaverAgent.TaskTable
import ZoneweaverAgent.Transition
import ZoneweaverAgent.ZoneDocument
import ZoneweaverAgent.DiskSpec
import ZoneweaverAgent.MachineDisks
import ZoneweaverAgent.MachineDisksRuns
import ZoneweaverAgent.CloneSources
import ZoneweaverAgent.HostsYaml
import ZoneweaverAgent.StoredDocuments
import ZoneweaverAgent.StoredDocumentsRuns
import ZoneweaverAgent.MachineIdentity
import ZoneweaverAgent.MachineIdentityRuns
import ZoneweaverAgent.VnicNames
import ZoneweaverAgent.VnicNamesRuns
import ZoneweaverAgent.SuspendCheckpointRuns
import ZoneweaverAgent.NetworkPairing
import ZoneweaverAgent.NetworkPairingRuns
import ZoneweaverAgent.ZoneOrchestration
import ZoneweaverAgent.ZoneOrchestrationRuns
import ZoneweaverAgent.ZoneRecords
import ZoneweaverAgent.QemuGuestAgentRuns
import ZoneweaverAgent.TaskOutputRuns
import ZoneweaverAgent.ProvisioningProgramme
import ZoneweaverAgent.ProvisioningChainRuns
import ZoneweaverAgent.ProvisioningHistory
import ZoneweaverAgent.ProvisioningHistoryRuns
import ZoneweaverAgent.CommandCancellation
import ZoneweaverAgent.CommandCancellationRuns
import ZoneweaverAgent.RoutePattern
import ZoneweaverAgent.SettingsFiles
import ZoneweaverAgent.SettingsRuns
import ZoneweaverAgent.SettingsSerial
import ZoneweaverAgent.SettingsAtomic
import ZoneweaverAgent.VncSessions
import ZoneweaverAgent.VncSessionsRuns
import ZoneweaverAgent.DatasetTree
import ZoneweaverAgent.TemplateMove
import ZoneweaverAgent.TemplateMoveRuns
import ZoneweaverAgent.RouteTable
import ZoneweaverAgent.RolePolicy
import ZoneweaverAgent.RolePolicyAgreement
import ZoneweaverAgent.ApiKeys
import ZoneweaverAgent.ApiKeyRevocation
import ZoneweaverAgent.ApiKeyAdministration
import ZoneweaverAgent.PathTree
import ZoneweaverAgent.DatasetCleanup
import ZoneweaverAgent.DatasetCleanupRuns
import ZoneweaverAgent.FallibleRun
import ZoneweaverAgent.StorageCreation
import ZoneweaverAgent.StorageCreationRuns
import ZoneweaverAgent.PathScan
import ZoneweaverAgent.WsStreams
import ZoneweaverAgent.WsStreamScopes
import ZoneweaverAgent.ZoneRecords
import ZoneweaverAgent.SnapshotRotation
import ZoneweaverAgent.SnapshotRestore
import ZoneweaverAgent.ZvolUse
import ZoneweaverAgent.ParallelCleanup
import ZoneweaverAgent.ParallelCleanupRuns
import ZoneweaverAgent.TextLines
import ZoneweaverAgent.NatRules
import ZoneweaverAgent.NatRulesRuns
import ZoneweaverAgent.DiskLayout
import ZoneweaverAgent.ConfigTask
import ZoneweaverAgent.ConfigTaskRuns
import ZoneweaverAgent.EventLoopLeads
import ZoneweaverAgent.TaskQueueDispatch
import ZoneweaverAgent.ImmutableFields
import ZoneweaverAgent.AnswerMigrations
import ZoneweaverAgent.RenderedContext
import ZoneweaverAgent.Comparators
import ZoneweaverAgent.VersionOrder
import ZoneweaverAgent.BoxVersions
import ZoneweaverAgent.TextPatterns
import ZoneweaverAgent.ZloginPty
import ZoneweaverAgent.ZloginPtyRuns
import ZoneweaverAgent.AutomationBuffer
import ZoneweaverAgent.Utf8Decoding
import ZoneweaverAgent.ExecuteCommand
import ZoneweaverAgent.ZoneResources
import ZoneweaverAgent.ZoneResourcesRuns
import ZoneweaverAgent.PowerRequests
import ZoneweaverAgent.PowerRequestsSteps
import ZoneweaverAgent.PowerRequestsRuns
import ZoneweaverAgent.SessionBuffer
import ZoneweaverAgent.SecretsStore
import ZoneweaverAgent.MachineDiskResize
import ZoneweaverAgent.NetworkUsage
import ZoneweaverAgent.IpSuggestions
import ZoneweaverAgent.IpSuggestionsFree
import ZoneweaverAgent.ReflectedCrc
import ZoneweaverAgent.VncScreenshot
import ZoneweaverAgent.PosixShell
import ZoneweaverAgent.ZloginTemplate
import ZoneweaverAgent.FilePaths
import ZoneweaverAgent.DhcpLeases
import ZoneweaverAgent.ProvisioningTransport
import ZoneweaverAgent.DecimalNumerals
import ZoneweaverAgent.ZvolIo
import ZoneweaverAgent.ZvolIoCollector
import ZoneweaverAgent.ZvolIoCollectorRuns
import ZoneweaverAgent.Doubles
import ZoneweaverAgent.NumberTexts
import ZoneweaverAgent.DladmOutput
import ZoneweaverAgent.TextWords
import ZoneweaverAgent.HostConfig
import ZoneweaverAgent.TimeSampling
import ZoneweaverAgent.VncClients
import ZoneweaverAgent.VncClientsRuns
import ZoneweaverAgent.NumberLiterals
import ZoneweaverAgent.NumberPrinting
import ZoneweaverAgent.FieldDslCoercions
import ZoneweaverAgent.FieldDslCidr
import ZoneweaverAgent.MixedEquality
import ZoneweaverAgent.FieldDslEquality
import ZoneweaverAgent.TaskStream
import ZoneweaverAgent.TaskStreamRuns
import ZoneweaverAgent.TaskStreamDelivery
import ZoneweaverAgent.TaskQueueRestart
import ZoneweaverAgent.SnapshotSchedule
import ZoneweaverAgent.SnapshotScheduleRuns
import ZoneweaverAgent.CommandScript
import ZoneweaverAgent.ZloginRecipe
import ZoneweaverAgent.ZloginRecipeRuns
import ZoneweaverAgent.ZloginRecipeSession
import ZoneweaverAgent.ZloginExitCode
import ZoneweaverAgent.CommandPart
import ZoneweaverAgent.ZoneSetup
