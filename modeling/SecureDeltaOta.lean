import SecureDeltaOta.Crash.Program
import SecureDeltaOta.Crash.Simulation
import SecureDeltaOta.Memory.Bytes
import SecureDeltaOta.Memory.TwoSlot
import SecureDeltaOta.Memory.Struct
import SecureDeltaOta.Standard.Fips180
import SecureDeltaOta.Standard.Python
import SecureDeltaOta.Standard.ByteStuffing
import SecureDeltaOta.Shared.Digest
import SecureDeltaOta.Shared.Sha256Standard
import SecureDeltaOta.Shared.MemoryMap
import SecureDeltaOta.Shared.BootMetadata
import SecureDeltaOta.Shared.Image
import SecureDeltaOta.Shared.FirmwareContainer
import SecureDeltaOta.Crypto.EcdsaP256
import SecureDeltaOta.Patch.JojoDiff
import SecureDeltaOta.Device.Machine
import SecureDeltaOta.Device.Logic
import SecureDeltaOta.Storage.MetadataStorage
import SecureDeltaOta.Storage.ExternalFlash
import SecureDeltaOta.Storage.BackupImageStorage
import SecureDeltaOta.Storage.RecordStore
import SecureDeltaOta.Storage.RecordCommit
import SecureDeltaOta.Storage.RecordSharing
import SecureDeltaOta.Storage.CommitLog
import SecureDeltaOta.Boot.JanpatchPort
import SecureDeltaOta.Boot.JanpatchData
import SecureDeltaOta.Boot.JanpatchStatistics
import SecureDeltaOta.Boot.JanpatchMeaning
import SecureDeltaOta.Boot.JanpatchWords
import SecureDeltaOta.Boot.JanpatchAccesses
import SecureDeltaOta.Boot.JanpatchSafety
import SecureDeltaOta.Boot.SecureContainer
import SecureDeltaOta.Boot.ContainerAuthentication
import SecureDeltaOta.Boot.ContainerReconstruction
import SecureDeltaOta.Boot.ContainerProcessing
import SecureDeltaOta.Boot.ImageInstaller
import SecureDeltaOta.Boot.InstallerPages
import SecureDeltaOta.Boot.InstallerCopy
import SecureDeltaOta.Boot.Rollback
import SecureDeltaOta.Boot.Installation
import SecureDeltaOta.Boot.InstallerRun
import SecureDeltaOta.Boot.BootManager
import SecureDeltaOta.Boot.BootRun
import SecureDeltaOta.Boot.UpdateStages
import SecureDeltaOta.Boot.PowerLoss
import SecureDeltaOta.Boot.Requests
import SecureDeltaOta.Boot.InstallerRequests
import SecureDeltaOta.Boot.InstallerOutcomes
import SecureDeltaOta.Boot.BootLoop
import SecureDeltaOta.App.OtaPacket
import SecureDeltaOta.App.OtaReceiver
import SecureDeltaOta.App.Download
import SecureDeltaOta.App.Reception
import SecureDeltaOta.App.Packets
import SecureDeltaOta.System.Node
import SecureDeltaOta.System.DownloadIntegrity
import SecureDeltaOta.Protocol.Codecs
import SecureDeltaOta.Protocol.Stuffing
import SecureDeltaOta.Protocol.CodecAgreement
import SecureDeltaOta.Gateway.ArtifactCache
import SecureDeltaOta.Gateway.CacheFlash
import SecureDeltaOta.Gateway.CachePublication
import SecureDeltaOta.Container.Readers
import SecureDeltaOta.Container.ReaderAgreement
import SecureDeltaOta.Patch.JojoDiffPatch
import SecureDeltaOta.Patch.PatchAgreement
import SecureDeltaOta.Patch.PatchRoundTrip
import SecureDeltaOta.Standard.Primality
import SecureDeltaOta.Standard.JacobianCurve
import SecureDeltaOta.Crypto.U256Arithmetic
import SecureDeltaOta.Crypto.P256Field
import SecureDeltaOta.Crypto.U256InPlace
import SecureDeltaOta.Crypto.EcdsaPoints
import SecureDeltaOta.Crypto.EcdsaVerification
import SecureDeltaOta.Standard.ShiftRegister
import SecureDeltaOta.Protocol.Resynchronisation
import SecureDeltaOta.Protocol.BurstDetection
import SecureDeltaOta.Standard.Der
import SecureDeltaOta.Container.SignatureFormat
import SecureDeltaOta.Gateway.MqttOrchestrator
import SecureDeltaOta.Gateway.MqttReassembly
import SecureDeltaOta.Standard.NorFlash
import SecureDeltaOta.Storage.SpiDriver
import SecureDeltaOta.Storage.FlashEffects
import SecureDeltaOta.Storage.PartitionEffects
import SecureDeltaOta.System.SessionSoundness
import SecureDeltaOta.App.Redelivery
import SecureDeltaOta.System.Retransmission
import SecureDeltaOta.Boot.SignedRelease
import SecureDeltaOta.Boot.ReleaseRuns
import SecureDeltaOta.Boot.ExternalFaults
import SecureDeltaOta.App.ReceiverEffects
import SecureDeltaOta.System.CommitHistory
import SecureDeltaOta.System.UpdateHistory
import SecureDeltaOta.System.NodeStages
import SecureDeltaOta.System.AuthenticImages
import SecureDeltaOta.Gateway.UartOtaClient
import SecureDeltaOta.System.TransferPlan
