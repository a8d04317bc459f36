import ElusivSdk.AccountReaders.ChunkSearch
import ElusivSdk.AccountReaders.FeeAccounts
import ElusivSdk.AccountReaders.IndexOrder
import ElusivSdk.AccountReaders.SearchSoundness
import ElusivSdk.AccountReaders.StorageAccountReader
import ElusivSdk.AccountReaders.TreeSearch
import ElusivSdk.Caching.CacherCalls
import ElusivSdk.Caching.IndexedMultiCacher
import ElusivSdk.Chain.Growth
import ElusivSdk.Chain.History
import ElusivSdk.ClientCrypto.CommitmentMetadata
import ElusivSdk.ClientCrypto.Encryption
import ElusivSdk.Compliance.Disclosure
import ElusivSdk.Compliance.KeyVersions
import ElusivSdk.Compliance.ViewingAgreement
import ElusivSdk.Compliance.ViewingKey
import ElusivSdk.Encoding.Base58
import ElusivSdk.Encoding.BigIntText
import ElusivSdk.Encoding.Text
import ElusivSdk.Library.BoundedCounter
import ElusivSdk.Library.Descending
import ElusivSdk.Library.FirstMatch
import ElusivSdk.Library.Format
import ElusivSdk.Library.HashTree
import ElusivSdk.Library.Json
import ElusivSdk.Library.KeyHierarchy
import ElusivSdk.Library.Paging
import ElusivSdk.Library.Program
import ElusivSdk.Library.SkippingScan
import ElusivSdk.Library.SparseArray
import ElusivSdk.Library.Transition
import ElusivSdk.ParamManagers.ActiveCommitments
import ElusivSdk.ParamManagers.CommitmentInsertion
import ElusivSdk.ParamManagers.CommitmentManager
import ElusivSdk.ParamManagers.ConfirmedMarks
import ElusivSdk.ParamManagers.Fee.FeeCalculator
import ElusivSdk.ParamManagers.Fee.FeeManager
import ElusivSdk.ParamManagers.Fee.FeeUtils
import ElusivSdk.ParamManagers.Fee.SendFee
import ElusivSdk.ParamManagers.Fee.Subvention
import ElusivSdk.ParamManagers.InterleavedOpenings
import ElusivSdk.ParamManagers.Openings
import ElusivSdk.ParamManagers.StartIndices
import ElusivSdk.ParamManagers.TreeManager
import ElusivSdk.Public.ElusivViewer
import ElusivSdk.Public.PrivateHistory
import ElusivSdk.Public.SendChecks
import ElusivSdk.Public.SendTracking
import ElusivSdk.Public.SignatureCollection
import ElusivSdk.Public.TopupEstimate
import ElusivSdk.Public.TopupSigning
import ElusivSdk.Public.TrackedSend
import ElusivSdk.Public.Withdraw
import ElusivSdk.Transactions.Instructions.ComputeHashInstruction
import ElusivSdk.Transactions.Instructions.FinalizeVerificationInstruction
import ElusivSdk.Transactions.Instructions.InitVerificationCodec
import ElusivSdk.Transactions.Instructions.InitVerificationInstruction
import ElusivSdk.Transactions.Instructions.StoreInstruction
import ElusivSdk.Transactions.RawTransaction
import ElusivSdk.Transactions.TxParsing.InstructionFormats
import ElusivSdk.Transactions.TxParsing.InstructionParsing
import ElusivSdk.Transactions.TxParsing.TransactionParsing
import ElusivSdk.TxBuilding.Circuits
import ElusivSdk.TxBuilding.InputCommitments
import ElusivSdk.TxBuilding.InstructionBuilding
import ElusivSdk.TxBuilding.KeyStreams
import ElusivSdk.TxBuilding.LandedCommitments
import ElusivSdk.TxBuilding.NetworkFee
import ElusivSdk.TxBuilding.RemoteParamFetching
import ElusivSdk.TxBuilding.SendCharge
import ElusivSdk.TxBuilding.SendRoundTrip
import ElusivSdk.TxBuilding.SendSerialization
import ElusivSdk.TxBuilding.SequentialChain
import ElusivSdk.TxBuilding.SequentialRuns
import ElusivSdk.TxBuilding.SharedWallet
import ElusivSdk.TxBuilding.SpentOnce
import ElusivSdk.TxBuilding.StaleReads
import ElusivSdk.TxBuilding.StoreRequest
import ElusivSdk.TxBuilding.TopupSequence
import ElusivSdk.TxBuilding.TransactionBuilding
import ElusivSdk.TxBuilding.ValueConservation
import ElusivSdk.TxBuilding.WardenInstructions
import ElusivSdk.TxBuilding.WardenSerialization
import ElusivSdk.TxManagers.AbstractTxManager
import ElusivSdk.TxManagers.ActiveTransactions
import ElusivSdk.TxManagers.CacheCoherence
import ElusivSdk.TxManagers.CallSteps
import ElusivSdk.TxManagers.ConcurrentCalls
import ElusivSdk.TxManagers.ConcurrentInvariant
import ElusivSdk.TxManagers.ConcurrentRuns
import ElusivSdk.TxManagers.ErrorIsolation
import ElusivSdk.TxManagers.FetchOrder
import ElusivSdk.TxManagers.FetchSelection
import ElusivSdk.TxManagers.IdentifierTxFetcher
import ElusivSdk.TxManagers.PairedMessages
import ElusivSdk.TxManagers.PrivateBalance
import ElusivSdk.TxManagers.Query
import ElusivSdk.TxManagers.RangeFetching
import ElusivSdk.TxManagers.RawChain
import ElusivSdk.TxManagers.Regrouping
import ElusivSdk.TxManagers.ResponseConverter
import ElusivSdk.TxManagers.SelectedPart
import ElusivSdk.TxManagers.SendPairing
import ElusivSdk.TxManagers.TransactionCacher
import ElusivSdk.TxManagers.TransactionManager
import ElusivSdk.TxManagers.UnspentSelection
import ElusivSdk.TxSending.TransactionSender
import ElusivSdk.TxSending.WardenCommunication
import ElusivSdk.Types
import ElusivSdk.Utils.GeneralSet
import ElusivSdk.Utils.IndexConverter
import ElusivSdk.Utils.PubKeyUtils
