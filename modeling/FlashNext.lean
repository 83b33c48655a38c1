import FlashNext.Verified.AbsMax
import FlashNext.Verified.BFloat16
import FlashNext.Verified.BFloat16Conversion
import FlashNext.Verified.BinaryFormats
import FlashNext.Verified.BlockRanges
import FlashNext.Verified.CachedFiles
import FlashNext.Verified.CasAdd
import FlashNext.Verified.Checked
import FlashNext.Verified.CheckedState
import FlashNext.Verified.DelayLine
import FlashNext.Verified.GridSums
import FlashNext.Verified.GroupByKey
import FlashNext.Verified.Groups
import FlashNext.Verified.HashChain
import FlashNext.Verified.IssuedIds
import FlashNext.Verified.Launch
import FlashNext.Verified.LayerTuples
import FlashNext.Verified.LinkedNodes
import FlashNext.Verified.NibbleWords
import FlashNext.Verified.OnlineSoftmax
import FlashNext.Verified.OrderedDicts
import FlashNext.Verified.PackedPages
import FlashNext.Verified.PyLists
import FlashNext.Verified.Ragged
import FlashNext.Verified.RangeTable
import FlashNext.Verified.RingWindow
import FlashNext.Verified.RoundNearest
import FlashNext.Verified.RoundRobin
import FlashNext.Verified.RowMajor
import FlashNext.Verified.Runs
import FlashNext.Verified.SampleShares
import FlashNext.Verified.Scatter
import FlashNext.Verified.SignedWrap
import FlashNext.Verified.StepRuns
import FlashNext.Verified.Strided
import FlashNext.Verified.Varlen
import FlashNext.Ports.AsyncInputIds
import FlashNext.Ports.AsyncInputIdsExact
import FlashNext.Ports.AsyncRun
import FlashNext.Ports.AsyncRunAgreement
import FlashNext.Ports.AsyncRunReady
import FlashNext.Ports.AsyncRunUpdate
import FlashNext.Ports.AsyncRunWorld
import FlashNext.Ports.BlockHash
import FlashNext.Ports.BlockHashIncremental
import FlashNext.Ports.BlockHashIsolation
import FlashNext.Ports.BlockHashKeys
import FlashNext.Ports.CsaLinear
import FlashNext.Ports.CsaLinearGroups
import FlashNext.Ports.CsaLinearPlan
import FlashNext.Ports.CsaLinearRank
import FlashNext.Ports.CsaLinearSafety
import FlashNext.Ports.DecodeLookup
import FlashNext.Ports.DecodeLookupAgreement
import FlashNext.Ports.DecodeStore
import FlashNext.Ports.DenseInt8
import FlashNext.Ports.DenseInt8Exact
import FlashNext.Ports.DraftInputs
import FlashNext.Ports.DraftInputsPrefill
import FlashNext.Ports.DraftInputsPropose
import FlashNext.Ports.DraftInputsSteps
import FlashNext.Ports.FreeQueue
import FlashNext.Ports.FreeQueueRefinement
import FlashNext.Ports.FreeQueueRuns
import FlashNext.Ports.GdnBatch
import FlashNext.Ports.GdnForward
import FlashNext.Ports.GdnIsolation
import FlashNext.Ports.GdnRecurrence
import FlashNext.Ports.GdnRouting
import FlashNext.Ports.GdnStages
import FlashNext.Ports.GraphCapture
import FlashNext.Ports.GraphDispatch
import FlashNext.Ports.GraphDispatchExact
import FlashNext.Ports.GraphDispatchTable
import FlashNext.Ports.GraphReplay
import FlashNext.Ports.HashView
import FlashNext.Ports.HashViewExact
import FlashNext.Ports.HybridBlocks
import FlashNext.Ports.HybridBlocksExact
import FlashNext.Ports.HyperConnection
import FlashNext.Ports.HyperConnectionSplit
import FlashNext.Ports.KvAdmission
import FlashNext.Ports.KvAutoFit
import FlashNext.Ports.KvCache
import FlashNext.Ports.KvCacheConfigs
import FlashNext.Ports.KvCacheConfigsRun
import FlashNext.Ports.KvCacheConfigsSafety
import FlashNext.Ports.KvCacheLayout
import FlashNext.Ports.KvCacheWorker
import FlashNext.Ports.KvGroups
import FlashNext.Ports.KvGroupsCsa
import FlashNext.Ports.KvGroupsHidden
import FlashNext.Ports.KvGroupsHybrid
import FlashNext.Ports.KvGroupsPartition
import FlashNext.Ports.KvGroupsSpecs
import FlashNext.Ports.KvGroupsTuples
import FlashNext.Ports.KvGroupsUniform
import FlashNext.Ports.KvScheduler
import FlashNext.Ports.MoeBuffers
import FlashNext.Ports.MoeDequant
import FlashNext.Ports.MoeFused
import FlashNext.Ports.MoeFusedExact
import FlashNext.Ports.MoeGemm
import FlashNext.Ports.MoeGemmLaunch
import FlashNext.Ports.MoeGemmLoop
import FlashNext.Ports.MtpQuant
import FlashNext.Ports.MtpQuantExact
import FlashNext.Ports.NgramContext
import FlashNext.Ports.PaddedDrafts
import FlashNext.Ports.PaddedDraftsAgree
import FlashNext.Ports.PaddedDraftsInputs
import FlashNext.Ports.PaddedDraftsPropose
import FlashNext.Ports.PaddedDraftsSteps
import FlashNext.Ports.PleDisk
import FlashNext.Ports.PleDiskCrash
import FlashNext.Ports.PleHandoff
import FlashNext.Ports.PleHandoffInvariant
import FlashNext.Ports.PleHandoffSafety
import FlashNext.Ports.PleHandoffSteps
import FlashNext.Ports.PleRegistration
import FlashNext.Ports.PleRegistrationExact
import FlashNext.Ports.PpRelay
import FlashNext.Ports.PpRelayAgreement
import FlashNext.Ports.PpRelayCollectives
import FlashNext.Ports.PpRelayInvariant
import FlashNext.Ports.PpRelaySampling
import FlashNext.Ports.PpRelayState
import FlashNext.Ports.PpRelaySteps
import FlashNext.Ports.PromptLogprobs
import FlashNext.Ports.PromptLogprobsExact
import FlashNext.Ports.PromptLogprobsRun
import FlashNext.Ports.QsaAttention
import FlashNext.Ports.QsaAttentionExact
import FlashNext.Ports.QsaCompress
import FlashNext.Ports.QsaCompressExact
import FlashNext.Ports.QsaCompressSafety
import FlashNext.Ports.QsaCompressSteps
import FlashNext.Ports.QsaSelect
import FlashNext.Ports.QsaSelectBatch
import FlashNext.Ports.QsaSelectRows
import FlashNext.Ports.QsaStaged
import FlashNext.Ports.QsaStagedExact
import FlashNext.Ports.QsaStagedShares
import FlashNext.Ports.RowGather
import FlashNext.Ports.RowGatherExact
import FlashNext.Ports.SpecDecode
import FlashNext.Ports.SpecDecodeAsync
import FlashNext.Ports.SpecDecodeExact
import FlashNext.Ports.WarmupBlocks
import FlashNext.Ports.WarmupBlocksSafe
import FlashNext.Ports.WarmupTables
