import Vllm.Core.EncoderSchedule
import Vllm.Core.RequestStep
import Vllm.Core.HashSeparation
import Vllm.Core.HashResume
import Vllm.Core.StreamingSession
import Vllm.Core.HashIndex
import Vllm.Sample.GreedyDecoding
import Vllm.Sample.TargetDistribution
import Vllm.Sample.SpecConstraints
import Vllm.Core.RequestQueue
import Vllm.Core.QueuePartition
import Vllm.Core.ScheduleOutput
import Vllm.Core.EventMirror
import Vllm.Core.ReasoningEnd
import Vllm.Core.MaskedLogits
import Vllm.Worker.ProcessorRun
import Vllm.Frontend.ParallelSampling
import Vllm.Frontend.ProcessorIndexes
import Vllm.Library.Countdown
import Vllm.Distributed.MultiConnector
import Vllm.Distributed.ConnectorRelease
import Vllm.Distributed.ExpertExchange
import Vllm.Distributed.RebalanceRun
import Vllm.Offload.ARCAccounting
import Vllm.Offload.StoreAtomicity
import Vllm.Core.LengthRun
import Vllm.Core.EncoderAccounts
import Vllm.Core.HybridHits
import Vllm.Worker.GdnInitialState
import Vllm.Worker.BatchAgreement
import Vllm.Core.AutoFit
import Vllm.Distributed.RingAllocator
import Vllm.Worker.ReorderedSplit
import Vllm.Worker.SlotBijection
import Vllm.Worker.LocalAttentionMask
import Vllm.Frontend.StopGrouping
import Vllm.Frontend.DeltaRun
import Vllm.Worker.GdnTokens
import Vllm.Library.Borders
import Vllm.Sample.NgramProposer
import Vllm.Sample.NgramKernel
import Vllm.Sample.NgramAgreement
import Vllm.Distributed.ReplicateExperts
import Vllm.Distributed.BuddyPoolRun
import Vllm.Multimodal.LRURun
import Vllm.Distributed.BalancedPacking
import Vllm.Library.Argsort
import Vllm.Library.IndexMaps
import Vllm.Distributed.RebalanceMaps
import Vllm.Library.SortedSearch
import Vllm.Worker.UBatchAttention
import Vllm.Frontend.ReasoningAgreement
import Vllm.Multimodal.PromptOrder
import Vllm.Distributed.BroadcastProgress
import Vllm.Frontend.UtilityResults
import Vllm.Distributed.WaveSafety
