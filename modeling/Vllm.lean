import Vllm.KVCache.HybridExact
import Vllm.KVCache.MambaCapacity
import Vllm.KVCache.CacheEvents
import Vllm.Sched.DeferredFrees
import Vllm.Output.BothModes
import Vllm.Offload.P2P.ServerRuns
import Vllm.Offload.P2P.DrainJobs
import Vllm.Offload.CPU.ManagerRuns
import Vllm.Multimodal.MirrorRuns
import Vllm.StructuredOutput.BitmaskBatch
import Vllm.Worker.InputBatchRuns
import Vllm.StructuredOutput.AdvanceRuns
import Vllm.KVCache.ReachableMask
import Vllm.KVCache.HybridLongest
import Vllm.KVCache.EagleVerified
import Vllm.Sched.LengthLimits
import Vllm.Sched.RunningTurns
import Vllm.Sched.PerGroupHits
import Vllm.Offload.CPU.EvictionComplete
import Vllm.Eplb.Replicate
import Vllm.Reasoning.Delimited
import Vllm.SpecDecode.NgramProposer
