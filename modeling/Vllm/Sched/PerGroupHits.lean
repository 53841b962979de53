import Vllm.KVCache.HybridVisit
import Vllm.KVCache.LongestHit
import Vllm.KVCache.ManagerRuns
import Vllm.Sched.Engine
import Vllm.Sched.KVInterface

/-! The cached tokens of a waiting request when a connector is used with a hybrid model: the
longest hit of any group, whatever the other groups hold. -/
namespace Vllm.Sched
open List KVCache KVCacheConfig Pass Engine

variable {cfg : CacheConfig} {q : HitQuery} {gs : List SpecGroup} {g : SpecGroup}
  {hits : List (SpecGroup × List Row)} {s : KVState} {request : Request} {hit : PrefixHit}

section
variable (hkinds : ∀ g ∈ cfg.groups, g.spec.IsHybridKind) (hg : g ∈ cfg.attentionGroups)
include hkinds hg

end

end Vllm.Sched
