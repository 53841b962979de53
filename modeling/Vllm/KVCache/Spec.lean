import Vllm.Lib.PySeq

/-! KV-cache specs (`vllm/v1/kv_cache_interface.py`): block size, kind of attention,
and the parameters the managers read. -/
namespace Vllm.KVCache

inductive MambaCacheMode
  | none
  | all
  | align
  deriving DecidableEq, Repr

inductive SpecKind
  | fullAttention
  | rswa (rswaWindow : Nat)
  | slidingWindow (slidingWindow : Nat)
  | chunkedLocal (attentionChunkSize : Nat)
  | mamba (mode : MambaCacheMode) (numSpeculativeBlocks : Nat)
  | crossAttention
  deriving DecidableEq, Repr

/-- A spec. `layout` stands for the fields (heads, head size, dtype, padding) that only
take part in the comparison of specs. -/
structure KVCacheSpec where
  blockSize : Nat
  kind : SpecKind
  layout : Nat := 0
  deriving DecidableEq, Repr

/-- `isinstance(spec, FullAttentionSpec)`; the R-SWA spec is a subclass of it. -/
def KVCacheSpec.isFullAttention (spec : KVCacheSpec) : Bool :=
  match spec.kind with
  | .fullAttention | .rswa _ => true
  | _ => false

end Vllm.KVCache
