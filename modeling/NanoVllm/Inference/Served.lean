import NanoVllm.Inference.Reference
import NanoVllm.Runs.Ample

set_option autoImplicit false

namespace NanoVllm

open Python Raising Torch Scheduler

section Served

variable {R : Type} [CommRing R] {xxh64 : XxHash} {tokenizer : Tokenizer} {config : Config} {d : Deployment R config}
  {pick : (vocabSize : Nat) → (Fin vocabSize → R) → Token} {caches : List (Nat → KVCaches R)} {s t : Scheduler}
  {batch : List SeqId} {ids : Finset SeqId} {host : Host R} {requests : List Request}
  {reports : List (SeqId × List Token)}

end Served

end NanoVllm
