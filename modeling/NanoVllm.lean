import NanoVllm.Runs.Phase
import NanoVllm.Runs.Termination
import NanoVllm.Runs.Serving
import NanoVllm.Runs.Ranks
import NanoVllm.Runs.Graph
import NanoVllm.Runs.Addressable
import NanoVllm.Runs.Slots
import NanoVllm.Runs.Arrival
import NanoVllm.Parallel.Mlp
import NanoVllm.Parallel.Attention
import NanoVllm.Parallel.Delivery
import NanoVllm.Parallel.Vocab
import NanoVllm.Blocks.Agree
import NanoVllm.Blocks.Chunked
import NanoVllm.Attention.Split
import NanoVllm.Runs.Sampling
import NanoVllm.Runs.Warmup
import NanoVllm.Runs.Hits
import NanoVllm.Runs.SameStep
import NanoVllm.Kernels.SiluAndMul
import NanoVllm.Kernels.KVCacheStore
import NanoVllm.Blocks.Pickled
import NanoVllm.Parallel.Capacity
import NanoVllm.Bench.Conservation
import NanoVllm.Inference.Served
import NanoVllm.Loading.Served
import NanoVllm.Inference.Selected
import NanoVllm.Inference.Replayed
