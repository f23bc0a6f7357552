import NanoVllm.Model.Channel
import NanoVllm.Shared.Bytes

set_option autoImplicit false

namespace NanoVllm

open Python Raising Bytes

structure SharedMemory where
  buf : List UInt8
  event : List Bool
  size : buf.length = 2 ^ 20

namespace SharedMemory

-- `shm.buf[i:j] = data`
def assign (i j : Nat) (data : List UInt8) : EStateM PyError SharedMemory Unit := fun s =>
  if same : data.length = (slice s.buf i j).length then
    .ok () { s with
      buf := splice s.buf i data
      size := (length_splice same).trans s.size }
  else .error (.valueError "memoryview assignment: lvalue and rvalue have different structures") s

-- `n.to_bytes(4, "little")`
def lengthBytes (n : Nat) : Except PyError (List UInt8) := do
  require (n < 256 ^ 4) (PyError.overflowError "int too big to convert")
  pure (toBytes 4 n)

variable (worldSize rank : Nat)

-- `dumps` stands for `pickle.dumps` of the list with the method's name and the arguments.
def writeShm (dumps : Command → List UInt8) (command : Command) : EStateM PyError SharedMemory Unit := do
  require (1 < worldSize ∧ rank = 0) (ModelRunner.raised "self.world_size > 1 and self.rank == 0")
  let data := dumps command
  let n := data.length
  let length ← ofExcept (lengthBytes n)
  assign 0 4 length
  assign 4 (n + 4) data
  modify (fun s => { s with event := s.event.map (fun _ => true) })

-- `none` is a worker that still waits for its event.
def readShm {α : Type} (loads : List UInt8 → Except PyError α) : EStateM PyError SharedMemory (Option α) := do
  require (1 < worldSize ∧ 0 < rank) (ModelRunner.raised "self.world_size > 1 and self.rank > 0")
  let s ← get
  if s.event[rank - 1]? = some true then
    let n := fromBytes (slice s.buf 0 4)
    let value ← ofExcept (loads (slice s.buf 4 (n + 4)))
    modify (fun s => { s with event := s.event.set (rank - 1) false })
    pure (some value)
  else pure none

end SharedMemory

end NanoVllm
