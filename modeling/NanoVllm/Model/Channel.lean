import NanoVllm.Model.LLMEngine
import NanoVllm.Shared.Interleave

set_option autoImplicit false

namespace NanoVllm

open Python

inductive Command where
  | run (seqs : List Sequence) (numPrefillSeqs : Nat)
  | exit

namespace Command

def isExit : Command → Bool
  | .exit => true
  | .run _ _ => false

-- Rank 0 returns from the command only after every worker has started it: `exit` has a barrier, and
-- the tokens of a `run` are read back if there are any.
def synchronises : Command → Bool
  | .exit => true
  | .run seqs _ => seqs.any ModelRunner.needsLogits

end Command

structure Pickle (α β : Type) where
  dumps : α → List β
  loads : List β → Option α
  loads_dumps : ∀ a, loads (dumps a) = some a

-- Where rank 0 is in `call`.
inductive Caller where
  | ready
  | writeLength (command : Command)
  | writeData (command : Command)
  | setEvents (command : Command) (next : Nat)
  | executing (command : Command)

-- Where a worker is in `loop`. `issue` tells which command of rank 0 it read.
inductive Looper where
  | waiting
  | readLength
  | readData (n : Nat)
  | clearing (command : Command) (issue : Nat)
  | calling (command : Command) (issue : Nat)
  | executing (command : Command)
  | exited
  -- `pickle.loads` raised.
  | raised

structure Worker where
  looper : Looper := .waiting
  event : Bool := false
  executed : List Command := []
  started : List Nat := []

/-- Rank 0, the shared memory and the workers. `writer` is the command whose data was written last. -/
structure Channel (β : Type) where
  todo : List Command
  issued : List Command := []
  caller : Caller := .ready
  length : Nat := 0
  buf : List β := []
  writer : Nat := 0
  worker : Nat → Worker := fun _ => {}

inductive Party where
  | rankZero
  | worker (w : Nat)

namespace Channel

variable {β : Type} (pickle : Pickle Command β) (workers : Nat)

def setWorker (s : Channel β) (w : Nat) (worker : Worker) : Channel β :=
  { s with worker := Function.update s.worker w worker }

def setEvent (s : Channel β) (w : Nat) : Channel β := s.setWorker w { s.worker w with event := true }

def everyStarted (s : Channel β) : Bool :=
  (List.range workers).all (fun w => decide (s.issued.length - 1 ∈ (s.worker w).started))

-- A step of `call` on rank 0, which writes only when there are workers.
def callStep (s : Channel β) : Option (Channel β) :=
  match s.caller with
  | .ready => match s.todo with
    | [] => none
    | command :: todo => some { s with
        todo
        issued := s.issued ++ [command]
        caller := if workers = 0 then .executing command else .writeLength command }
  | .writeLength command => some { s with
      length := (pickle.dumps command).length
      caller := .writeData command }
  | .writeData command => some { s with
      buf := pickle.dumps command ++ s.buf.drop (pickle.dumps command).length
      writer := s.issued.length - 1
      caller := .setEvents command 0 }
  | .setEvents command next =>
      if next < workers then some { s.setEvent next with caller := .setEvents command (next + 1) }
      else some { s with caller := .executing command }
  | .executing command =>
      if command.synchronises && !s.everyStarted workers then none
      else some { s with caller := .ready }

-- A step of `loop` on a worker: `read_shm` waits, reads and clears, then `call` starts the command.
def loopStep (length : Nat) (buf : List β) (writer : Nat) (worker : Worker) : Option Worker :=
  match worker.looper with
  | .waiting => if worker.event then some { worker with looper := .readLength } else none
  | .readLength => some { worker with looper := .readData length }
  | .readData n => match pickle.loads (buf.take n) with
    | some command => some { worker with looper := .clearing command writer }
    | none => some { worker with looper := .raised }
  | .clearing command issue => some { worker with
      looper := .calling command issue
      event := false }
  | .calling command issue => some { worker with
      looper := .executing command
      executed := worker.executed ++ [command]
      started := worker.started ++ [issue] }
  | .executing command => some { worker with looper := if command.isExit then .exited else .waiting }
  | .exited => none
  | .raised => none

def step (p : Party) (s : Channel β) : Option (Channel β) :=
  match p with
  | .rankZero => s.callStep pickle workers
  | .worker w =>
      if w < workers then (loopStep pickle s.length s.buf s.writer (s.worker w)).map (s.setWorker w) else none

-- The channel before rank 0 issues the first of the commands.
def start (commands : List Command) : Channel β := { todo := commands }

end Channel

end NanoVllm
