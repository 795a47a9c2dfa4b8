/-
Module: ThumbMachine.Processor.Basic
Purpose: The processor as its host sees it: run a number of instructions, look at what was executed.
Main exports: Processor, Processor.create, Processor.run
-/
import ThumbMachine.Processor.Batch

namespace ThumbMachine

/-- A processor between two batches. -/
structure Processor (σ : Type) where
  host : Host σ
  /-- The code snapshot, taken by the first batch that finds its code. -/
  image : Option CodeImage
  /-- Units charged since creation. -/
  executed : Nat
  history : History

namespace Processor

variable {σ : Type}

/-- A processor that has not run. -/
def create (host : Host σ) : Processor σ :=
  { host, image := none, executed := 0, history := Recent.empty }

/-- The region that code is fetched from, once the snapshot is taken. -/
def codeRegion (processor : Processor σ) : Option Region := processor.image.map CodeImage.region

/-- The code snapshot for a batch at `pc`: the one there is, or a new one. -/
def imageAt (processor : Processor σ) (pc : Word) : Except InvalidAccess CodeImage :=
  match processor.image with
  | some image => .ok image
  | none => CodeImage.build processor.host.memory pc

/-- The batch that a processor starts. -/
def batch (processor : Processor σ) (count : Nat) : Batch σ :=
  { core := Core.ofFile processor.host.registers
    host := processor.host
    history := processor.history
    budget := count
    refunded := false
    retired := 0 }

/-- Ends a batch: the core is packed into the register store, on every way out. -/
def absorb (processor : Processor σ) (image : Option CodeImage) (batch : Batch σ) : Processor σ :=
  { host := { batch.host with registers := batch.core.toFile }
    image
    executed := processor.executed + batch.retired
    history := batch.history }

/-- Runs up to `count` instructions. A count of zero fetches nothing and takes no snapshot. -/
def run (processor : Processor σ) (handler : Handler σ) (count : Nat) : Processor σ × Ending :=
  let batch := processor.batch count
  if count = 0 then (processor.absorb processor.image batch, .exhausted)
  else
    match processor.imageAt batch.core.pc with
    | .error access =>
        (processor.absorb processor.image batch, .faulted (.invalidAccess access))
    | .ok image =>
        let (last, ending) := batch.run image handler
        (processor.absorb (some image) last, ending)

end Processor

end ThumbMachine
