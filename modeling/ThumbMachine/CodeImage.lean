/-
Module: ThumbMachine.CodeImage
Purpose: The snapshot of a code region that instructions are fetched from. It is taken once; later
  changes of memory do not reach it.
Main exports: CodeImage, CodeImage.build, CodeImage.fetch
-/
import ThumbMachine.Memory.Basic

namespace ThumbMachine

/-- The instruction words of a region, as they were when the snapshot was taken. -/
structure CodeImage where
  /-- The region they come from. -/
  region : Region
  /-- The first even address of the region. -/
  base : Word
  /-- One word for each even address from `base` on that has both its bytes in the region. -/
  halfwords : Array Halfword

namespace CodeImage

/-- Takes the snapshot of the region that holds two bytes at `pc`. -/
def build (memory : Memory) (pc : Word) : Except InvalidAccess CodeImage := do
  let region ← memory.findRegion pc 2
  let base := (region.start.toNat + 1) / 2 * 2
  let count := (region.stop - base) / 2
  let halfwords ← (List.range count).mapM fun index =>
    memory.readHalfword (BitVec.ofNat 32 (base + 2 * index))
  return { region, base := BitVec.ofNat 32 base, halfwords := halfwords.toArray }

/-- The instruction word at an address: there is one at every even address that the snapshot
covers. -/
def fetch (image : CodeImage) (pc : Word) : Except InvalidAccess Halfword :=
  let distance := pc.toNat - image.base.toNat
  if image.base.toNat ≤ pc.toNat ∧ distance % 2 = 0 then
    match image.halfwords[distance / 2]? with
    | some word => .ok word
    | none => .error (InvalidAccess.of pc 2)
  else
    .error (InvalidAccess.of pc 2)

end CodeImage

end ThumbMachine
