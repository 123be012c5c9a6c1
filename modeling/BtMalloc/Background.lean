import BtMalloc.Registry

/-!
# Backing store (`background.c`)

The memfd offsets of mesh mode, mapping and releasing chunks, the warm-chunk stack and the dispose
queue, and the maintenance thread. The thread's loops are cut into the steps between which other
threads can run; `BgPc` says where it is.
-/

namespace BtMalloc

open Word

/-- `BTM_WARM_LOW`. -/
def warmLow : ℤ := 8

/-- `BTM_WARM_HIGH`. -/
def warmHigh : ℤ := 64

/-- `BTM_PAGE_NONE`. -/
def pageNone : ℕ := 0xFFFF

/-- `kDataOff`. -/
def kDataOff : ℕ := dataStartPage * pageSize

/-- `kData`. -/
def kData : ℕ := chunkSize - dataStartPage * pageSize

/-! ## memfd offsets -/

/-- `memfd_alloc_off`; `none` is `UINT64_MAX`. A refused `ftruncate` undoes the bump. -/
def memfdAllocOff (k : Kernel) (h : Heap) : Option ℕ × Heap :=
  match h.memfdFree with
  | off :: rest => (some off, { h with memfdFree := rest })
  | [] =>
    let bump := h.memfdBump + chunkSize
    if h.memfdSize < bump then
      let want := max (h.memfdSize + 256 * chunkSize) bump
      if k.trunc && want.blt (2 ^ 63) then
        (some h.memfdBump, { h with memfdBump := bump, memfdSize := want })
      else (none, h)
    else (some h.memfdBump, { h with memfdBump := bump })

/-- `memfd_free_off`: push the offset, growing the stack if it is full; dropped if it cannot grow. -/
def memfdFreeOff (k : Kernel) (h : Heap) (off : ℕ) : Heap :=
  let h :=
    if h.memfdFree.length = h.memfdFreeCap then
      let ncap := if h.memfdFreeCap = 0 then 64 else h.memfdFreeCap * 2 % 2 ^ 32
      if k.stack off && (0).blt ncap then { h with memfdFreeCap := ncap } else h
    else h
  if h.memfdFree.length < h.memfdFreeCap then { h with memfdFree := off :: h.memfdFree } else h

/-! ## Releasing pages -/

/-- `btm_release_pages`. -/
def btmReleasePages (cfg : Config) (h : Heap) (vaddr memfdOff len : ℕ) : Heap :=
  (if cfg.meshMode then h.punchHole memfdOff len else h.madviseDontneed vaddr len).note
    (.release (vaddr / pageSize) (len / pageSize))

/-- `chunk_decommit`. -/
def chunkDecommit (cfg : Config) (h : Heap) (c : ℕ) : Heap :=
  btmReleasePages cfg h (c + kDataOff) ((h.chunks c).memfdOff + kDataOff) kData

/-- One chunk of `decommit_batch`. With the ring the released range starts at page 1, behind the
    chunk header, and not at the first data page. -/
def decommitOne (cfg : Config) (ring : Bool) (h : Heap) (c : ℕ) : Heap :=
  if cfg.meshMode || !ring then chunkDecommit cfg h c
  else (h.madviseDontneed (c + pageSize) kData).note
    (.release ((c + pageSize) / pageSize) (kData / pageSize))

/-! ## Mapping chunks -/

/-- `map_fresh`: reserve twice the size, keep the aligned half, back it and register it. -/
def mapFresh (cfg : Config) (k : Kernel) (h : Heap) : Option ℕ × Heap :=
  match if cfg.meshMode then memfdAllocOff k h else (some 0, h) with
  | (none, h) => (none, h)
  | (some off, h) =>
    let giveBack (h : Heap) : Heap := if cfg.meshMode then memfdFreeOff k h off else h
    let want := chunkSize * 2
    match mmapResult h k.chunk want with
    | none => (none, giveBack h)
    | some raw =>
      let h := h.mmapAnon raw want
      let base := maskDown (raw + chunkSize - 1) chunkSize
      let front := base - raw
      let h := if front = 0 then h else h.munmap raw front
      let back := want - front - chunkSize
      let h := if back = 0 then h else h.munmap (base + chunkSize) back
      if k.fixed then
        let h := if cfg.meshMode then h.mmapMemfd base chunkSize off else h.mmapAnon base chunkSize
        let h := btmRegistryInsert k h base chunkSize base
        (some base, h.modChunk base fun x => { x with memfdOff := off })
      else (none, giveBack (h.munmap base chunkSize))

/-- `chunk_init_header`. -/
def chunkInitHeader (h : Heap) (c : ℕ) (pool : PoolId) : Heap :=
  h.modChunk c fun x =>
    { x with
      pool := pool, next := none, prev := none, nextFreePage := dataStartPage, liveSlabs := 0,
      pageOwner := fun _ => pageNone }

/-- Push a chunk on the warm stack. -/
def warmPush (h : Heap) (c : ℕ) : Heap :=
  { h.modChunk c fun x => { x with next := h.warmHead } with
    warmHead := some c, warmCount := h.warmCount + 1 }

/-- Unregister and unmap a chunk, and recycle its memfd offset. -/
def chunkTrim (cfg : Config) (k : Kernel) (h : Heap) (c : ℕ) : Heap :=
  let off := (h.chunks c).memfdOff
  let h := btmRegistryRemove k h c chunkSize
  let h := h.munmap c chunkSize
  if cfg.meshMode then memfdFreeOff k h off else h

/-- `btm_chunk_obtain`: a warm chunk, or a fresh mapping when there is none. -/
def btmChunkObtain (cfg : Config) (k : Kernel) (h : Heap) (pool : PoolId) : Option ℕ × Heap :=
  let r : Option ℕ × Heap := match h.warmHead with
    | some c => (some c, { h with warmHead := (h.chunks c).next, warmCount := h.warmCount - 1 })
    | none => mapFresh cfg k h
  match r with
  | (none, h) => (none, h)
  | (some c, h) => (some c, chunkInitHeader h c pool)

/-- `btm_chunk_dispose`: queue the chunk for the maintenance thread, or release its pages here and
    recycle or unmap it. -/
def btmChunkDispose (cfg : Config) (k : Kernel) (h : Heap) (c : ℕ) : Heap :=
  let h := h.note (.dispose c (h.chunks c).pool)
  if h.bgAsync then
    { h.modChunk c fun x => { x with next := h.disposeHead } with disposeHead := some c }
  else
    let h := chunkDecommit cfg h c
    if h.warmCount < warmHigh then warmPush h c else chunkTrim cfg k h c

/-! ## Meshing -/

/-- `btm_mesh_remap`: show the recipient's file pages at the donor's data region and punch the
    donor's own file pages. Returns the bytes released. -/
def btmMeshRemap (k : Kernel) (h : Heap) (donor recipient : SlabRef) : ℕ × Heap :=
  let len := (h.slabs donor).npages * pageSize
  let donorData := donor.chunk + (h.slabs donor).firstPage * pageSize
  let recipOff := (h.chunks recipient.chunk).memfdOff + (h.slabs recipient).firstPage * pageSize
  let donorOff := (h.chunks donor.chunk).memfdOff + (h.slabs donor).firstPage * pageSize
  if k.remap donor then (len, (h.mmapMemfd donorData len recipOff).punchHole donorOff len)
  else (0, h)

/-! ## The maintenance thread -/

/-- Where `bg_main` is in its loop. -/
inductive BgPc where
  /-- Before taking the dispose queue. -/
  | wait
  /-- In `decommit_batch`: the whole batch, and the chunk to release next. -/
  | release (disp cur : Option ℕ)
  /-- Handing the cleaned batch back, with the chunks to trim so far. -/
  | giveBack (disp trim : Option ℕ)
  /-- Unmapping the trimmed chunks. -/
  | trim (trim : Option ℕ) (deficit : ℤ)
  /-- Mapping chunks ahead of demand. -/
  | premap (deficit : ℤ)
  deriving DecidableEq

/-- One step of `bg_main`: each loop iteration is a step of its own. `ring` says whether the release
    goes through the ring. -/
def bgStep (cfg : Config) (k : Kernel) (ring : Bool) (h : Heap) : BgPc → Option (Heap × BgPc)
  | .wait =>
    if h.disposeHead.isSome || h.warmCount < warmLow then
      some ({ h with disposeHead := none }, .release h.disposeHead h.disposeHead)
    else none
  | .release disp none => some (h, .giveBack disp none)
  | .release disp (some c) => some (decommitOne cfg ring h c, .release disp (h.chunks c).next)
  | .giveBack (some c) trim =>
    let next := (h.chunks c).next
    if h.warmCount < warmHigh then some (warmPush h c, .giveBack next trim)
    else some (h.modChunk c fun x => { x with next := trim }, .giveBack next (some c))
  | .giveBack none trim => some (h, .trim trim (warmLow - h.warmCount))
  | .trim (some c) deficit => some (chunkTrim cfg k h c, .trim (h.chunks c).next deficit)
  | .trim none deficit => some (h, .premap deficit)
  | .premap deficit =>
    if deficit ≤ 0 then some (h, .wait)
    else match mapFresh cfg k h with
      | (none, h) => some (h, .wait)
      | (some c, h) => some (warmPush h c, .premap (deficit - 1))

end BtMalloc
