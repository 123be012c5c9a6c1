import BtMalloc.Machine

/-!
# Conditions on calls

Predicates on a state and the arguments and kernel answers of the next call, in terms of the program's
own data: when the kernel refuses a chunk, which chunk a pool would take, and when the size arithmetic
of a large object does not wrap.
-/

namespace BtMalloc

open Word

/-- Where `map_fresh` puts the chunk in its reservation. -/
def chunkBase (raw : ℕ) : ℕ := maskDown (raw + chunkSize - 1) chunkSize

/-- The kernel refuses to back a new chunk: no room in the memfd, no reservation, or no mapping over
    it. -/
def MapRefused (cfg : Config) (k : Kernel) (h : Heap) : Prop :=
  (cfg.meshMode = true ∧ (memfdAllocOff k h).1 = none) ∨
    mmapResult h k.chunk (chunkSize * 2) = none ∨ k.fixed = false

/-- Pool `q` needs a chunk for its next slab: it has no partial slab, no empty slab and no room in its
    active chunk. -/
def wantsChunk (h : Heap) (q : PoolId) : Bool :=
  (h.pools q).partialHead.isNone && (h.pools q).emptyWarm.isNone && (h.pools q).emptyCold.isNone &&
    (activeRoom h q (btmScRunPages q.sc)).isNone

/-- Pool `q` would have to map a chunk, and the kernel refuses. -/
def ChunkRefused (cfg : Config) (k : Kernel) (h : Heap) (q : PoolId) : Prop :=
  wantsChunk h q = true ∧ h.warmHead = none ∧ MapRefused cfg k h

/-- Why a small request gets nothing: the kernel refuses the thread's cache, or a chunk for the pool of the
    call site. -/
def SmallRefused (cfg : Config) (k : Kernel) (t ra : ℕ) (s : Sys) (sc : ℕ) : Prop :=
  (s.threads t).tls = false ∧ k.tls = false ∨ ChunkRefused cfg k s.heap ⟨(btmPartitionOf cfg t ra s).1, sc⟩

/-- The chunk that a pool would get: the top of the warm stack, or the one in the kernel's answer. -/
def nextChunk (k : Kernel) (h : Heap) : Option ℕ :=
  match h.warmHead with
  | some c => some c
  | none => k.chunk.map chunkBase

/-- Chunk `c` goes to pool `q` if the pool allocates now. -/
def ChunkTaken (k : Kernel) (h : Heap) (q : PoolId) (c : ℕ) : Prop :=
  wantsChunk h q = true ∧ nextChunk k h = some c

/-- No addition or round-up of `btm_large_alloc` wraps for a request of `size` bytes. -/
def Fits (size alignment : ℕ) : Prop :=
  largeHdr alignment + size + (pageSize - 1) + largeBalign alignment < 2 ^ 64

/-- Where `btm_large_alloc` puts the object in its reservation. -/
def largeBase (raw alignment : ℕ) : ℕ := roundUp raw (largeBalign alignment)

/-- Where `btm_large_realloc` of the object at `b` gets its mapping, if it asks for another. -/
def remapAnswer (k : Kernel) (h : Heap) (b size : ℕ) : Option ℕ :=
  if newTotal (h.larges b) size = (h.larges b).mapLen then none
  else mremapResult k h b (h.larges b).mapLen (newTotal (h.larges b) size)

/-- No page is mapped in the 2 MiB regions of the `len` bytes at `b`. -/
def RegionsFree (h : Heap) (b len : ℕ) : Prop :=
  ∀ key, b / chunkSize ≤ key → key ≤ (b + len - 1) / chunkSize →
    ∀ j < pagesPerChunk, h.mapped (key * pagesPerChunk + j) = false

end BtMalloc
