import BtMalloc.Large
import BtMalloc.Partition

/-!
# Thread caches and the public entry points (`tcache.c`, `btmalloc.c`)

The allocator is past `btm_do_init`, so `btm_ensure_init` does nothing. Starting the maintenance
thread is a step of its own in the machine, not part of `btm_malloc`.
-/

namespace BtMalloc

open Word

/-- What a thread is in the middle of, between the steps other threads can run. -/
inductive Pc where
  | idle
  /-- In `btm_pool_flush` of the bin with this index, down to `keep` slots. -/
  | flushing (idx keep : ℕ)
  /-- In `btm_tls_destroy`, at the bin with this index. -/
  | exiting (idx : ℕ)
  deriving DecidableEq

/-- A thread: its cache (`btm_tls`), the one-entry interning cache, and where it is. -/
structure Thread where
  /-- `btm_tls` is not `NULL`. -/
  tls : Bool
  bins : ℕ → Bin
  rcache : ℕ → RcacheEnt
  /-- `btm_tls_intern_ra`. -/
  internRa : ℕ
  /-- `btm_tls_intern_part`. -/
  internPart : ℕ
  pc : Pc

/-- A thread that has not called the allocator yet. -/
def Thread.init : Thread :=
  { tls := false, bins := fun _ => Bin.zeroed, rcache := fun _ => ⟨0, 0, 0⟩, internRa := 0,
    internPart := 0, pc := .idle }

/-- The allocator with all its threads. -/
structure Sys where
  heap : Heap
  threads : ℕ → Thread

namespace Sys

/-- Update one thread. -/
def modThread (s : Sys) (t : ℕ) (f : Thread → Thread) : Sys :=
  { s with threads := Function.update s.threads t (f (s.threads t)) }

/-- Replace the shared state. -/
def setHeap (s : Sys) (h : Heap) : Sys := { s with heap := h }

/-- Replace one bin of one thread. -/
def setBin (s : Sys) (t i : ℕ) (b : Bin) : Sys :=
  s.modThread t fun x => { x with bins := Function.update x.bins i b }

end Sys

/-! ## Thread caches -/

/-- `btm_tls_bin_at`: the index of the bin for a pool. -/
def binIdx (q : PoolId) : ℕ := q.part * numSizeClasses + q.sc

/-- `btm_tls_get`: map the thread's cache if it has none; `none` when that fails. -/
def btmTlsGet (k : Kernel) (t : ℕ) (s : Sys) : Option Sys :=
  if (s.threads t).tls then some s
  else if k.tls then
    some (s.modThread t fun x =>
      { x with tls := true, bins := fun _ => Bin.zeroed, rcache := fun _ => ⟨0, 0, 0⟩ })
  else none

/-- `btm_resolve_owner`: the thread's region cache first, if the engine has one, then the table. -/
def btmResolveOwner (t : ℕ) (p : ℕ) (s : Sys) : ℕ × Sys :=
  if s.heap.owners.cached && (s.threads t).tls then
    let region := p >>> chunkShift
    let gen := s.heap.registryGen
    let i := region % 2 ^ 32 &&& 15
    let e := (s.threads t).rcache i
    if e.region = region ∧ e.gen = gen ∧ e.owner ≠ 0 then (e.owner, s)
    else
      let owner := btmRegistryLookup s.heap p
      if owner = 0 then (0, s)
      else (owner, s.modThread t fun x =>
        { x with rcache := Function.update x.rcache i ⟨region, owner, gen⟩ })
  else (btmRegistryLookup s.heap p, s)

/-! ## Partitions -/

/-- The probe loop of `btm_intern_slow`: the id of the entry of `key`, claiming the first empty slot
    on the way. `none` when every slot belongs to another call site. -/
def internProbe (cfg : Config) (key : ℕ) : ℕ → ℕ → Heap → Option (ℕ × Heap)
  | 0, _, _ => none
  | n + 1, i, h =>
    let e := h.internTbl i
    if e.1 = key then some (e.2, h)
    else if e.1 = 0 then
      some (h.internNext,
        { h with
          internTbl := Function.update h.internTbl i (key, h.internNext)
          internNext := h.internNext + 1 })
    else internProbe cfg key n ((i + 1) &&& (cfg.internCap - 1)) h

/-- `btm_intern_slow`; a full table falls back to the hash. -/
def btmInternSlow (cfg : Config) (t : ℕ) (ra : ℕ) (s : Sys) : ℕ × Sys :=
  let hash := ((ra >>> 4) * 0x9E3779B97F4A7C15 % 2 ^ 64) >>> 40
  let (part, h) := match internProbe cfg ra cfg.internCap (hash &&& (cfg.internCap - 1)) s.heap with
    | some (id, h) => (id &&& (cfg.nparts - 1), h)
    | none => (hash &&& (cfg.nparts - 1), s.heap)
  (part, (s.setHeap h).modThread t fun x => { x with internRa := ra, internPart := part })

/-- `btm_partition_of`. -/
def btmPartitionOf (cfg : Config) (t : ℕ) (ra : ℕ) (s : Sys) : ℕ × Sys :=
  if cfg.internMode then
    if ra = (s.threads t).internRa then ((s.threads t).internPart, s)
    else btmInternSlow cfg t ra s
  else
    let x := ra ^^^ (ra >>> 33)
    let x := x * 0xff51afd7ed558ccd % 2 ^ 64
    let x := x ^^^ (x >>> 29)
    (x % 2 ^ 32 &&& (cfg.nparts - 1), s)

/-! ## Allocation -/

/-- Clear the second word of a slot that is handed out (`BTM_HARDEN=1`). -/
def clearCanary (cfg : Config) (h : Heap) (p : ℕ) : Heap :=
  if cfg.hardening && cfg.hardenMode then { h with mem := h.mem.writeLE 8 (p + 8) 0 } else h

/-- The small path of `btm_malloc_at` for a thread that has its cache: pop the bin of the call
    site's partition, or refill it. -/
def mallocSmall (cfg : Config) (k : Kernel) (t sc : ℕ) (ra : ℕ) (s : Sys) : ℕ × Sys :=
  let (part, s) := btmPartitionOf cfg t ra s
  let q : PoolId := ⟨part, sc⟩
  let i := binIdx q
  let bin := (s.threads t).bins i
  let p := bin.freeHead
  if p ≠ 0 then
    let bin := { bin with freeHead := btmFlGet cfg s.heap p, count := decr 32 bin.count }
    (p, (s.setHeap (clearCanary cfg (s.heap.note (.get p)) p)).setBin t i bin)
  else
    let bin := { bin with pool := some q }
    let h := s.heap
    let h := if h.sampleRa part = 0 then { h with sampleRa := Function.update h.sampleRa part ra }
      else h
    let want := max (btmCacheMax sc / 2) 1
    let (p, bin, h) := btmPoolRefill cfg k h q bin want
    let h := if p = 0 then h else clearCanary cfg h p
    (p, (s.setHeap h).setBin t i bin)

/-- `btm_large_alloc`, called from an entry point. -/
def largeAt (k : Kernel) (size alignment : ℕ) (s : Sys) : Except Trap (ℕ × Sys) :=
  match btmLargeAlloc k s.heap size alignment with
  | .ok (p, h) => .ok (p, s.setHeap h)
  | .error e => .error e

/-- `btm_malloc_at` for a request whose size class is known. -/
def mallocClass (cfg : Config) (k : Kernel) (t size : ℕ) (ra : ℕ) (s : Sys) :
    Option ℕ → Except Trap (ℕ × Sys)
  | none =>
    if size = 0 then .ok (0, s) else largeAt k size btmAlignment s
  | some sc =>
    match btmTlsGet k t s with
    | none => .ok (0, s)
    | some s => .ok (mallocSmall cfg k t sc ra s)

/-- `btm_malloc_at`: the pointer returned, 0 for `NULL`. -/
def btmMallocAt (cfg : Config) (k : Kernel) (t size : ℕ) (ra : ℕ) (s : Sys) :
    Except Trap (ℕ × Sys) := mallocClass cfg k t size ra s (btmSizeToSc size)

/-! ## Freeing -/

/-- `btm_free` up to the flush of an overfull bin. Returns the bin index and the number of slots to
    keep when a flush is due. -/
def btmFreeHead (cfg : Config) (k : Kernel) (t : ℕ) (p : ℕ) (s : Sys) :
    Except Trap (Option (ℕ × ℕ) × Sys) :=
  if p = 0 then .ok (none, s)
  else
    let (owner, s) := btmResolveOwner t p s
    if owner = 0 then .ok (none, s)
    else if owner &&& 1 = 1 then
      match btmLargeFree k s.heap (owner - 1) with
      | .error e => .error e
      | .ok h => .ok (none, s.setHeap h)
    else
      let c := owner
      let sc := (s.heap.chunks c).sc
      let q : PoolId := ⟨(s.heap.chunks c).partIdx, sc⟩
      match btmTlsGet k t s with
      | none => .ok (none, s.setHeap (btmPoolFreeOne cfg k s.heap (btmSlabOf s.heap c p) p))
      | some s =>
        let harden := cfg.hardening && cfg.hardenMode
        if harden && s.heap.mem.readLE 8 (p + 8) == btmDfCanary cfg p then .error .doubleFree
        else
          let i := binIdx q
          let bin := (s.threads t).bins i
          let h := btmFlSet cfg s.heap p bin.freeHead
          let h := if harden then
              { h with mem := h.mem.writeLE 8 (p + 8) (btmDfCanary cfg p) } else h
          let bin : Bin :=
            { freeHead := p, pool := some (s.heap.chunks c).pool, count := bin.count + 1 }
          let cap := btmCacheMax sc
          .ok (if cap < bin.count then some (i, cap / 2) else none, (s.setHeap h).setBin t i bin)

/-- The flush that `btmFreeHead` left to do. -/
def flushPending (cfg : Config) (k : Kernel) (t : ℕ) (s : Sys) : Option (ℕ × ℕ) → Sys
  | none => s
  | some (i, keep) =>
    let (bin, h) := btmPoolFlush cfg k s.heap ((s.threads t).bins i) keep
    (s.setHeap h).setBin t i bin

/-- `btm_free`. -/
def btmFree (cfg : Config) (k : Kernel) (t : ℕ) (p : ℕ) (s : Sys) : Except Trap Sys :=
  match btmFreeHead cfg k t p s with
  | .error e => .error e
  | .ok (fl, s) => .ok (flushPending cfg k t s fl)

/-! ## The other entry points -/

/-- `btm_malloc_usable_size`. -/
def btmMallocUsableSize (t : ℕ) (p : ℕ) (s : Sys) : Except Trap ℕ :=
  if p = 0 then .ok 0
  else
    let owner := (btmResolveOwner t p s).1
    if owner = 0 then .ok 0
    else if owner &&& 1 = 0 then .ok (btmScToSize (s.heap.chunks owner).sc)
    else btmLargeUsableSize s.heap (owner - 1) p

/-- `btm_calloc_at`. -/
def btmCallocAt (cfg : Config) (k : Kernel) (t n size : ℕ) (ra : ℕ) (s : Sys) :
    Except Trap (ℕ × Sys) :=
  if 2 ^ 64 ≤ n * size then .ok (0, s)
  else if n * size = 0 then .ok (0, s)
  else if smallMaxSize < n * size then largeAt k (n * size) btmAlignment s
  else match btmMallocAt cfg k t (n * size) ra s with
    | .error e => .error e
    | .ok (p, s) =>
      if p = 0 then .ok (0, s)
      else .ok (p, s.setHeap { s.heap with mem := s.heap.mem.write p (n * size) fun _ => 0 })

/-- Copy `n` bytes (`memcpy` between objects). -/
def Heap.memcpy (h : Heap) (dst src n : ℕ) : Heap :=
  { h with mem := h.mem.write dst n fun i => h.mem.read (src + i) }

/-- The end of `btm_realloc_at` for an object that moves to `np`: copy `n` bytes and free the old object,
    up to the flush of an overfull bin. -/
def reallocMove (cfg : Config) (k : Kernel) (t p np n : ℕ) (s : Sys) :
    Except Trap (ℕ × Option (ℕ × ℕ) × Sys) :=
  if np = 0 then .ok (0, none, s)
  else match btmFreeHead cfg k t p (s.setHeap (s.heap.memcpy np p n)) with
    | .error e => .error e
    | .ok (fl, s) => .ok (np, fl, s)

/-- `btm_realloc_at` of a slot whose chunk is `c`. -/
def reallocSmall (cfg : Config) (k : Kernel) (t p size : ℕ) (ra : ℕ) (c : ℕ) (s : Sys) :
    Except Trap (ℕ × Option (ℕ × ℕ) × Sys) :=
  let old := btmScToSize (s.heap.chunks c).sc
  if btmSizeToSc size = some (s.heap.chunks c).sc then .ok (p, none, s)
  else match btmMallocAt cfg k t size ra s with
    | .error e => .error e
    | .ok (np, s) => reallocMove cfg k t p np (min old size) s

/-- `btm_realloc_at` of a large object whose mapping is at `base`. -/
def reallocLarge (cfg : Config) (k : Kernel) (t p size : ℕ) (ra : ℕ) (base : ℕ) (s : Sys) :
    Except Trap (ℕ × Option (ℕ × ℕ) × Sys) :=
  match btmLargeUsableSize s.heap base p with
  | .error e => .error e
  | .ok old =>
    if size ≤ smallMaxSize then
      match btmMallocAt cfg k t size ra s with
      | .error e => .error e
      | .ok (np, s) =>
        if np = 0 then .ok (0, none, s)
        else match btmLargeFree k (s.heap.memcpy np p (min old size)) base with
          | .error e => .error e
          | .ok h => .ok (np, none, s.setHeap h)
    else match btmLargeRealloc k s.heap base p size with
      | .error e => .error e
      | .ok (q, h) => .ok (q, none, s.setHeap h)

/-- `btm_realloc_at` up to the flush of an overfull bin: the pointer returned, 0 for `NULL`, and the flush
    that is due. -/
def btmReallocHead (cfg : Config) (k : Kernel) (t : ℕ) (p : ℕ) (size : ℕ) (ra : ℕ) (s : Sys) :
    Except Trap (ℕ × Option (ℕ × ℕ) × Sys) :=
  if p = 0 then
    match btmMallocAt cfg k t size ra s with
    | .error e => .error e
    | .ok (q, s) => .ok (q, none, s)
  else if size = 0 then
    match btmFreeHead cfg k t p s with
    | .error e => .error e
    | .ok (fl, s) => .ok (0, fl, s)
  else
    let (owner, s) := btmResolveOwner t p s
    if owner = 0 then .ok (0, none, s)
    else if owner &&& 1 = 0 then reallocSmall cfg k t p size ra owner s
    else reallocLarge cfg k t p size ra (owner - 1) s

/-- `btm_realloc_at`. -/
def btmReallocAt (cfg : Config) (k : Kernel) (t : ℕ) (p : ℕ) (size : ℕ) (ra : ℕ) (s : Sys) :
    Except Trap (ℕ × Sys) :=
  match btmReallocHead cfg k t p size ra s with
  | .error e => .error e
  | .ok (q, fl, s) => .ok (q, flushPending cfg k t s fl)

/-- `is_pow2`. -/
def isPow2 (x : ℕ) : Bool := x != 0 && (x &&& (x - 1)) == 0

/-- Error numbers of `btm_posix_memalign`. -/
inductive Errno where
  | einval
  | enomem
  deriving DecidableEq, Repr

/-- `btm_posix_memalign`, for a non-`NULL` out pointer: the error number, or the pointer stored. -/
def btmPosixMemalign (cfg : Config) (k : Kernel) (t alignment size : ℕ) (ra : ℕ) (s : Sys) :
    Except Trap (Except Errno ℕ × Sys) :=
  if !isPow2 alignment || alignment % 8 != 0 then .ok (.error .einval, s)
  else if size = 0 then .ok (.ok 0, s)
  else
    match if alignment ≤ btmAlignment then btmMallocAt cfg k t size ra s else largeAt k size alignment s with
    | .error e => .error e
    | .ok (p, s) => .ok (if p = 0 then .error .enomem else .ok p, s)

/-- `btm_aligned_alloc`. -/
def btmAlignedAlloc (cfg : Config) (k : Kernel) (t alignment size : ℕ) (ra : ℕ) (s : Sys) :
    Except Trap (ℕ × Sys) :=
  if !isPow2 alignment then .ok (0, s)
  else if size = 0 then .ok (0, s)
  else if size % alignment != 0 then .ok (0, s)
  else if alignment ≤ btmAlignment then btmMallocAt cfg k t size ra s
  else largeAt k size alignment s

/-! ## Calls that ask for new storage -/

inductive Alloc where
  | malloc (size : ℕ)
  | calloc (n size : ℕ)
  /-- `btm_realloc(NULL, size)`. -/
  | realloc (size : ℕ)
  | alignedAlloc (alignment size : ℕ)
  | posixMemalign (alignment size : ℕ)

namespace Alloc

/-- The call: the pointer it returns or stores, 0 for `NULL` or an error number. -/
def run (cfg : Config) (k : Kernel) (t : ℕ) (ra : ℕ) (s : Sys) : Alloc → Except Trap (ℕ × Sys)
  | .malloc size => btmMallocAt cfg k t size ra s
  | .realloc size => btmReallocAt cfg k t 0 size ra s
  | .calloc n size => btmCallocAt cfg k t n size ra s
  | .alignedAlloc alignment size => btmAlignedAlloc cfg k t alignment size ra s
  | .posixMemalign alignment size =>
    match btmPosixMemalign cfg k t alignment size ra s with
    | .error e => .error e
    | .ok (.ok p, s) => .ok (p, s)
    | .ok (.error _, s) => .ok (0, s)

/-- The arguments are of type `size_t`. -/
def Words : Alloc → Prop
  | .malloc size | .realloc size => size < 2 ^ 64
  | .calloc n size => n < 2 ^ 64 ∧ size < 2 ^ 64
  | .alignedAlloc alignment size | .posixMemalign alignment size => alignment < 2 ^ 64 ∧ size < 2 ^ 64

instance (c : Alloc) : Decidable c.Words :=
  match c with
  | .malloc _ | .realloc _ => inferInstanceAs (Decidable (_ < _))
  | .calloc _ _ | .alignedAlloc _ _ | .posixMemalign _ _ => inferInstanceAs (Decidable (_ ∧ _))

/-- The bytes that the caller asks for. -/
def bytes : Alloc → ℕ
  | .malloc size | .realloc size | .alignedAlloc _ size | .posixMemalign _ size => size
  | .calloc n size => n * size

/-- The alignment that the caller asks for. -/
def alignment : Alloc → ℕ
  | .malloc _ | .realloc _ | .calloc _ _ => btmAlignment
  | .alignedAlloc alignment _ | .posixMemalign alignment _ => alignment

/-- The caller is promised zeroed bytes. -/
def zeroed : Alloc → Bool
  | .calloc _ _ => true
  | .malloc _ | .realloc _ | .alignedAlloc _ _ | .posixMemalign _ _ => false

/-- The request that a call makes after its checks: the bytes and the alignment. -/
def request : Alloc → Option (ℕ × ℕ)
  | .malloc size | .realloc size => if size = 0 then none else some (size, btmAlignment)
  | .calloc n size =>
    if 2 ^ 64 ≤ n * size ∨ n * size = 0 then none else some (n * size, btmAlignment)
  | .alignedAlloc alignment size =>
    if !isPow2 alignment || size == 0 || size % alignment != 0 then none else some (size, alignment)
  | .posixMemalign alignment size =>
    if !isPow2 alignment || alignment % 8 != 0 || size == 0 then none else some (size, alignment)

/-- The request with which a call gets to `btm_large_alloc`. -/
def large (c : Alloc) : Option (ℕ × ℕ) :=
  c.request.filter fun r => (btmSizeToSc r.1).isNone || btmAlignment.blt r.2

/-- The request is served from the pools. -/
def Small (c : Alloc) : Prop :=
  ∃ size alignment, c.request = some (size, alignment) ∧ btmSizeToSc size ≠ none ∧
    alignment ≤ btmAlignment

end Alloc

end BtMalloc
