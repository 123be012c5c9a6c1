import BtMalloc.Api
import BtMalloc.Tiering

/-!
# The pools as a machine

Calls of `btm_pool_refill`, `btm_pool_flush`, `btm_pool_free_one` and `btm_pageout_cold` in any order,
for any thread bins and with any batch sizes, and between them what `btm_malloc` and `btm_free` do to a
bin without the pool: take a slot out and put one back.

A history records which slabs saw activity and which ranges were hinted, call by call; nothing in the
program reads it.
-/

namespace BtMalloc

open Word

/-- What happened to a slab, newest first in a history. -/
inductive TierEvent where
  /-- The slab was formatted, refilled from or flushed into. -/
  | active (r : SlabRef)
  /-- A single slot was freed into the slab. -/
  | freed (r : SlabRef)
  /-- `btm_pageout_cold` passed these bytes to `madvise`. -/
  | hint (addr len : ℕ)
  /-- `btm_pageout_cold` returned. -/
  | pass
  deriving DecidableEq

/-- Slab `r` has settled: since it was last formatted, refilled from or flushed into,
    `btm_pageout_cold` returned at least once and did not hint at its data. -/
def Idle (hist : List TierEvent) (r : SlabRef) : Prop :=
  ∃ newer older, hist = newer ++ .active r :: older ∧ .active r ∉ newer ∧ .pass ∈ newer ∧
    ∀ len, .hint (r.chunk + r.page * pageSize) len ∉ newer

/-- The pools, the bins of all threads and the slots the client has. -/
structure PoolSys where
  heap : Heap
  bins : ℕ → ℕ → Bin
  out : ℕ → Bool
  hist : List TierEvent

/-- Before the first call. -/
def PoolSys.init : PoolSys :=
  { heap := Heap.init, bins := fun _ _ => Bin.zeroed, out := fun _ => false, hist := [] }

/-- A call. -/
inductive PoolCall where
  /-- `btm_pool_refill` of the bin of thread `t` for pool `q`. -/
  | refill (t : ℕ) (q : PoolId) (want : ℕ) (k : Kernel)
  /-- `btm_pool_flush` of bin `i` of thread `t` down to `keep` slots. -/
  | flush (t i keep : ℕ) (k : Kernel)
  /-- `btm_pool_free_one`. -/
  | freeOne (p : ℕ) (k : Kernel)
  /-- `btm_malloc` takes a slot from bin `i` of thread `t`. -/
  | hit (t i : ℕ)
  /-- `btm_free` of thread `t` puts a slot in its bin. -/
  | cache (t p : ℕ)
  /-- `btm_pageout_cold`. -/
  | pageout
  /-- Chunks are queued for the maintenance thread from now on. -/
  | bgStart

/-- The slabs the iterations of `flushLoop` free into. -/
def flushTrace (cfg : Config) (k : Kernel) (q : PoolId) (keep : ℕ) : ℕ → Bin → Heap → List SlabRef
  | 0, _, _ => []
  | n + 1, bin, h =>
    if bin.count ≤ keep then []
    else
      let r := btmSlabOf h (chunkOf bin.freeHead) bin.freeHead
      let (bin, h) := flushOne cfg k q bin h
      r :: flushTrace cfg k q keep n bin h

namespace PoolSys

/-- Replace one bin of one thread. -/
def setBin (s : PoolSys) (t i : ℕ) (b : Bin) : PoolSys :=
  { s with bins := Function.update s.bins t (Function.update (s.bins t) i b) }

/-- Replace the heap. -/
def setHeap (s : PoolSys) (h : Heap) : PoolSys := { s with heap := h }

/-- The client got a slot, or nothing. -/
def give (s : PoolSys) (p : ℕ) : PoolSys :=
  if p = 0 then s else { s with out := Function.update s.out p true }

/-- The client gives a slot up. -/
def take (s : PoolSys) (p : ℕ) : PoolSys := { s with out := Function.update s.out p false }

/-- Slabs saw activity, the first one first. -/
def active (s : PoolSys) (l : List SlabRef) : PoolSys :=
  { s with hist := (l.map TierEvent.active).reverse ++ s.hist }

end PoolSys

/-- The slab a refill takes slots from, if there is one. -/
def refillTrace (cfg : Config) (k : Kernel) (h : Heap) (q : PoolId) : List SlabRef :=
  (refillSlab cfg k h q).1.toList

/-- What a call does; `none` when the program never makes it. -/
def poolStep (cfg : Config) (s : PoolSys) : PoolCall → Option PoolSys
  | .refill t q want k =>
    if q.part < cfg.nparts ∧ q.sc < numSizeClasses ∧ 0 < want then
      let bin := { s.bins t (binIdx q) with pool := some q }
      let (p, bin, h) := btmPoolRefill cfg k s.heap q bin want
      some ((((s.active (refillTrace cfg k s.heap q)).setHeap h).setBin t (binIdx q) bin).give p)
    else none
  | .flush t i keep k =>
    let bin := s.bins t i
    match bin.pool with
    | none => some s
    | some q =>
      let l := flushTrace cfg k q keep bin.count bin s.heap
      let (bin, h) := btmPoolFlush cfg k s.heap bin keep
      some (((s.active l).setHeap h).setBin t i bin)
  | .freeOne p k =>
    if s.out p then
      let r := btmSlabOf s.heap (chunkOf p) p
      some { (s.setHeap (btmPoolFreeOne cfg k s.heap r p)).take p with hist := .freed r :: s.hist }
    else none
  | .hit t i =>
    let bin := s.bins t i
    let p := bin.freeHead
    if p = 0 then none
    else
      let bin := { bin with freeHead := btmFlGet cfg s.heap p, count := decr 32 bin.count }
      some (((s.setHeap (clearCanary cfg (s.heap.note (.get p)) p)).setBin t i bin).give p)
  | .cache t p =>
    if s.out p then
      let c := chunkOf p
      let i := binIdx ⟨(s.heap.chunks c).partIdx, (s.heap.chunks c).sc⟩
      let bin := s.bins t i
      let h := btmFlSet cfg s.heap p bin.freeHead
      let h := if cfg.hardening && cfg.hardenMode then
          { h with mem := h.mem.writeLE 8 (p + 8) (btmDfCanary cfg p) } else h
      let bin : Bin := { freeHead := p, pool := some (s.heap.chunks c).pool, count := bin.count + 1 }
      some (((s.setHeap h).setBin t i bin).take p)
    else none
  | .pageout =>
    let r := btmPageoutCold cfg s.heap
    some { s with
      heap := r.heap
      hist := .pass :: (r.hints.map fun x => TierEvent.hint x.1 x.2).reverse ++ s.hist }
  | .bgStart => some (s.setHeap { s.heap with bgAsync := true })

end BtMalloc
