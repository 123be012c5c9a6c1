import BtMalloc.Effect

/-!
# The system as a whole

`SysRep` extends `HeapRep` to the threads and the maintenance thread: what a thread's cache may hold
at each point of its program, and which entries of its region cache can be relied on. `Owned` says
what an object of the client is in the ledger.
-/

namespace BtMalloc

/-- Thread `t`: a thread without a cache has no slots cached, and one that is leaving has emptied the
    bins it passed. -/
structure ThreadOk (cfg : Config) (L : Ledger) (t : ℕ) (x : Thread) : Prop where
  idle : x.pc = .idle → x.tls = false → ∀ i, L.bin t i = []
  exiting : ∀ {n}, x.pc = .exiting n → x.tls = false ∧ ∀ i < n, L.bin t i = []
  flushing : ∀ {i keep}, x.pc = .flushing i keep → x.tls = true
  part : x.internPart < cfg.nparts

/-- An entry of the region cache that passes the generation check agrees with the table. -/
structure RcacheOk (h : Heap) (e : RcacheEnt) : Prop where
  gen : e.gen ≤ h.registryGen
  owner : e.gen = h.registryGen → e.owner ≠ 0 → e.region < 2 ^ 27 ∧ ownerAt h.owners e.region = e.owner

/-- The bins of all threads. -/
def Sys.bins (s : Sys) (t i : ℕ) : Bin := (s.threads t).bins i

/-- The allocator and the maintenance thread stand for the ledger `L`. -/
structure SysRep (cfg : Config) (s : Sys) (bg : BgPc) (L : Ledger) : Prop where
  sound : L.Sound cfg
  settled : L.Settled
  rep : HeapRep cfg s.heap s.bins L
  bg : BgRep s.heap.chunks L bg
  thread : ∀ t, ThreadOk cfg L t (s.threads t)
  rcache : ∀ t i, RcacheOk s.heap ((s.threads t).rcache i)

/-- The client has `size` bytes at `p`, in the unit at `a`: a slot handed out, or the part of a large
    object behind its header. -/
inductive Ledger.Owned (L : Ledger) : ℕ → ℕ → ℕ → Prop where
  | slot {q : PoolId} {r : SlabRef} {i p size : ℕ} : L.place p = .out → L.SlotIn q r i p →
      size ≤ btmScToSize q.sc → L.Owned p p size
  | large {b size : ℕ} {hd : LargeHdr} : L.large b = some hd → hd.userOff + size ≤ hd.mapLen →
      L.Owned b (b + hd.userOff) size

/-- Nothing of the client is in the unit at `a`. -/
def Ledger.Vacates (L : Ledger) (a : ℕ) : Prop := ∀ ⦃p size⦄, ¬ L.Owned a p size

/-- The allocator, the maintenance thread and the client stand for the ledger `L`. -/
structure WorldRep (cfg : Config) (w : World) (L : Ledger) : Prop where
  sys : SysRep cfg w.sys w.bg L
  /-- The client's objects are units of the ledger. -/
  live : ∀ {p size}, w.live p = some size → ∃ a, L.Owned a p size
  /-- They hold what their owner stored last. -/
  shadow : ∀ {p size off b}, w.live p = some size → w.shadow p off = some b →
    off < size ∧ w.sys.heap.mem.read (p + off) = b

/-- The client still knows everything it was given. -/
def World.Kept (w : World) (L : Ledger) : Prop := ∀ ⦃a p n⦄, L.Owned a p n → (w.live p).isSome = true

/-- The table names the owner of every region. -/
structure AllNamed (T : OwnerTable) (L : Ledger) : Prop where
  mapped : T.Mapped
  named : ∀ ⦃key⦄, key < flatSize → Named T L key

/-- The ledger before the first call. -/
def Ledger.empty : Ledger where
  holder _ := .none
  top _ := 0
  stage _ := .uncarved
  place _ := .void
  target r := r
  freeList _ := []
  bin _ _ := []
  held _ := []
  partials _ := []
  warm _ := []
  cold _ := []
  counted _ := []
  chunks _ := []
  active _ := none
  stack := []
  queue := []
  batch := []
  hand := []
  large _ := none

/-! ## Storage that was given up -/

/-- The second word of the slot at `p` passes for the mark of a slot that was freed. -/
def canarySet (cfg : Config) (h : Heap) (p : ℕ) : Bool :=
  cfg.hardening && cfg.hardenMode && h.mem.readLE 8 (p + 8) == btmDfCanary cfg p

/-- Where the storage at `p` went when thread `t` gave it up in heap `h`: in front of a bin, to its slab, or
    to the kernel. -/
inductive GaveBack (cfg : Config) (k : Kernel) (t : ℕ) (h : Heap) (p : ℕ) (s' : Sys) : Prop where
  | bin (i : ℕ) : ((s'.threads t).bins i).freeHead = p → GaveBack cfg k t h p s'
  | slab (r : SlabRef) : btmSlabOf h (btmRegistryLookup h p) p = r → s'.heap = btmPoolFreeOne cfg k h r p →
      GaveBack cfg k t h p s'
  | unmap (b : ℕ) : btmRegistryLookup h p = b ||| 1 → p = b + (h.larges b).userOff →
      (∀ j < (h.larges b).mapLen / pageSize, s'.heap.mapped (b / pageSize + j) = false) →
      GaveBack cfg k t h p s'

/-! ## Conditions on steps -/

/-- A request that no size class takes does not wrap in `btm_large_alloc`, or the kernel refuses it. -/
def Requests (k : Kernel) (h : Heap) (size : ℕ) : Prop :=
  btmSizeToSc size = none → size ≠ 0 → Fits size btmAlignment ∨
    mmapResult h k.large (largeWant size btmAlignment) = none

/-- The same for any call for new storage. -/
def Alloc.Fit (k : Kernel) (h : Heap) (c : Alloc) : Prop :=
  ∀ size alignment, c.large = some (size, alignment) → Fits size alignment ∨
    mmapResult h k.large (largeWant size alignment) = none

/-- The base of the large object that owns the region of `p`. -/
def largeOwner (h : Heap) (p : ℕ) : Option ℕ :=
  if btmRegistryLookup h p % 2 = 1 then some (btmRegistryLookup h p - 1) else none

/-- `btm_realloc(p, size)` does not wrap, or the kernel refuses what it asks for. -/
structure Resizes (k : Kernel) (h : Heap) (p size : ℕ) : Prop where
  move : largeOwner h p = none → btmRegistryLookup h p ≠ 0 → Requests k h size
  grow : ∀ b, largeOwner h p = some b → smallMaxSize < size →
    (h.larges b).userOff + size + (pageSize - 1) < 2 ^ 64 ∨
      newTotal (h.larges b) size ≠ (h.larges b).mapLen ∧ remapAnswer k h b size = none

/-- What looking up an owner leaves alone: all but the thread's region cache. -/
structure Resolved (s s' : Sys) : Prop where
  heap : s'.heap = s.heap
  bins : s'.bins = s.bins
  tls : ∀ t, (s'.threads t).tls = (s.threads t).tls
  pc : ∀ t, (s'.threads t).pc = (s.threads t).pc
  internRa : ∀ t, (s'.threads t).internRa = (s.threads t).internRa
  part : ∀ t, (s'.threads t).internPart = (s.threads t).internPart

/-- The object at `p` is the same in two states: its owner, its size and its bytes. -/
structure Unchanged (s s' : Sys) (p : ℕ) : Prop where
  owner : btmRegistryLookup s'.heap p = btmRegistryLookup s.heap p
  usable : ∀ t, btmMallocUsableSize t p s' = btmMallocUsableSize t p s
  bytes : ∀ t n i, btmMallocUsableSize t p s = .ok n → i < n → s'.heap.mem.read (p + i) = s.heap.mem.read (p + i)

/-- Why `btm_realloc(p, size)` of an object that the table knows returns `NULL`: `mremap` refuses, or
    `btm_malloc` returned `NULL`. -/
inductive ResizeRefused (cfg : Config) (k : Kernel) (t ra : ℕ) (s : Sys) (p size : ℕ) : Prop where
  | remap {b : ℕ} : largeOwner s.heap p = some b → smallMaxSize < size →
      newTotal (s.heap.larges b) size ≠ (s.heap.larges b).mapLen → remapAnswer k s.heap b size = none →
      ResizeRefused cfg k t ra s p size
  | malloc {s1 s' : Sys} : Resolved s s1 → btmMallocAt cfg k t size ra s1 = .ok (0, s') →
      ResizeRefused cfg k t ra s p size

/-- How the kernel places large mappings, such that no two of them share a region. -/
inductive Placement where
  /-- `mremap` moves a mapping only to the start of a region. -/
  | aligned
  /-- A mapping only goes to regions in which nothing else is mapped. -/
  | spaced
  deriving DecidableEq

/-- `btm_large_alloc` gets regions in which nothing is mapped. -/
def Spaced (k : Kernel) (h : Heap) (size alignment : ℕ) : Prop :=
  ∀ raw, mmapResult h k.large (largeWant size alignment) = some raw →
    RegionsFree h (largeBase raw alignment) (largeTotal size alignment)

/-- `btm_realloc` gets regions in which nothing but the object itself is mapped. -/
structure Respaced (k : Kernel) (h : Heap) (p size : ℕ) : Prop where
  move : btmSizeToSc size = none → Spaced k h size btmAlignment
  grow : ∀ b nb, largeOwner h p = some b → remapAnswer k h b size = some nb →
    RegionsFree (h.munmap b (h.larges b).mapLen) nb (newTotal (h.larges b) size)

/-- `mremap` only answers with region starts. -/
def Kernel.RemapsAligned (k : Kernel) : Prop := ∀ nb, k.mremap = some nb → nb % chunkSize = 0

/-- The kernel keeps to a placement in a step. -/
def World.Places (pl : Placement) (w : World) : Action → Prop
  | .alloc _ c _ k =>
    pl = .spaced → ∀ size alignment, c.large = some (size, alignment) → Spaced k w.sys.heap size alignment
  | .realloc _ p size _ k =>
    (pl = .aligned → k.RemapsAligned) ∧ (pl = .spaced → Respaced k w.sys.heap p size)
  | .free _ _ _ | .flush _ _ | .exit _ | .exitStep _ _ | .write _ _ _ | .compact _ | .bgStart | .bg _ _ => True

/-- A step in which no size wraps. -/
def World.Fitting (w : World) : Action → Prop
  | .alloc _ c _ k => c.Fit k w.sys.heap
  | .realloc _ p size _ k => Resizes k w.sys.heap p size
  | .free _ _ _ | .flush _ _ | .exit _ | .exitStep _ _ | .write _ _ _ | .compact _ | .bgStart | .bg _ _ => True

/-- A step other than `btm_compact`, without a size that wraps, on a kernel that keeps to a placement. -/
structure World.Regular (pl : Placement) (w : World) (act : Action) : Prop where
  fitting : w.Fitting act
  places : w.Places pl act
  uncompacted : ∀ k, act ≠ .compact k

/-- The kernel's answers during a step. -/
def Action.kernel : Action → Kernel
  | .alloc _ _ _ k | .realloc _ _ _ _ k | .free _ _ k | .flush _ k | .exitStep _ k | .compact k | .bg k _ => k
  | .exit _ | .write _ _ _ | .bgStart => Kernel.plain

end BtMalloc
