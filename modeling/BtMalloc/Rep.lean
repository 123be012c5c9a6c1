import BtMalloc.Machine
import BtMalloc.Ledger
import BtMalloc.Log

/-!
# Representation: how the program's data stand for the ledger

One predicate for each part of the program's state: descriptors, the lists of slabs, chunk headers,
the warm stack and dispose queue, freelist links, thread bins, the page table and the address space.
Each takes only the fields it reads, so that a step that leaves those fields alone keeps it.
-/

namespace BtMalloc

open LinkedList

/-! ## Descriptors and lists of slabs -/

/-- The descriptor of slab `r` of pool `q`, at stage `st` with `n` free slots. -/
structure Desc (q : PoolId) (r : SlabRef) (st : Stage) (n : ℕ) (x : Slab) : Prop where
  firstPage : x.firstPage = r.page
  npages : x.npages = btmScRunPages q.sc
  nslots : x.nslots = slabSlots q.sc
  sc : x.sc = q.sc
  partIdx : x.partIdx = q.part
  inPartial : x.inPartial = decide (st = .listed)
  decommitted : x.decommitted = decide (st = .cold)
  retired : x.retired = decide (st = .retired)
  freeCount : st ≠ .retired → x.freeCount = n

def DescRep (slabs : SlabRef → Slab) (L : Ledger) : Prop :=
  ∀ q r, L.SlabIn q r → Desc q r (L.stage r) (L.freeList r).length (slabs r)

/-- The lists of slabs of a pool. -/
structure PoolLists (slabs : SlabRef → Slab) (P : Pool) (lp lw lc : List SlabRef) : Prop where
  partials : DList (fun r => (slabs r).next) (fun r => (slabs r).prev) none P.partialHead lp
  warm : Chain (fun r => (slabs r).next) P.emptyWarm lw
  cold : Chain (fun r => (slabs r).next) P.emptyCold lc
  warmCount : P.warmCount = lw.length

def ListRep (slabs : SlabRef → Slab) (pools : PoolId → Pool) (L : Ledger) : Prop :=
  ∀ q, PoolLists slabs (pools q) (L.partials q) (L.warm q) (L.cold q)

/-- `outstanding` counts the busy slots. -/
def TallyRep (pools : PoolId → Pool) (L : Ledger) : Prop :=
  ∀ q, (pools q).outstanding = (L.held q).length

/-! ## Chunks -/

/-- The header of chunk `c` of pool `q`. -/
structure Header (L : Ledger) (q : PoolId) (c : ℕ) (x : Chunk) : Prop where
  pool : x.pool = q
  sc : x.sc = q.sc
  partIdx : x.partIdx = q.part
  nextFreePage : x.nextFreePage = L.top c
  liveSlabs : x.liveSlabs = (L.counted c).length
  pageOwner : ∀ {r j}, r.chunk = c → L.stage r ≠ .uncarved → j < btmScRunPages q.sc →
    x.pageOwner (r.page + j) = r.page

def HeaderRep (chunks : ℕ → Chunk) (L : Ledger) : Prop :=
  ∀ q c, L.holder c = .pool q → Header L q c (chunks c)

/-- The chunk list of a pool. -/
def ChunkRep (chunks : ℕ → Chunk) (pools : PoolId → Pool) (L : Ledger) : Prop :=
  ∀ q, DList (fun c => (chunks c).next) (fun c => (chunks c).prev) none (pools q).chunks
    (L.chunks q) ∧ (pools q).active = L.active q

/-- The warm stack and the dispose queue. -/
structure DepotRep (chunks : ℕ → Chunk) (warmHead : Option ℕ) (warmCount : ℤ)
    (disposeHead : Option ℕ) (L : Ledger) : Prop where
  stack : Chain (fun c => (chunks c).next) warmHead L.stack
  stack_count : warmCount = L.stack.length
  queue : Chain (fun c => (chunks c).next) disposeHead L.queue

/-- The chunks the maintenance thread has taken, by where it is. -/
def BgRep (chunks : ℕ → Chunk) (L : Ledger) : BgPc → Prop
  | .wait => L.batch = [] ∧ L.hand = []
  | .release disp cur => L.hand = [] ∧ Chain (fun c => (chunks c).next) disp L.batch ∧
      ∃ done rest, L.batch = done ++ rest ∧ Chain (fun c => (chunks c).next) cur rest
  | .giveBack disp trim => Chain (fun c => (chunks c).next) disp L.batch ∧
      Chain (fun c => (chunks c).next) trim L.hand
  | .trim trim _ => L.batch = [] ∧ Chain (fun c => (chunks c).next) trim L.hand
  | .premap _ => L.batch = [] ∧ L.hand = []

/-! ## Freelist links -/

def FreeRep (cfg : Config) (m : Mem) (slabs : SlabRef → Slab) (L : Ledger) : Prop :=
  ∀ q r, L.SlabIn q r → (L.stage r).intact = true →
    Chain (flNext cfg m) (ptr (slabs r).freeHead) (L.freeList r)

/-- A thread bin holding the slots `l`. -/
structure BinOk (cfg : Config) (m : Mem) (i : ℕ) (b : Bin) (l : List ℕ) : Prop where
  chain : Chain (flNext cfg m) (ptr b.freeHead) l
  count : b.count = l.length
  pool : l ≠ [] → ∃ q : PoolId, q.Valid cfg ∧ b.pool = some q ∧ i = binIdx q

def BinRep (cfg : Config) (m : Mem) (bins : ℕ → ℕ → Bin) (L : Ledger) : Prop :=
  ∀ t i, BinOk cfg m i (bins t i) (L.bin t i)

/-! ## The page table -/

/-- The first page of a chunk that still shows the chunk's own page for sure. -/
def Ledger.floor (L : Ledger) (c : ℕ) : ℕ :=
  match L.holder c with
  | .pool _ => L.top c
  | _ => dataStartPage

/-- In mesh mode every slab shows the file pages of its target, and pages that no slab has show the
    chunk's own; offsets are given out once. Otherwise every page is its own. -/
structure FrameRep (cfg : Config) (pt : ℕ → Frame) (chunks : ℕ → Chunk) (bump : ℕ)
    (freed : List ℕ) (L : Ledger) : Prop where
  anon : cfg.meshMode = false → ∀ p, pt p = .anon p
  slab : cfg.meshMode = true → ∀ {q r}, L.SlabIn q r → ∀ {j}, j < btmScRunPages q.sc →
    pt (r.chunk / pageSize + r.page + j) =
      .memfd ((chunks (L.target r).chunk).memfdOff / pageSize + (L.target r).page + j)
  rest : cfg.meshMode = true → ∀ {c}, L.holder c ≠ .none → ∀ {j}, L.floor c ≤ j →
    j < pagesPerChunk → pt (c / pageSize + j) = .memfd ((chunks c).memfdOff / pageSize + j)
  off_mod : cfg.meshMode = true → ∀ {c}, L.holder c ≠ .none → (chunks c).memfdOff % chunkSize = 0
  off_inj : cfg.meshMode = true → ∀ {c c'}, L.holder c ≠ .none → L.holder c' ≠ .none →
    (chunks c).memfdOff = (chunks c').memfdOff → c = c'
  off_lt : cfg.meshMode = true → ∀ {c}, L.holder c ≠ .none → (chunks c).memfdOff < bump
  off_freed : cfg.meshMode = true → ∀ {c}, L.holder c ≠ .none → (chunks c).memfdOff ∉ freed
  freed_mod : ∀ {o}, o ∈ freed → o % chunkSize = 0
  freed_lt : ∀ {o}, o ∈ freed → o < bump
  freed_nodup : freed.Nodup
  bump_mod : bump % chunkSize = 0

/-! ## The address space and the owner table -/

/-- The runs of bytes with one owner: slots in use, and the mappings of large objects. -/
inductive Ledger.Unit (L : Ledger) : ℕ → ℕ → Prop where
  | slot {q : PoolId} {r : SlabRef} {i s : ℕ} : L.place s ≠ .void → L.SlotIn q r i s →
      L.Unit s (btmScToSize q.sc)
  | large {b : ℕ} {hd : LargeHdr} : L.large b = some hd → L.Unit b hd.mapLen

/-- The word that names the owner of a region. -/
inductive Ledger.Covers (L : Ledger) (key : ℕ) : ℕ → Prop where
  | chunk : L.holder (key * chunkSize) ≠ .none → L.Covers key (key * chunkSize)
  | large {b : ℕ} {hd : LargeHdr} : L.large b = some hd → b / chunkSize ≤ key →
      key ≤ (b + hd.mapLen - 1) / chunkSize → L.Covers key (b ||| 1)

/-- A large object at `b`. -/
structure LargeOk (pt : ℕ → Frame) (mapped : ℕ → Bool) (b : ℕ) (hd : LargeHdr) : Prop where
  base_mod : b % pageSize = 0
  base_pos : 0 < b
  len_mod : hd.mapLen % pageSize = 0
  le : b + hd.mapLen ≤ 2 ^ 47
  off_ge : largeHdrSize ≤ hd.userOff
  off_mod : hd.userOff % btmAlignment = 0
  off_lt : hd.userOff < hd.mapLen
  mapped : ∀ {j}, j < hd.mapLen / pageSize → mapped (b / pageSize + j) = true
  frame : ∀ {j}, j < hd.mapLen / pageSize → pt (b / pageSize + j) = .anon (b / pageSize + j)

structure SpaceRep (pt : ℕ → Frame) (mapped : ℕ → Bool) (larges : ℕ → LargeHdr) (L : Ledger) :
    Prop where
  chunk : ∀ {c}, L.holder c ≠ .none → ∀ {j}, j < pagesPerChunk → mapped (c / pageSize + j) = true
  large : ∀ {b hd}, L.large b = some hd → LargeOk pt mapped b hd
  header : ∀ {b hd}, L.large b = some hd → larges b = hd
  /-- No two mappings share a 2 MiB region. -/
  unique : ∀ {key w w'}, L.Covers key w → L.Covers key w' → w = w'

/-- The table names no wrong owner. -/
def OwnerRep (T : OwnerTable) (L : Ledger) : Prop :=
  ∀ key < 2 ^ 27, ownerAt T key ≠ 0 → L.Covers key (ownerAt T key)

/-! ## The whole heap -/

/-- The links that the program may still decode are fresh, and so were all it decoded. -/
structure LogRep (log : List Event) (L : Ledger) : Prop where
  good : Good log
  free : ∀ {q r}, L.SlabIn q r → (L.stage r).intact = true → ∀ {s}, s ∈ L.freeList r → Fresh log s
  bin : ∀ {t i s}, s ∈ L.bin t i → Fresh log s

/-- The heap and the thread bins stand for the ledger `L`. -/
structure HeapRep (cfg : Config) (h : Heap) (bins : ℕ → ℕ → Bin) (L : Ledger) : Prop where
  desc : DescRep h.slabs L
  lists : ListRep h.slabs h.pools L
  tally : TallyRep h.pools L
  header : HeaderRep h.chunks L
  chunks : ChunkRep h.chunks h.pools L
  depot : DepotRep h.chunks h.warmHead h.warmCount h.disposeHead L
  free : FreeRep cfg h.mem h.slabs L
  bins : BinRep cfg h.mem bins L
  frame : FrameRep cfg h.mem.pt h.chunks h.memfdBump h.memfdFree L
  space : SpaceRep h.mem.pt h.mapped h.larges L
  owner : OwnerRep h.owners L
  log : LogRep h.log L

end BtMalloc
