import BtMalloc.Conditions
import BtMalloc.Lib.Transition

/-!
# Where chunks go (`background.c`, `partition.c`)

`btm_chunk_obtain` and `btm_chunk_dispose`, cut at their lock sections, with the list operations that
`btm_slab_new` and `slab_became_free` do around them, and the maintenance thread. A step uses the
functions of the allocator on the heap. The pool locks are left out: any thread may be inside for any
pool, so there are more runs than the program has.
-/

namespace BtMalloc.ChunkFlow

open LinkedList

/-- Where a thread is in obtaining or disposing of a chunk. -/
inductive Pc where
  | idle
  /-- The warm stack was empty: `map_fresh` comes next. -/
  | mapping (q : PoolId)
  /-- `chunk_init_header` comes next. -/
  | got (q : PoolId) (c : ℕ)
  /-- `btm_chunk_obtain` has returned the chunk; the pool links it next. -/
  | ready (q : PoolId) (c : ℕ)
  /-- The pool has unlinked the chunk; `btm_chunk_dispose` reads `bg_async` next. -/
  | unlinked (c : ℕ)
  | queueing (c : ℕ)
  /-- The pages are released; the warm stack comes next. -/
  | warming (c : ℕ)
  /-- The warm stack was full. -/
  | trimming (c : ℕ)
  deriving DecidableEq

/-- The chunk in a thread's hands. -/
def Pc.chunk : Pc → Option ℕ
  | idle | mapping _ => none
  | got _ c | ready _ c | unlinked c | queueing c | warming c | trimming c => some c

/-- Where the maintenance thread is. -/
inductive BgAt where
  | loop (pc : BgPc)
  /-- It has mapped a chunk ahead of demand and takes `bg_lock` next. -/
  | pushing (c : ℕ) (deficit : ℤ)

structure State where
  heap : Heap
  /-- `none` until the maintenance thread is created. -/
  bg : Option BgAt
  threads : ℕ → Pc

def State.init : State := { heap := Heap.init, bg := none, threads := fun _ => .idle }

def State.goto (s : State) (h : Heap) (t : ℕ) (pc : Pc) : State :=
  { s with heap := h, threads := Function.update s.threads t pc }

inductive Action where
  /-- Thread `t` calls `btm_chunk_obtain` for pool `q` and looks at the warm stack. -/
  | obtain (t : ℕ) (q : PoolId)
  /-- Thread `t` unlinks chunk `c` from pool `q` to dispose of it. -/
  | dispose (t : ℕ) (q : PoolId) (c : ℕ)
  /-- The next step of thread `t`. -/
  | next (t : ℕ) (k : Kernel)
  /-- Pool `q` carves slabs from its chunk `c`, or frees them. -/
  | carve (q : PoolId) (c nextFreePage liveSlabs : ℕ) (pageOwner : ℕ → ℕ)
  /-- The maintenance thread is created. -/
  | bgCreate
  /-- `bg_async` is set. -/
  | bgAsync
  /-- The next step of the maintenance thread. -/
  | bg (k : Kernel) (ring : Bool)

/-- Chunk `c` is on the chunk list of pool `q`. -/
def onPoolList (h : Heap) (q : PoolId) (c : ℕ) : Bool :=
  (walk (fun x => (h.chunks x).next) listFuel (h.pools q).chunks).contains c

/-- `slab_became_free` before `btm_chunk_dispose`, without the pool's lists of slabs. -/
def leavePool (h : Heap) (q : PoolId) (c : ℕ) : Heap :=
  chunkUnlink
    (if (h.pools q).active = some c then h.modPool q fun P => { P with active := none } else h) q c

/-- Push a chunk on the dispose queue. -/
def queuePush (h : Heap) (c : ℕ) : Heap :=
  { h.modChunk c fun x => { x with next := h.disposeHead } with disposeHead := some c }

/-- One step of thread `t`. -/
def threadStep (cfg : Config) (k : Kernel) (s : State) (t : ℕ) : Option State :=
  let h := s.heap
  match s.threads t with
  | .idle => none
  | .mapping q => match mapFresh cfg k h with
    | (none, h) => some (s.goto h t .idle)
    | (some c, h) => some (s.goto h t (.got q c))
  | .got q c => some (s.goto (chunkInitHeader h c q) t (.ready q c))
  | .ready q c => some (s.goto (attachChunk h q c) t .idle)
  | .unlinked c =>
    let h := h.note (.dispose c (h.chunks c).pool)
    if h.bgAsync then some (s.goto h t (.queueing c))
    else some (s.goto (chunkDecommit cfg h c) t (.warming c))
  | .queueing c => some (s.goto (queuePush h c) t .idle)
  | .warming c =>
    if h.warmCount < warmHigh then some (s.goto (warmPush h c) t .idle)
    else some (s.goto h t (.trimming c))
  | .trimming c => some (s.goto (chunkTrim cfg k h c) t .idle)

/-- One step of the maintenance thread. Mapping ahead and pushing are two sections. -/
def maintain (cfg : Config) (k : Kernel) (ring : Bool) (s : State) : Option State :=
  match s.bg with
  | none => none
  | some (.pushing c deficit) =>
    some { s with heap := warmPush s.heap c, bg := some (.loop (.premap (deficit - 1))) }
  | some (.loop (.premap deficit)) =>
    if deficit ≤ 0 then some { s with bg := some (.loop .wait) }
    else match mapFresh cfg k s.heap with
      | (none, h) => some { s with heap := h, bg := some (.loop .wait) }
      | (some c, h) => some { s with heap := h, bg := some (.pushing c deficit) }
  | some (.loop pc) => match bgStep cfg k ring s.heap pc with
    | none => none
    | some (h, pc) => some { s with heap := h, bg := some (.loop pc) }

def step (cfg : Config) (s : State) : Action → Option State
  | .obtain t q => match s.threads t, s.heap.warmHead with
    | .idle, some c => some (s.goto
        { s.heap with warmHead := (s.heap.chunks c).next, warmCount := s.heap.warmCount - 1 }
        t (.got q c))
    | .idle, none => some (s.goto s.heap t (.mapping q))
    | _, _ => none
  | .dispose t q c => match s.threads t, onPoolList s.heap q c with
    | .idle, true => some (s.goto (leavePool s.heap q c) t (.unlinked c))
    | _, _ => none
  | .next t k => threadStep cfg k s t
  | .carve q c nextFreePage liveSlabs pageOwner =>
    if onPoolList s.heap q c then
      some { s with heap := s.heap.modChunk c fun x => { x with nextFreePage, liveSlabs, pageOwner } }
    else none
  | .bgCreate => match s.bg with
    | none => some { s with bg := some (.loop .wait) }
    | some _ => none
  | .bgAsync => match s.bg with
    | none => none
    | some _ => some { s with heap := { s.heap with bgAsync := true } }
  | .bg k ring => maintain cfg k ring s

/-! ## Places -/

/-- The lists of chunks that are not in a pool. -/
inductive Stack where
  | warm
  | queue
  /-- The maintenance thread's batch. -/
  | batch
  /-- The maintenance thread's chunks to unmap. -/
  | trim
  deriving DecidableEq

/-- Who has a chunk in hand. -/
inductive Who where
  | thread (t : ℕ)
  /-- The maintenance thread, a chunk it has just mapped. -/
  | bg
  deriving DecidableEq

inductive Place where
  | pool (q : PoolId)
  | stack (st : Stack)
  | hand (w : Who)
  deriving DecidableEq

/-- The head of a list. -/
def State.head (s : State) : Stack → Option ℕ
  | .warm => s.heap.warmHead
  | .queue => s.heap.disposeHead
  | .batch => match s.bg with
    | some (.loop (.release disp _)) | some (.loop (.giveBack disp _)) => disp
    | _ => none
  | .trim => match s.bg with
    | some (.loop (.giveBack _ trim)) | some (.loop (.trim trim _)) => trim
    | _ => none

def State.inHand (s : State) : Who → Option ℕ
  | .thread t => (s.threads t).chunk
  | .bg => match s.bg with
    | some (.pushing c _) => some c
    | _ => none

/-- Chunk `c` is at place `p`. -/
def State.At (s : State) : Place → ℕ → Prop
  | .pool q, c => ∃ l, DList (fun x => (s.heap.chunks x).next) (fun x => (s.heap.chunks x).prev) none
      (s.heap.pools q).chunks l ∧ c ∈ l
  | .stack st, c => ∃ l, Chain (fun x => (s.heap.chunks x).next) (s.head st) l ∧ c ∈ l
  | .hand w, c => s.inHand w = some c

/-- The 2 MiB at `c` are mapped. -/
def ChunkMapped (h : Heap) (c : ℕ) : Prop :=
  c % chunkSize = 0 ∧ ∀ j < pagesPerChunk, h.mapped (c / pageSize + j) = true

/-- The header of a chunk without slabs, for pool `q`. -/
structure HeaderReset (q : PoolId) (x : Chunk) : Prop where
  pool : x.pool = q
  nextFreePage : x.nextFreePage = dataStartPage
  liveSlabs : x.liveSlabs = 0
  pageOwner : ∀ i, x.pageOwner i = pageNone

/-- Every mapped chunk has one place, is registered, and is handed out without slabs. -/
structure Conserved (s : State) : Prop where
  place : ∀ c, ChunkMapped s.heap c → ∃! p, s.At p c
  mapped : ∀ p c, s.At p c → ChunkMapped s.heap c
  /-- There is no other mapped page. -/
  page : ∀ p, s.heap.mapped p = true → ChunkMapped s.heap (p / pagesPerChunk * chunkSize)
  /-- The lists end, and the back links of the pools' lists are right. -/
  pool : ∀ q, ∃ l, DList (fun x => (s.heap.chunks x).next) (fun x => (s.heap.chunks x).prev) none
    (s.heap.pools q).chunks l
  stack : ∀ st, ∃ l, Chain (fun x => (s.heap.chunks x).next) (s.head st) l ∧
    (st = .warm → s.heap.warmCount = l.length)
  registered : ∀ ptr < 2 ^ 48, ChunkMapped s.heap (ptr / chunkSize * chunkSize) →
    btmRegistryLookup s.heap ptr = ptr / chunkSize * chunkSize
  foreign : ∀ ptr < 2 ^ 48, ¬ ChunkMapped s.heap (ptr / chunkSize * chunkSize) →
    btmRegistryLookup s.heap ptr = 0
  obtained : ∀ t q c, s.threads t = .ready q c → HeaderReset q (s.heap.chunks c) ∧
    ∀ p, s.At p c → p = .hand (.thread t)

/-- If the kernel backs a new chunk, the store for its region is kept. -/
def LeafBacked (cfg : Config) (k : Kernel) (h : Heap) : Prop :=
  ¬ MapRefused cfg k h → ∀ raw, k.chunk = some raw →
    LeafReady k h.owners (chunkBase raw >>> chunkShift)

/-- `LeafBacked` holds for the steps that map a chunk. -/
def LeavesBacked (cfg : Config) (s : State) : Action → Prop
  | .next t k => ∀ q, s.threads t = .mapping q → LeafBacked cfg k s.heap
  | .bg k _ => ∀ deficit, s.bg = some (.loop (.premap deficit)) → 0 < deficit →
      LeafBacked cfg k s.heap
  | _ => True

end BtMalloc.ChunkFlow
