import BtMalloc.Api
import BtMalloc.Lib.Transition

/-!
# Initialisation (`btmalloc.c`)

`read_nparts_env`, and the entry points as they run before and after `btm_do_init` has succeeded. The
other modules start from an initialised allocator; here the once-flag, `btm_ready` and the partition
table are spelled out.
-/

namespace BtMalloc.Startup

/-! ## `read_nparts_env` -/

/-- The loop of `read_nparts_env`; `none` when the fuel runs out first. -/
def roundLoop (p : BitVec 32) : ℕ → BitVec 32 → Option (BitVec 32)
  | 0, _ => none
  | fuel + 1, np => if np < p then roundLoop p fuel (np <<< 1) else some np

/-- `read_nparts_env`; `v` is what `atol` returns, `none` if the variable is not set or empty. -/
def readNpartsEnv (fuel : ℕ) (v : Option (BitVec 64)) : Option (BitVec 32) :=
  let p : BitVec 32 := match v with
    | some v => if 1 ≤ v.toInt then v.setWidth 32 else 64
    | none => 64
  (roundLoop p fuel 1).map fun np => if 4096 < np then 4096 else np

/-- What the number of partitions should be: the least power of two that is at least `min v 4096`, or
    64 if `v` is not positive. -/
structure Partitions (v : BitVec 64) (np : ℕ) : Prop where
  least : 1 ≤ v.toInt → IsLeast {x : ℕ | (∃ k, x = 2 ^ k) ∧ min v.toInt 4096 ≤ x} np
  default : v.toInt < 1 → np = 64
  range : ∃ k ≤ 12, np = 2 ^ k

/-- `v` survives the narrowing to 32 bits well enough, and the doubling loop ends for it. -/
def NpartsInRange (v : BitVec 64) : Prop :=
  v.toInt < 1 ∨ (v.toNat % 2 ^ 32 ≤ 2 ^ 31 ∧ (v.toNat < 2 ^ 32 ∨ 2048 < v.toNat % 2 ^ 32))

/-! ## The entry points -/

/-- The allocator with the state of its initialisation. -/
structure Boot where
  /-- `btm_init_once` has been used up. -/
  once : Bool
  /-- `btm_partitions` is mapped and `btm_ready` set. -/
  ready : Bool
  sys : Sys

/-- When the process starts. -/
def Boot.init : Boot :=
  { once := false, ready := false, sys := { heap := Heap.init, threads := fun _ => Thread.init } }

/-- The globals before `btm_do_init` has set them. -/
def unready (cfg : Config) : Config :=
  { cfg with
    hardenMode := false, meshMode := false, internMode := false, npartsLog := 0
    npartsLog_le := Config.plain.npartsLog_le }

/-- `btm_ensure_init`; `table` says whether the partition table can be mapped. `pthread_once` runs
    `btm_do_init` once, whether or not that succeeds. -/
def btmEnsureInit (table : Bool) (b : Boot) : Boot :=
  if b.ready then b else if b.once then b else { b with once := true, ready := table }

/-- The result of a function of the initialised allocator. -/
def Boot.lift (b : Boot) : Except Trap (ℕ × Sys) → Except Trap (ℕ × Boot)
  | .ok (p, s) => .ok (p, { b with sys := s })
  | .error e => .error e

/-- `btm_large_alloc`, which needs no partition table. -/
def largeAlloc (k : Kernel) (size alignment : ℕ) (b : Boot) : Except Trap (ℕ × Boot) :=
  match btmLargeAlloc k b.sys.heap size alignment with
  | .ok (p, h) => .ok (p, { b with sys := b.sys.setHeap h })
  | .error e => .error e

/-- The small path of `btm_malloc_at` for a thread that has its cache. Without a partition table a
    cached slot can still be popped; the refill path stores to `btm_partitions[part]`. -/
def smallAlloc (cfg : Config) (k : Kernel) (t sc ra : ℕ) (b : Boot) : Except Trap (ℕ × Boot) :=
  if b.ready then b.lift (.ok (mallocSmall cfg k t sc ra b.sys))
  else
    let part := (btmPartitionOf (unready cfg) t ra b.sys).1
    if ((b.sys.threads t).bins (binIdx ⟨part, sc⟩)).freeHead = 0 then .error .segv
    else b.lift (.ok (mallocSmall (unready cfg) k t sc ra b.sys))

/-- `btm_malloc_at` for a request whose size class is known. -/
def mallocClassAt (cfg : Config) (k : Kernel) (table : Bool) (t size ra : ℕ) (b : Boot) :
    Option ℕ → Except Trap (ℕ × Boot)
  | none => if size = 0 then .ok (0, b) else largeAlloc k size btmAlignment (btmEnsureInit table b)
  | some sc =>
    let b := if (b.sys.threads t).tls then b else btmEnsureInit table b
    match btmTlsGet k t b.sys with
    | none => .ok (0, b)
    | some s => smallAlloc cfg k t sc ra { b with sys := s }

/-- `btm_malloc_at`. -/
def mallocAt (cfg : Config) (k : Kernel) (table : Bool) (t size ra : ℕ) (b : Boot) :
    Except Trap (ℕ × Boot) := mallocClassAt cfg k table t size ra b (btmSizeToSc size)

/-- `btm_calloc_at`. -/
def callocAt (cfg : Config) (k : Kernel) (table : Bool) (t n size ra : ℕ) (b : Boot) :
    Except Trap (ℕ × Boot) :=
  if 2 ^ 64 ≤ n * size then .ok (0, b)
  else if n * size = 0 then .ok (0, b)
  else if smallMaxSize < n * size then largeAlloc k (n * size) btmAlignment (btmEnsureInit table b)
  else match mallocAt cfg k table t (n * size) ra b with
    | .error e => .error e
    | .ok (p, b) =>
      if p = 0 then .ok (0, b)
      else
        let h := { b.sys.heap with mem := b.sys.heap.mem.write p (n * size) fun _ => 0 }
        .ok (p, { b with sys := b.sys.setHeap h })

/-- What `btm_posix_memalign` and `btm_aligned_alloc` do once their arguments are checked. -/
def alignedAt (cfg : Config) (k : Kernel) (table : Bool) (t alignment size ra : ℕ) (b : Boot) :
    Except Trap (ℕ × Boot) :=
  let b := btmEnsureInit table b
  if alignment ≤ btmAlignment then mallocAt cfg k table t size ra b else largeAlloc k size alignment b

/-- A call with who makes it, from where, and what the kernel answers. -/
structure Step where
  call : Alloc
  t : ℕ
  ra : ℕ
  k : Kernel
  /-- The `mmap` of the partition table succeeds. -/
  table : Bool

/-- An allocation call; 0 for `NULL` or an error number. -/
def run (cfg : Config) (b : Boot) (x : Step) : Except Trap (ℕ × Boot) :=
  match x.call with
  | .malloc size | .realloc size => mallocAt cfg x.k x.table x.t size x.ra b
  | .calloc n size => callocAt cfg x.k x.table x.t n size x.ra b
  | .alignedAlloc alignment size =>
    if !isPow2 alignment || size == 0 || size % alignment != 0 then .ok (0, b)
    else alignedAt cfg x.k x.table x.t alignment size x.ra b
  | .posixMemalign alignment size =>
    if !isPow2 alignment || alignment % 8 != 0 || size == 0 then .ok (0, b)
    else alignedAt cfg x.k x.table x.t alignment size x.ra b

/-- The same call on an initialised allocator. -/
def initialised (cfg : Config) (s : Sys) (x : Step) : Except Trap (ℕ × Sys) := x.call.run cfg x.k x.t x.ra s

/-- The state after a call that does not trap. -/
def next (cfg : Config) (b : Boot) (x : Step) : Option Boot :=
  match run cfg b x with
  | .ok (_, b) => some b
  | .error _ => none

/-! ## What the calls should do -/

/-- A call before initialisation has succeeded: without a partition table a small request returns
    `NULL`, and if the table can be mapped the call initialises the allocator and allocates. -/
structure Clean (cfg : Config) (b : Boot) (x : Step) : Prop where
  fails : b.ready = false → x.table = false → x.call.Small → ∃ b', run cfg b x = .ok (0, b')
  retries : b.ready = false → x.table = true → x.call.request ≠ none →
    run cfg b x = Boot.lift { b with once := true, ready := true } (initialised cfg b.sys x)

/-- The allocator is initialised, the call asks for nothing, the first attempt is made now and
    succeeds, or neither the table nor, for a small request, the thread's cache can be had. -/
def Safe (b : Boot) (x : Step) : Prop :=
  b.ready = true ∨ x.call.request = none ∨ (b.once = false ∧ x.table = true) ∨
    (x.table = false ∧ (x.call.Small → (b.sys.threads x.t).tls = false ∧ x.k.tls = false))

end BtMalloc.Startup
