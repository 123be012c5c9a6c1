import BtMalloc.Lib.LockProgram
import Mathlib.Data.List.FinRange

/-!
# The allocator's mutexes (`partition.c`, `background.c`, `chunk.c`, `large.c`, `btmalloc.c`)

Every function by the mutexes it takes, with its branches and loops but not the conditions on them,
and `fork` with the child's handler. `pthread_cond_wait` gives its mutex back and takes it again.
-/

namespace BtMalloc.ForkLocks

open Locking Locking.Prog

/-- The mutexes of an allocator with `n` pools. -/
inductive Lock (n : ℕ) where
  | pool (q : Fin n)
  | bg
  | bgStart
  | registry
  | memfd
  | intern
  deriving DecidableEq

variable {n : ℕ}

abbrev Code (n : ℕ) := Prog (Lock n)

/-- A branch that may be skipped. -/
def opt (p : Code n) : Code n := alt skip p

/-- A section without nested sections. -/
def short (l : Lock n) : Code n := withLock l skip

/-- Code for one of the pools. -/
def somePool (p : Fin n → Code n) : Code n := ((List.finRange n).map p).foldr alt skip

/-- Code for each pool in turn. -/
def eachPool (p : Fin n → Code n) : Code n := ((List.finRange n).map p).foldr seq skip

/-- Code that only runs in mesh mode. -/
def inMesh (mesh : Bool) (p : Code n) : Code n := if mesh then p else skip

/-! ## `chunk.c`, `large.c` -/

def btmRegistryInsert : Code n := short .registry

def btmRegistryRemove : Code n := short .registry

def btmLargeAlloc : Code n := opt btmRegistryInsert

def btmLargeFree : Code n := btmRegistryRemove

def btmLargeRealloc : Code n := opt (seq btmRegistryRemove btmRegistryInsert)

/-! ## `background.c` -/

def memfdAllocOff : Code n := short .memfd

def memfdFreeOff : Code n := short .memfd

/-- `map_fresh`: it gives the offset back if a mapping is refused. -/
def mapFresh (mesh : Bool) : Code n :=
  seq (inMesh mesh memfdAllocOff) (alt (opt (inMesh mesh memfdFreeOff)) btmRegistryInsert)

def bgSignal : Code n := short .bg

def btmChunkObtain (mesh : Bool) : Code n :=
  seq (short .bg) (seq (opt (mapFresh mesh)) (opt bgSignal))

/-- Unmapping a chunk. -/
def unmapChunk (mesh : Bool) : Code n := seq btmRegistryRemove (inMesh mesh memfdFreeOff)

def btmChunkDispose (mesh : Bool) : Code n :=
  alt (short .bg) (seq (short .bg) (opt (unmapChunk mesh)))

/-- `bg_main`: waits for work, takes it, hands it back, trims and maps ahead. -/
def bgMain (mesh : Bool) : Code n :=
  star (seq (star (short .bg)) (seq (short .bg)
    (seq (star (unmapChunk mesh)) (star (seq (mapFresh mesh) (opt (short .bg)))))))

/-! ## `partition.c`, `tcache.c` -/

def btmPoolRefill (mesh : Bool) (q : Fin n) : Code n := withLock (.pool q) (opt (btmChunkObtain mesh))

/-- `btm_pool_flush`: any number of the slots make their chunk free. -/
def btmPoolFlush (mesh : Bool) (q : Fin n) : Code n :=
  withLock (.pool q) (star (btmChunkDispose mesh))

def btmPoolFreeOne (mesh : Bool) (q : Fin n) : Code n :=
  withLock (.pool q) (opt (btmChunkDispose mesh))

def btmCompact : Code n := eachPool fun q => short (.pool q)

def btmPageoutCold : Code n := eachPool fun q => short (.pool q)

def btmTlsDestroy (mesh : Bool) : Code n := eachPool fun q => opt (btmPoolFlush mesh q)

/-! ## `btmalloc.c` -/

def btmInternSlow : Code n := star (short .intern)

/-- `btm_malloc_at` of a thread that has its cache, or after `bg_started` has been set. -/
def btmMallocCached (mesh : Bool) : Code n :=
  alt btmLargeAlloc (seq btmInternSlow (opt (somePool (btmPoolRefill mesh))))

def btmFree (mesh : Bool) : Code n :=
  alt skip (alt btmLargeFree (alt (somePool (btmPoolFlush mesh)) (somePool (btmPoolFreeOne mesh))))

/-- `btm_bg_ensure_started`: `pthread_create` allocates and frees. -/
def btmBgEnsureStarted (mesh : Bool) : Code n :=
  opt (withLock .bgStart (star (alt (btmMallocCached mesh) (btmFree mesh))))

/-- `btm_malloc_at`, and the other functions that only allocate. -/
def btmMalloc (mesh : Bool) : Code n :=
  alt btmLargeAlloc (seq (opt (btmBgEnsureStarted mesh))
    (seq btmInternSlow (opt (somePool (btmPoolRefill mesh)))))

/-- `btm_realloc_at`. -/
def btmRealloc (mesh : Bool) : Code n :=
  alt (alt (btmMalloc mesh) (btmFree mesh)) (alt (seq (btmMalloc mesh) (opt (btmFree mesh))) btmLargeRealloc)

/-! ## Runs -/

/-- What a thread does: a call from the client, its end, or the maintenance thread's loop. -/
inductive Op where
  | malloc
  | free
  | realloc
  | compact
  | pageoutCold
  | tlsDestroy
  | bgMain

def Op.code (mesh : Bool) : Op → Code n
  | malloc => btmMalloc mesh
  | free => btmFree mesh
  | realloc => btmRealloc mesh
  | compact => btmCompact
  | pageoutCold => btmPageoutCold
  | tlsDestroy => btmTlsDestroy mesh
  | bgMain => ForkLocks.bgMain mesh

/-- The mutexes that `btm_atfork_child` and `btm_bg_atfork_child` initialise again. -/
def btmAtforkChild : Lock n → Bool
  | .pool _ | .bg | .bgStart => true
  | .registry | .memfd | .intern => false

inductive Action where
  | spawn
  | exit (t : ℕ)
  | call (t : ℕ) (op : Op)
  | next (t : ℕ) (b : Bool)
  /-- Thread `t` forks; the run goes on in the child, after its handler. -/
  | fork (t : ℕ)

def init : State (Lock n) := { owner := fun _ => none, threads := fun _ => none, next := 0 }

def step (mesh : Bool) (s : State (Lock n)) : Action → Option (State (Lock n))
  | .spawn => some s.spawn
  | .exit t => match s.threads t with
    | some [] => some (s.exit t)
    | _ => none
  | .call t op => match s.threads t with
    | some [] => some (s.goto t [.run (op.code mesh)])
    | _ => none
  | .next t b => s.advance t b
  | .fork t => match s.threads t with
    | some [] => some (s.fork t btmAtforkChild)
    | _ => none

/-- No thread holds one of the mutexes that the child's handler leaves alone. -/
def Clean (s : State (Lock n)) : Prop :=
  s.owner .registry = none ∧ s.owner .memfd = none ∧ s.owner .intern = none

/-- Threads fork in such states only. -/
def ForksClean (s : State (Lock n)) : Action → Prop
  | .fork _ => Clean s
  | .spawn | .exit _ | .call _ _ | .next _ _ => True

end BtMalloc.ForkLocks
