import BtMalloc.Api
import BtMalloc.OwnerEngines
import BtMalloc.Lib.Transition

/-!
# The region caches and the owner table, step by step (`internal.h`, `chunk.c`)

`btm_resolve_owner` reads the generation, its own cache entry and the table without a lock, while
other threads run `btm_registry_insert` and `btm_registry_remove`. Here every one of these accesses
is a step of its own. A removal bumps the generation after it has dropped the lock.
-/

namespace BtMalloc.RegionCache

/-- Where a thread is. -/
inductive Pc where
  | idle
  /-- `btm_resolve_owner` was called. -/
  | entered (ptr : ℕ)
  /-- The thread has no cache: only the table is asked. -/
  | direct (ptr : ℕ)
  /-- The generation is loaded. -/
  | loaded (ptr gen : ℕ)
  /-- The cache entry did not match. -/
  | missed (ptr gen : ℕ)
  /-- The table has an owner, which goes to the cache entry next. -/
  | found (ptr gen owner : ℕ)
  /-- The call returns `owner` next. -/
  | done (ptr owner : ℕ)
  /-- `btm_registry_insert` or `btm_registry_remove` was called. -/
  | waiting (op : RegistryOp)
  /-- In the loop under `registry_lock`, with the regions still to store. -/
  | storing (op : RegistryOp) (keys : List ℕ)
  /-- A removal that has dropped the lock and not bumped the generation yet. -/
  | bumping (op : RegistryOp)
  deriving DecidableEq

/-- The call on the table that a thread is in. -/
def Pc.op : Pc → Option RegistryOp
  | waiting op | storing op _ | bumping op => some op
  | idle | entered _ | direct _ | loaded _ _ | missed _ _ | found _ _ _ | done _ _ => none

/-- A thread: whether it has a cache, its entries, and where it is. -/
structure Reader where
  tls : Bool
  rcache : ℕ → RcacheEnt
  pc : Pc

structure State where
  /-- The table and `btm_registry_gen`, which is a 64-bit word here. -/
  heap : Heap
  /-- The thread that holds `registry_lock`. -/
  lock : Option ℕ
  /-- The number of removals that have bumped the generation. -/
  bumps : ℕ
  threads : ℕ → Reader

/-- Before the first call. -/
def State.init : State :=
  { heap := Heap.init, lock := none, bumps := 0,
    threads := fun _ => { tls := false, rcache := fun _ => ⟨0, 0, 0⟩, pc := .idle } }

/-- Update one thread. -/
def State.mod (s : State) (t : ℕ) (f : Reader → Reader) : State :=
  { s with threads := Function.update s.threads t (f (s.threads t)) }

/-- Move a thread to another point. -/
def State.goto (s : State) (t : ℕ) (pc : Pc) : State := s.mod t fun x => { x with pc := pc }

/-- The entry of a region. -/
def entryIdx (region : ℕ) : ℕ := region % 2 ^ 32 &&& 15

inductive Action where
  /-- Thread `t` calls `btm_resolve_owner(ptr)`. -/
  | call (t ptr : ℕ)
  /-- Thread `t` calls `btm_registry_insert` or `btm_registry_remove`. -/
  | start (t : ℕ) (op : RegistryOp)
  /-- Thread `t` makes the next access of the call it is in. -/
  | next (t : ℕ) (k : Kernel)
  /-- Thread `t` maps its cache. -/
  | attach (t : ℕ)
  /-- Thread `t` unmaps its cache. -/
  | detach (t : ℕ)

def Action.thread : Action → ℕ
  | call t _ | start t _ | next t _ | attach t | detach t => t

/-- The next access of the call that thread `t` is in. -/
def advance (k : Kernel) (s : State) (t : ℕ) : Pc → Option State
  | .idle => none
  | .entered ptr =>
    some (s.goto t (if (s.threads t).tls then .loaded ptr s.heap.registryGen else .direct ptr))
  | .direct ptr => some (s.goto t (.done ptr (btmRegistryLookup s.heap ptr)))
  | .loaded ptr gen =>
    let region := ptr >>> chunkShift
    let e := (s.threads t).rcache (entryIdx region)
    some (s.goto t (if e.region = region ∧ e.gen = gen ∧ e.owner ≠ 0 then .done ptr e.owner
      else .missed ptr gen))
  | .missed ptr gen =>
    let owner := btmRegistryLookup s.heap ptr
    some (s.goto t (if owner = 0 then .done ptr 0 else .found ptr gen owner))
  | .found ptr gen owner =>
    let region := ptr >>> chunkShift
    some (s.mod t fun x => { x with
      rcache := Function.update x.rcache (entryIdx region) ⟨region, owner, gen⟩
      pc := .done ptr owner })
  | .done _ _ => some (s.goto t .idle)
  | .waiting op =>
    if s.lock = none then
      some { s.goto t (.storing op (regionKeys op.base op.len)) with lock := some t }
    else none
  | .storing op (key :: keys) =>
    some { s.goto t (.storing op keys) with heap := registrySetLocked k op.owner s.heap key }
  | .storing (.insert _ _ _) [] => some { s.goto t .idle with lock := none }
  | .storing (.remove b n) [] => some { s.goto t (.bumping (.remove b n)) with lock := none }
  | .bumping _ =>
    some { s.goto t .idle with
      heap := { s.heap with registryGen := (s.heap.registryGen + 1) % 2 ^ 64 }
      bumps := s.bumps + 1 }

def step (s : State) : Action → Option State
  | .call t ptr => match (s.threads t).pc with
    | .idle => some (s.goto t (.entered ptr))
    | _ => none
  | .start t op => match (s.threads t).pc with
    | .idle => some (s.goto t (.waiting op))
    | _ => none
  | .next t k => advance k s t (s.threads t).pc
  | .attach t => match (s.threads t).pc with
    | .idle => if (s.threads t).tls then none
        else some (s.mod t fun x => { x with tls := true, rcache := fun _ => ⟨0, 0, 0⟩ })
    | _ => none
  | .detach t => match (s.threads t).pc with
    | .idle => some (s.mod t fun x => { x with tls := false })
    | _ => none

/-! ## Conditions on runs -/

/-- No call on the table that covers region `key` is under way. -/
def Quiet (key : ℕ) (s : State) : Prop :=
  ∀ t op, (s.threads t).pc.op = some op → key ∉ regionKeys op.base op.len

/-- A removal of region `key` has dropped the lock, but is not over. -/
def Unfinished (s : State) (key : ℕ) : Prop :=
  ∃ t op, (s.threads t).pc = .bumping op ∧ key ∈ regionKeys op.base op.len

/-- An insertion that gets the lock only targets regions without an owner whose removals are over. -/
def InsertsFresh (s : State) : Action → Prop
  | .next t _ => ∀ b n o, (s.threads t).pc = .waiting (.insert b n o) →
      ∀ key ∈ regionKeys b n, ownerAt s.heap.owners key = 0 ∧ ¬ Unfinished s key
  | .call _ _ | .start _ _ | .attach _ | .detach _ => True

/-- The pointers asked for and the regions stored are ones that the table tells apart. -/
def Distinguished : Action → Prop
  | .call _ ptr => ptr < 2 ^ 48
  | .start _ op => ∀ key ∈ regionKeys op.base op.len, key < 2 ^ 27
  | .next _ _ | .attach _ | .detach _ => True

end BtMalloc.RegionCache
