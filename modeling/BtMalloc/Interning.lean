import BtMalloc.Api
import BtMalloc.Lib.Transition
import Mathlib.Data.Finset.Filter
import Mathlib.Data.Finset.Range

/-!
# Call-site interning, step by step (`btmalloc.c`)

`btm_partition_of` in intern mode and `btm_intern_slow` with every access to shared memory a step of
its own: the lock-free probe, the claim of an empty slot under `intern_lock`, and the one-entry cache
of each thread. The table, `intern_next` and the hash are those of `btmInternSlow`.
-/

namespace BtMalloc.Interning

/-- The hash of a return address, `h >> 40`. -/
def hash (ra : ℕ) : ℕ := ((ra >>> 4) * 0x9E3779B97F4A7C15 % 2 ^ 64) >>> 40

/-- The slot where the search for a return address begins. -/
def start (cfg : Config) (ra : ℕ) : ℕ := hash ra &&& (cfg.internCap - 1)

/-- Where a thread is. -/
inductive Pc where
  | idle
  /-- `btm_partition_of` was called. -/
  | called (ra : ℕ)
  /-- Before loading slot `i`, after `probe` others. -/
  | probing (ra probe i : ℕ)
  /-- Slot `i` has the return address; its id is read next. -/
  | matched (ra i : ℕ)
  /-- Slot `i` was empty; the lock comes next. -/
  | empty (ra probe i : ℕ)
  /-- The lock is held; slot `i` is loaded again next. -/
  | locked (ra probe i : ℕ)
  /-- Slot `i` is still empty; `intern_next` is incremented next. -/
  | claiming (ra i : ℕ)
  /-- The id is known and stored in slot `i` next. -/
  | numbered (ra i id : ℕ)
  /-- The return address is stored in slot `i` next. -/
  | publishing (ra i id : ℕ)
  /-- The claim is made; the lock is dropped next. -/
  | claimed (ra id : ℕ)
  /-- Another thread has claimed slot `i` for `e`; the lock is dropped next. -/
  | beaten (ra probe i e : ℕ)
  /-- The partition is known; the thread's cache is set and the call returns next. -/
  | done (ra part : ℕ)
  deriving DecidableEq

/-- A thread: where it is, and its one-entry cache. -/
structure Caller where
  pc : Pc
  /-- `btm_tls_intern_ra`. -/
  internRa : ℕ
  /-- `btm_tls_intern_part`. -/
  internPart : ℕ

structure State where
  /-- `intern_tbl`: the return address and id of each entry. -/
  tbl : ℕ → ℕ × ℕ
  /-- `intern_next`. -/
  next : ℕ
  /-- The thread that holds `intern_lock`. -/
  lock : Option ℕ
  threads : ℕ → Caller
  /-- The return addresses that were given an id, in this order. -/
  claims : List ℕ
  /-- The calls of `btm_partition_of` that have returned, with their results. -/
  returned : List (ℕ × ℕ)

/-- Right after `btm_do_init`. -/
def State.init : State :=
  { tbl := fun _ => (0, 0), next := 0, lock := none,
    threads := fun _ => { pc := .idle, internRa := 0, internPart := 0 }, claims := [], returned := [] }

/-- Move a thread to another point. -/
def State.goto (s : State) (t : ℕ) (pc : Pc) : State :=
  { s with threads := Function.update s.threads t { s.threads t with pc := pc } }

/-- The step to the next slot, or the fallback once every slot has been probed. -/
def nextProbe (cfg : Config) (ra probe i : ℕ) : Pc :=
  if probe + 1 < cfg.internCap then .probing ra (probe + 1) ((i + 1) &&& (cfg.internCap - 1))
  else .done ra (hash ra &&& (cfg.nparts - 1))

/-- The next access of the call that thread `t` is in. -/
def advance (cfg : Config) (s : State) (t : ℕ) : Pc → Option State
  | .idle => none
  | .called ra =>
    let x := s.threads t
    if ra = x.internRa then
      some { s.goto t .idle with returned := (ra, x.internPart) :: s.returned }
    else some (s.goto t (.probing ra 0 (start cfg ra)))
  | .probing ra probe i =>
    let e := (s.tbl i).1
    some (s.goto t (if e = ra then .matched ra i else if e = 0 then .empty ra probe i
      else nextProbe cfg ra probe i))
  | .matched ra i => some (s.goto t (.done ra ((s.tbl i).2 &&& (cfg.nparts - 1))))
  | .empty ra probe i =>
    if s.lock = none then some { s.goto t (.locked ra probe i) with lock := some t } else none
  | .locked ra probe i =>
    let e := (s.tbl i).1
    some (s.goto t (if e = 0 then .claiming ra i else .beaten ra probe i e))
  | .claiming ra i =>
    some { s.goto t (.numbered ra i s.next) with
      next := (s.next + 1) % 2 ^ 32, claims := s.claims ++ [ra] }
  | .numbered ra i id =>
    some { s.goto t (.publishing ra i id) with tbl := Function.update s.tbl i ((s.tbl i).1, id) }
  | .publishing ra i id =>
    some { s.goto t (.claimed ra id) with tbl := Function.update s.tbl i (ra, (s.tbl i).2) }
  | .claimed ra id => some { s.goto t (.done ra (id &&& (cfg.nparts - 1))) with lock := none }
  | .beaten ra probe i e =>
    some { s.goto t (if e = ra then .matched ra i else nextProbe cfg ra probe i) with lock := none }
  | .done ra part =>
    some { s with
      threads := Function.update s.threads t { pc := .idle, internRa := ra, internPart := part }
      returned := (ra, part) :: s.returned }

inductive Action where
  /-- Thread `t` calls `btm_partition_of(ra)`. -/
  | call (t ra : ℕ)
  /-- Thread `t` makes the next access of its call. -/
  | next (t : ℕ)

def step (cfg : Config) (s : State) : Action → Option State
  | .call t ra => match (s.threads t).pc with
    | .idle => some (s.goto t (.called ra))
    | _ => none
  | .next t => advance cfg s t (s.threads t).pc

/-- The slot that a thread is about to fill, once it has an id for it. -/
def Pc.filling : Pc → Option ℕ
  | numbered _ i _ | publishing _ i _ => some i
  | idle | called _ | probing _ _ _ | matched _ _ | empty _ _ _ | locked _ _ _ | claiming _ _
  | claimed _ _ | beaten _ _ _ _ | done _ _ => none

/-- The entries of the table that were claimed: those with a return address, and the one the holder of
    the lock is filling. -/
def claimedEntries (cfg : Config) (s : State) : Finset ℕ :=
  (Finset.range cfg.internCap).filter fun i => (s.tbl i).1 ≠ 0 ∨
    s.lock.bind (fun t => (s.threads t).pc.filling) = some i

end BtMalloc.Interning
