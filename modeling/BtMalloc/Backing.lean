import BtMalloc.Background
import BtMalloc.Lib.Transition

/-!
# The backing store word by word (`background.c`)

The offset stack of the memfd with its array, its growth and 64-bit sums, and the loop of
`decommit_batch` with the answers of `io_uring_get_sqe`. `Background` has the same functions with the
stack as a list and one chunk at a time.
-/

namespace BtMalloc.Backing

/-! ## memfd offsets -/

/-- `memfd_bump`, `memfd_size`, `memfd_free`, `memfd_free_n` and `memfd_free_cap`. -/
structure Memfd where
  bump : ℕ
  size : ℕ
  free : ℕ → ℕ
  freeN : ℕ
  freeCap : ℕ

def Memfd.init : Memfd := { bump := 0, size := 0, free := fun _ => 0, freeN := 0, freeCap := 0 }

/-- The offsets on the free stack, the oldest first. -/
def Memfd.stack (m : Memfd) : List ℕ := (List.range m.freeN).map m.free

/-- `memfd_alloc_off`; `none` is `UINT64_MAX`. `ftruncate` refuses a size that is no `off_t`. -/
def memfdAllocOff (trunc : Bool) (m : Memfd) : Option ℕ × Memfd :=
  if 0 < m.freeN then (some (m.free (m.freeN - 1)), { m with freeN := m.freeN - 1 })
  else
    let off := m.bump
    let bump := (m.bump + chunkSize) % 2 ^ 64
    if m.size < bump then
      let want := (m.size + 256 * chunkSize) % 2 ^ 64
      let want := if want < bump then bump else want
      if trunc && want.blt (2 ^ 63) then (some off, { m with bump := bump, size := want })
      else (none, { m with bump := (bump + 2 ^ 64 - chunkSize) % 2 ^ 64 })
    else (some off, { m with bump := bump })

/-- The copy loop of `memfd_free_off` into a fresh array. -/
def copyLoop (old : ℕ → ℕ) : ℕ → ℕ → ℕ
  | 0 => fun _ => 0
  | i + 1 => Function.update (copyLoop old i) i (old i)

/-- The growth of the stack in `memfd_free_off`; an array of length 0 cannot be mapped. -/
def growStack (grow : Bool) (m : Memfd) : Memfd :=
  if m.freeN = m.freeCap then
    let ncap := if m.freeCap = 0 then 64 else m.freeCap * 2 % 2 ^ 32
    if grow && (0).blt ncap then { m with free := copyLoop m.free m.freeN, freeCap := ncap } else m
  else m

/-- `memfd_free_off`. -/
def memfdFreeOff (grow : Bool) (off : ℕ) (m : Memfd) : Memfd :=
  let m := growStack grow m
  if m.freeN < m.freeCap then
    { m with free := Function.update m.free m.freeN off, freeN := m.freeN + 1 }
  else m

/-- The offsets with those that chunks have. -/
structure State where
  memfd : Memfd
  allocated : List ℕ

def State.init : State := { memfd := Memfd.init, allocated := [] }

inductive Action where
  /-- `memfd_alloc_off`, with the answer of `ftruncate`. -/
  | alloc (trunc : Bool)
  /-- `memfd_free_off` of an allocated offset, with the answer of `mmap`. -/
  | free (off : ℕ) (grow : Bool)

def step (s : State) : Action → Option State
  | .alloc trunc => match memfdAllocOff trunc s.memfd with
    | (some off, m) => some { memfd := m, allocated := off :: s.allocated }
    | (none, m) => some { s with memfd := m }
  | .free off grow =>
    if off ∈ s.allocated then
      some { memfd := memfdFreeOff grow off s.memfd, allocated := s.allocated.erase off }
    else none

/-- No two chunks share an offset, and offsets lie inside the file. -/
structure Unshared (s : State) : Prop where
  allocated : s.allocated.Nodup
  inside : ∀ off ∈ s.allocated, off % chunkSize = 0 ∧ off + chunkSize ≤ s.memfd.size
  stack : s.memfd.stack.Nodup
  apart : ∀ off ∈ s.allocated, off ∉ s.memfd.stack

/-! ## Releasing a batch -/

/-- `decommit_batch` from the `i`-th chunk of its list on. `sqe i` says whether the two calls of
    `io_uring_get_sqe` for that chunk have an entry; between them the ring is flushed. -/
def decommitBatch (cfg : Config) (ringOk : Bool) (sqe : ℕ → Bool × Bool) :
    ℕ → ℕ → Option ℕ → Heap → Heap
  | 0, _, _, h => h
  | _ + 1, _, none, h => h
  | fuel + 1, i, some c, h =>
    let h := decommitOne cfg (ringOk && ((sqe i).1 || (sqe i).2)) h c
    decommitBatch cfg ringOk sqe fuel (i + 1) (h.chunks c).next h

/-- The pages a release gives back. -/
def released (e : Event) (p : ℕ) : Prop := ∃ a n, e = .release a n ∧ a ≤ p ∧ p < a + n

/-- The releases of a batch are exactly the data pages of its chunks, each chunk once. -/
structure DataReleased (l : List ℕ) (ev : List Event) : Prop where
  pages : ∀ p, (∃ e ∈ ev, released e p) ↔
    ∃ c ∈ l, c / pageSize + dataStartPage ≤ p ∧ p < c / pageSize + pagesPerChunk
  once : ∀ c ∈ l, ev.count (.release (c / pageSize + dataStartPage) (pagesPerChunk - dataStartPage)) = 1

/-- No chunk of the batch goes through the ring. -/
def WithoutRing (cfg : Config) (ringOk : Bool) (sqe : ℕ → Bool × Bool) (n : ℕ) : Prop :=
  cfg.meshMode = true ∨ ringOk = false ∨ ∀ i < n, sqe i = (false, false)

end BtMalloc.Backing
