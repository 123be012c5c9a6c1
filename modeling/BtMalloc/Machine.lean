import BtMalloc.Api

/-!
# The machine: threads, the maintenance thread and the client

The allocator as a transition system. A step is one call into the allocator up to its next point
where another thread can interfere, one iteration of a flush loop, one step of the maintenance
thread, or a store of the client into an object it owns. The client keeps the rules: it only frees
and resizes pointers it owns, and frees them once.

The flush loops are cut finer than the pool lock cuts them, so every interleaving of the program's
locked sections is a run of this machine. `btm_realloc` of an object that moves is one step up to its
flush: between the allocation and the release of the old object it touches the two objects, which only
this thread may use then, and its own cache.
-/

namespace BtMalloc

open Word

/-- The allocator, the maintenance thread and the client. -/
structure World where
  sys : Sys
  bg : BgPc
  /-- The objects the client owns, with the size it asked for. -/
  live : ℕ → Option ℕ
  /-- The last byte the owner of an object stored at an offset. -/
  shadow : ℕ → ℕ → Option UInt8

/-- Before the first call, with the owner table `T`. -/
def World.start (T : OwnerTable) : World :=
  { sys := { heap := { Heap.init with owners := T }, threads := fun _ => Thread.init }, bg := .wait,
    live := fun _ => none, shadow := fun _ _ => none }

/-- Before the first call, in a build with the radix table. -/
def World.init : World := World.start (.radix fun _ => none)

/-- A step of the machine. The kernel's answers are part of the step. -/
inductive Action where
  /-- A call for new storage by thread `t`, made from `ra`. -/
  | alloc (t : ℕ) (c : Alloc) (ra : ℕ) (k : Kernel)
  /-- `btm_realloc(p, size)` of an object by thread `t`, up to the flush of an overfull bin. -/
  | realloc (t p size : ℕ) (ra : ℕ) (k : Kernel)
  /-- `btm_free(p)` by thread `t`, up to the flush of an overfull bin. -/
  | free (t : ℕ) (p : ℕ) (k : Kernel)
  /-- The next iteration of the flush that `btm_free` of thread `t` is in. -/
  | flush (t : ℕ) (k : Kernel)
  /-- Thread `t` enters `btm_tls_destroy`. -/
  | exit (t : ℕ)
  /-- The next iteration of the loops of `btm_tls_destroy` of thread `t`. -/
  | exitStep (t : ℕ) (k : Kernel)
  /-- The client stores byte `b` at offset `off` of its object `p`. -/
  | write (p off : ℕ) (b : UInt8)
  /-- `btm_compact()`. -/
  | compact (k : Kernel)
  /-- `btm_bg_ensure_started` starts the maintenance thread. -/
  | bgStart
  /-- The next step of the maintenance thread. -/
  | bg (k : Kernel) (ring : Bool)

/-- `btm_malloc(size)` by thread `t`. -/
@[match_pattern]
abbrev Action.malloc (t size : ℕ) (ra : ℕ) (k : Kernel) : Action := .alloc t (.malloc size) ra k

namespace World

/-- Replace the allocator's state. -/
def setSys (w : World) (s : Sys) : World := { w with sys := s }

/-- The client got `p` for a request of `size` bytes. -/
def give (w : World) (p size : ℕ) : World :=
  if p = 0 then w
  else
    { w with
      live := Function.update w.live p (some size)
      shadow := Function.update w.shadow p fun _ => none }

/-- The client gives `p` up. -/
def take (w : World) (p : ℕ) : World := { w with live := Function.update w.live p none }

/-- `btm_realloc(p, size)` of the object at `p` returned `q`. What the owner stored travels along. -/
def resize (w : World) (p q size : ℕ) : World :=
  if size = 0 then w.take p
  else if q = 0 then w
  else
    { w with
      live := Function.update (Function.update w.live p none) q (some size)
      shadow := Function.update w.shadow q fun off => if off < size then w.shadow p off else none }

end World

/-- Move a thread to another point of its program. -/
def Sys.setPc (s : Sys) (t : ℕ) (pc : Pc) : Sys := s.modThread t fun x => { x with pc := pc }

/-- Thread `t` goes into the flush that a call left to do. -/
def Sys.startFlush (s : Sys) (t : ℕ) : Option (ℕ × ℕ) → Sys
  | none => s
  | some (i, keep) => s.setPc t (.flushing i keep)

/-- One iteration of the loop of `btm_pool_flush` on bin `i` of thread `t`. -/
def flushBin (cfg : Config) (k : Kernel) (t i : ℕ) (q : PoolId) (s : Sys) : Sys :=
  let (bin, h) := flushOne cfg k q ((s.threads t).bins i) s.heap
  (s.setHeap h).setBin t i bin

/-- `nbins` of `btm_tls_destroy`. -/
def Config.nbins (cfg : Config) : ℕ := cfg.nparts * numSizeClasses

/-- What a step does; `none` when it is not enabled or the program traps. -/
def step (cfg : Config) (w : World) : Action → Option World
  | .alloc t c ra k =>
    if (w.sys.threads t).pc = .idle ∧ c.Words then
      match c.run cfg k t ra w.sys with
      | .ok (p, s) => some ((w.setSys s).give p c.bytes)
      | .error _ => none
    else none
  | .realloc t p size ra k =>
    if (w.sys.threads t).pc = .idle ∧ (w.live p).isSome ∧ size < 2 ^ 64 then
      match btmReallocHead cfg k t p size ra w.sys with
      | .ok (q, fl, s) => some ((w.resize p q size).setSys (s.startFlush t fl))
      | .error _ => none
    else none
  | .free t p k =>
    if (w.sys.threads t).pc = .idle ∧ (w.live p).isSome then
      match btmFreeHead cfg k t p w.sys with
      | .ok (fl, s) => some ((w.take p).setSys (s.startFlush t fl))
      | .error _ => none
    else none
  | .flush t k =>
    match (w.sys.threads t).pc with
    | .flushing i keep =>
      let bin := (w.sys.threads t).bins i
      match bin.pool with
      | none => none
      | some q =>
        if keep < bin.count then some (w.setSys (flushBin cfg k t i q w.sys))
        else some (w.setSys (w.sys.setPc t .idle))
    | _ => none
  | .exit t =>
    if (w.sys.threads t).pc = .idle ∧ (w.sys.threads t).tls then
      some (w.setSys (w.sys.modThread t fun x => { x with tls := false, pc := .exiting 0 }))
    else none
  | .exitStep t k =>
    match (w.sys.threads t).pc with
    | .exiting i =>
      if i < cfg.nbins then
        let bin := (w.sys.threads t).bins i
        match bin.pool with
        | none => some (w.setSys (w.sys.setPc t (.exiting (i + 1))))
        | some q =>
          if bin.count = 0 then some (w.setSys (w.sys.setPc t (.exiting (i + 1))))
          else some (w.setSys (flushBin cfg k t i q w.sys))
      else some (w.setSys (w.sys.setPc t .idle))
    | _ => none
  | .write p off b =>
    match w.live p with
    | none => none
    | some size =>
      if off < size ∧ w.sys.heap.mapped ((p + off) / pageSize) then
        let h := { w.sys.heap with mem := w.sys.heap.mem.write (p + off) 1 fun _ => b }
        some { w with
          sys := w.sys.setHeap h
          shadow := Function.update w.shadow p (Function.update (w.shadow p) off (some b)) }
      else none
  | .compact k => some (w.setSys (w.sys.setHeap (btmCompact cfg k w.sys.heap).2))
  | .bgStart => some (w.setSys (w.sys.setHeap { w.sys.heap with bgAsync := true }))
  | .bg k ring =>
    if w.sys.heap.bgAsync then
      match bgStep cfg k ring w.sys.heap w.bg with
      | some (h, pc) => some { w with sys := w.sys.setHeap h, bg := pc }
      | none => none
    else none

end BtMalloc
