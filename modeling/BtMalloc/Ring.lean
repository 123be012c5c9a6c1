import BtMalloc.Background
import BtMalloc.Lib.Transition

/-!
# Releasing chunks through the ring (`background.c`)

`decommit_batch` and the loop of `bg_main` around it, with the ring's submission queue, the requests
the kernel is working on and the completions spelled out. Completions are only counted: a completion
does not say which chunk it is about. The lists of chunks are lists here; the other threads take
chunks off the warm stack and dispose of them.
-/

namespace BtMalloc.Ring

/-- Where the maintenance thread is. `disp` is the batch, `rest` the part of it still to visit and
    `pending` the source's counter. -/
inductive Pc where
  /-- Before taking the dispose queue. -/
  | wait
  /-- At the head of the loop without a ring. -/
  | sync (disp rest : List ℕ)
  /-- At the head of the loop over the batch: `io_uring_get_sqe` comes next. -/
  | visit (disp rest : List ℕ) (pending : ℕ)
  /-- The ring is full for chunk `c`: `io_uring_submit` comes next. -/
  | flush (disp : List ℕ) (c : ℕ) (rest : List ℕ) (pending : ℕ)
  /-- In the inner loop of `io_uring_wait_cqe`. -/
  | drainFull (disp : List ℕ) (c : ℕ) (rest : List ℕ) (pending : ℕ)
  /-- The second `io_uring_get_sqe` for chunk `c` comes next. -/
  | retry (disp : List ℕ) (c : ℕ) (rest : List ℕ) (pending : ℕ)
  /-- After the loop: `io_uring_submit` comes next. -/
  | submit (disp : List ℕ) (pending : ℕ)
  /-- In the last loop of `io_uring_wait_cqe`. -/
  | drain (disp : List ℕ) (pending : ℕ)
  /-- Handing the batch back, with the chunks to trim so far. -/
  | giveBack (disp trim : List ℕ)
  /-- Unmapping the trimmed chunks. -/
  | trim (trim : List ℕ) (deficit : ℤ)
  /-- Mapping chunks ahead of demand. -/
  | premap (deficit : ℤ)

/-- The chunks in the maintenance thread's hands. -/
def Pc.chunks : Pc → List ℕ
  | wait | premap _ => []
  | sync disp _ | visit disp _ _ | flush disp _ _ _ | drainFull disp _ _ _ | retry disp _ _ _
  | submit disp _ | drain disp _ => disp
  | giveBack disp cs => disp ++ cs
  | trim cs _ => cs

structure State where
  /-- `bg_ring_ok`. -/
  ringOk : Bool
  /-- The dispose queue. -/
  queue : List ℕ
  /-- The warm stack. -/
  warm : List ℕ
  /-- The chunks that pools have. -/
  held : List ℕ
  /-- The requests prepared and not submitted. -/
  sq : List ℕ
  /-- The requests submitted and not completed; the kernel may carry them out at any moment. -/
  flight : List ℕ
  /-- The completions not consumed. -/
  cq : ℕ
  pc : Pc

/-- Before the first chunk is mapped. -/
def State.init (ringOk : Bool) : State :=
  { ringOk, queue := [], warm := [], held := [], sq := [], flight := [], cq := 0, pc := .wait }

/-- All mapped chunks. -/
def State.chunks (s : State) : List ℕ := s.queue ++ s.warm ++ s.held ++ s.pc.chunks

/-- What the kernel and the ring answer in a step of the maintenance thread. -/
structure Outcome where
  /-- `io_uring_get_sqe` has an entry. -/
  sqe : Bool
  /-- The number of entries that `io_uring_submit` takes. -/
  accepted : ℕ
  /-- `io_uring_wait_cqe` returns 0. -/
  wait : Bool
  /-- The address `map_fresh` maps, if any. -/
  map : Option ℕ

inductive Action where
  /-- The next step of the maintenance thread. -/
  | bg (o : Outcome)
  /-- The kernel has carried out the request for chunk `c`. -/
  | complete (c : ℕ)
  /-- A pool obtains a chunk, mapping a fresh one at `c` if the warm stack is empty. -/
  | chunkObtain (c : ℕ)
  /-- A pool disposes of chunk `c`. -/
  | chunkDispose (c : ℕ)

/-- The end of `decommit_batch`: skipped when nothing is pending. -/
def lastSubmit (disp : List ℕ) (pending : ℕ) : Pc :=
  if pending = 0 then .giveBack disp [] else .submit disp pending

/-- One step of the maintenance thread. -/
def bgStep (s : State) (o : Outcome) : Option State :=
  match s.pc with
  | .wait =>
    if s.queue ≠ [] ∨ (s.warm.length : ℤ) < warmLow then
      some { s with
        queue := []
        pc := if s.ringOk then .visit s.queue s.queue 0 else .sync s.queue s.queue }
    else none
  | .sync disp (_ :: rest) => some { s with pc := .sync disp rest }
  | .sync disp [] => some { s with pc := .giveBack disp [] }
  | .visit disp (c :: rest) pending =>
    if o.sqe then some { s with sq := s.sq ++ [c], pc := .visit disp rest (pending + 1) }
    else some { s with pc := .flush disp c rest pending }
  | .visit disp [] pending => some { s with pc := lastSubmit disp pending }
  | .flush disp c rest pending =>
    some { s with
      sq := s.sq.drop o.accepted, flight := s.sq.take o.accepted ++ s.flight
      pc := .drainFull disp c rest pending }
  | .drainFull disp c rest pending =>
    if pending = 0 then some { s with pc := .retry disp c rest pending }
    else if o.wait then
      if s.cq = 0 then none
      else some { s with cq := s.cq - 1, pc := .drainFull disp c rest (pending - 1) }
    else some { s with pc := .retry disp c rest pending }
  | .retry disp c rest pending =>
    if o.sqe then some { s with sq := s.sq ++ [c], pc := .visit disp rest (pending + 1) }
    else some { s with pc := .visit disp rest pending }
  | .submit disp pending =>
    some { s with
      sq := s.sq.drop o.accepted, flight := s.sq.take o.accepted ++ s.flight
      pc := .drain disp pending }
  | .drain disp pending =>
    if pending = 0 then some { s with pc := .giveBack disp [] }
    else if o.wait then
      if s.cq = 0 then none
      else some { s with cq := s.cq - 1, pc := .drain disp (pending - 1) }
    else some { s with pc := .giveBack disp [] }
  | .giveBack (c :: disp) trim =>
    if (s.warm.length : ℤ) < warmHigh then
      some { s with warm := c :: s.warm, pc := .giveBack disp trim }
    else some { s with pc := .giveBack disp (c :: trim) }
  | .giveBack [] trim => some { s with pc := .trim trim (warmLow - s.warm.length) }
  | .trim (_ :: trim) deficit => some { s with pc := .trim trim deficit }
  | .trim [] deficit => some { s with pc := .premap deficit }
  | .premap deficit =>
    if deficit ≤ 0 then some { s with pc := .wait }
    else match o.map with
      | none => some { s with pc := .wait }
      | some c =>
        if c ∈ s.chunks then none
        else some { s with warm := c :: s.warm, pc := .premap (deficit - 1) }

def step (s : State) : Action → Option State
  | .bg o => bgStep s o
  | .complete c =>
    if c ∈ s.flight then some { s with flight := s.flight.erase c, cq := s.cq + 1 } else none
  | .chunkObtain c => match s.warm with
    | w :: warm => some { s with warm := warm, held := w :: s.held }
    | [] => if c ∈ s.chunks then none else some { s with held := c :: s.held }
  | .chunkDispose c =>
    if c ∈ s.held then some { s with held := s.held.erase c, queue := c :: s.queue } else none

/-- The step puts chunk `c` on the warm stack or unmaps it. -/
def Offers (s : State) (a : Action) (c : ℕ) : Prop :=
  (∃ o, a = .bg o) ∧ ((∃ disp trim, s.pc = .giveBack (c :: disp) trim ∧ (s.warm.length : ℤ) < warmHigh) ∨
    ∃ trim deficit, s.pc = .trim (c :: trim) deficit)

/-- No `io_uring_wait_cqe` of the last loop of `decommit_batch` fails. -/
def WaitsSucceed (s : State) : Action → Prop
  | .bg o => ∀ disp pending, s.pc = .drain disp pending → pending ≠ 0 → o.wait = true
  | .complete _ | .chunkObtain _ | .chunkDispose _ => True

end BtMalloc.Ring
