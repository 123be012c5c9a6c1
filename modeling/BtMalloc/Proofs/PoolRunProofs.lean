import BtMalloc.Proofs.PageoutProofs
import BtMalloc.Proofs.TierProofs

/-!
# Proofs: runs of the pool machine

Every call keeps the representation, so the rules on pools hold along every run, whatever the batch
sizes and whatever the kernel answers.
-/

namespace BtMalloc

open LinkedList PagedMemory Word

variable {cfg : Config} {k : Kernel} {h h' : Heap} {bins bins' : ℕ → ℕ → Bin} {out out' : ℕ → Bool}
  {L L' : Ledger} {X : ℕ → Prop} {Y : ℕ → ℕ → Prop} {Z : ℕ → PoolId → Prop} {q : PoolId} {r : SlabRef}
  {t i p : ℕ} {s s' : PoolSys}

/-- The pools, the bins and the slots the client has stand for the ledger `L`. -/
structure PoolRep (cfg : Config) (h : Heap) (bins : ℕ → ℕ → Bin) (out : ℕ → Bool) (L : Ledger) :
    Prop where
  sound : L.Sound cfg
  settled : L.Settled
  rep : HeapRep cfg h bins L
  plain : L.Plain
  out : ∀ {p}, out p = true → L.place p = .out

theorem PoolRep.init : PoolRep cfg Heap.init (fun _ _ => Bin.zeroed) (fun _ => false) Ledger.empty :=
  ⟨Ledger.empty_sound, Ledger.empty_settled, (heapRep_start OwnerTable.fresh_radix), ⟨Ledger.empty_unmeshed, Ledger.empty_ready⟩,
    fun h => by cases h⟩

theorem PoolRep.next (R : PoolRep cfg h bins out L) (O : Outcome cfg k X Y Z h L h' bins' L')
    (hout : ∀ {p}, out' p = true → (¬ X p ∧ out p = true) ∨ L'.place p = .out) :
    PoolRep cfg h' bins' out' L' := by
  refine ⟨O.sound, O.settled, O.rep,
    ⟨O.tidy.unmeshed R.plain.unmeshed, O.tidy.ready R.plain.ready⟩, fun {p} hp => ?_⟩
  rcases hout hp with ⟨hx, hp⟩ | hp
  · obtain ⟨q, r, i, hs⟩ := R.sound.slots.slot (s := p) (by simp [R.out hp])
    exact (O.moved.stay (R.out hp) hx hs).1
  · exact hp

/-- The slab of a carved slot, and where its descriptor and its pages are. -/
theorem PoolRep.slab_bounds (R : PoolRep cfg h bins out L) (hr : L.SlabIn q r) :
    r.Tidy ∧ 7 ≤ (h.slabs r).firstPage ∧ (h.slabs r).firstPage + (h.slabs r).npages ≤ 512 := by
  obtain ⟨⟨n, hp⟩, htop, hle⟩ := R.sound.carving.slab_page hr
  have hmod := (R.sound.carving.aligned (c := r.chunk) (by simp [hr.1])).1
  have hpos := (R.sound.carving.row hr.1).pages_pos
  have D := R.rep.desc q r hr
  rw [chunkSize_eq] at hmod
  rw [D.firstPage, D.npages]
  exact ⟨⟨hmod, by omega⟩, by omega, by omega⟩

theorem PoolRep.slabOf (R : PoolRep cfg h bins out L) {j : ℕ} (hs : L.SlotIn q r j p) :
    btmSlabOf h (chunkOf p) p = r :=
  (btmSlabOf_eq R.rep R.sound hs (b := 0) (R.sound.carving.slotPos hs).size_pos).2

/-! ## Flushing -/

theorem setBins_setBins {b b' : Bin} : setBins (setBins bins t i b) t i b' = setBins bins t i b' := by
  unfold setBins
  simp

theorem setBins_eq_self : setBins bins t i (bins t i) = bins := by
  unfold setBins
  simp

/-- The loop of `btm_pool_flush`, whatever the number of iterations allowed. -/
theorem flushLoop_spec (k : Kernel) (n keep : ℕ) (R : PoolRep cfg h bins out L) (hq : (bins t i).pool = some q) :
    ∃ L', PoolRep cfg (flushLoop cfg k q keep n (bins t i) h).2
        (setBins bins t i (flushLoop cfg k q keep n (bins t i) h).1) out L' ∧
      Stamped (fun x => x ∈ flushTrace cfg k q keep n (bins t i) h) h
        (flushLoop cfg k q keep n (bins t i) h).2 := by
  induction n generalizing h bins L with
  | zero =>
    refine ⟨L, ?_, Unstamped.refl.stamped.congr fun x => by simp [flushTrace]⟩
    rw [flushLoop, setBins_eq_self]
    exact R
  | succ n ih =>
    rw [flushLoop, flushTrace]
    split
    · refine ⟨L, ?_, Unstamped.refl.stamped.congr fun x => by simp⟩
      rw [setBins_eq_self]
      exact R
    next hkeep =>
    cases hl : L.bin t i with
    | nil =>
      have := (R.rep.bins t i).count
      rw [hl, List.length_nil] at this
      omega
    | cons x rest =>
      obtain ⟨hhead, -, -, q', r, j, hq', -, hs⟩ := bin_head R.rep R.sound hl
      obtain rfl : q = q' := Option.some.inj (hq.symm.trans hq')
      obtain ⟨L1, O, -, -⟩ := flushOne_spec (k := k) R.rep R.sound R.settled hl hs
      obtain ⟨ht, hf, hn⟩ := R.slab_bounds hs.1
      have hr : btmSlabOf h (chunkOf (bins t i).freeHead) (bins t i).freeHead = r := by
        rw [hhead]
        exact R.slabOf hs
      obtain ⟨St, -⟩ := (@flushOne_stamped cfg) (k := k) (q := q) hr ht hf hn
      have R1 : PoolRep cfg _ _ out L1 := R.next O fun hp => Or.inl ⟨id, hp⟩
      have hq1 : (flushOne cfg k q (bins t i) h).1.pool = some q := hq
      obtain ⟨L2, R2, St2⟩ := ih R1 (by rw [setBins_self]; exact hq1)
      rw [setBins_self, setBins_setBins] at R2
      rw [setBins_self] at St2
      refine ⟨L2, R2, (St.trans St2).congr fun x => ?_⟩
      rw [hr, List.mem_cons]

/-! ## The calls -/

theorem PoolRep.out_ne_zero (R : PoolRep cfg h bins out L) (hp : out p = true) : p ≠ 0 := by
  obtain ⟨q, r, i, hs⟩ := R.sound.slots.slot (s := p) (by simp [R.out hp])
  have pos := R.sound.carving.slotPos hs
  have h1 := pos.chunk_pos
  have h2 := pos.lo
  omega

theorem PoolSys.out_give : (s.give p).out = if p = 0 then s.out else Function.update s.out p true := by
  unfold PoolSys.give
  split <;> rfl

theorem PoolSys.heap_give : (s.give p).heap = s.heap := by
  unfold PoolSys.give
  split <;> rfl

theorem PoolSys.bins_give : (s.give p).bins = s.bins := by
  unfold PoolSys.give
  split <;> rfl

/-- The client got a slot, or nothing. -/
theorem PoolRep.give (R : PoolRep cfg s.heap s.bins s.out L)
    (O : Outcome cfg k (fun x => x = p) Y Z s.heap L s'.heap s'.bins L') (hs : s'.out = s.out)
    (hp : p ≠ 0 → L'.place p = .out) :
    PoolRep cfg (s'.give p).heap (s'.give p).bins (s'.give p).out L' := by
  rw [PoolSys.heap_give, PoolSys.bins_give, PoolSys.out_give, hs]
  refine R.next O fun {x} hx => ?_
  by_cases h0 : p = 0
  · rw [if_pos h0] at hx
    exact Or.inl ⟨fun e => R.out_ne_zero hx (e.trans h0), hx⟩
  · rw [if_neg h0] at hx
    by_cases e : x = p
    · rw [e]
      exact Or.inr (hp h0)
    · rw [Function.update_of_ne e] at hx
      exact Or.inl ⟨e, hx⟩

theorem refill_call {want : ℕ} (R : PoolRep cfg s.heap s.bins s.out L)
    (he : poolStep cfg s (.refill t q want k) = some s') : ∃ L', PoolRep cfg s'.heap s'.bins s'.out L' := by
  simp only [poolStep] at he
  split at he
  next hpre =>
    obtain ⟨p, bin, h', L', e, O, -, V⟩ := btmPoolRefill_spec (k := k) (t := t) R.rep R.sound R.settled
      ⟨hpre.1, hpre.2.1⟩ hpre.2.2 rfl
    rw [e] at he
    cases he
    refine ⟨L', R.give O rfl fun hp => ?_⟩
    rcases V with ⟨h0, -⟩ | ⟨-, -, -, hplace, -⟩
    · exact absurd h0 hp
    · exact hplace
  next => cases he

theorem flush_call {keep : ℕ} (R : PoolRep cfg s.heap s.bins s.out L)
    (he : poolStep cfg s (.flush t i keep k) = some s') : ∃ L', PoolRep cfg s'.heap s'.bins s'.out L' := by
  simp only [poolStep] at he
  cases hq : (s.bins t i).pool with
  | none =>
    rw [hq] at he
    cases he
    exact ⟨L, R⟩
  | some q =>
    rw [hq] at he
    cases he
    obtain ⟨L', R', -⟩ := flushLoop_spec k (s.bins t i).count keep R hq
    refine ⟨L', ?_⟩
    simp only [btmPoolFlush, hq]
    exact R'

/-- The client gave a slot up. -/
theorem PoolRep.take (R : PoolRep cfg s.heap s.bins s.out L)
    (O : Outcome cfg k (fun x => x = p) Y Z s.heap L h' bins' L') :
    PoolRep cfg h' bins' (Function.update s.out p false) L' := by
  refine R.next O fun {x} hx => ?_
  by_cases e : x = p
  · rw [e, Function.update_self] at hx
    cases hx
  · rw [Function.update_of_ne e] at hx
    exact Or.inl ⟨e, hx⟩

theorem freeOne_call (R : PoolRep cfg s.heap s.bins s.out L)
    (he : poolStep cfg s (.freeOne p k) = some s') : ∃ L', PoolRep cfg s'.heap s'.bins s'.out L' := by
  simp only [poolStep] at he
  split at he
  next hp =>
    cases he
    obtain ⟨q, r, j, hs⟩ := R.sound.slots.slot (s := p) (by simp [R.out hp])
    obtain ⟨L', O, -, -⟩ := btmPoolFreeOne_spec (k := k) R.rep R.sound R.settled hs (R.out hp)
    rw [← R.slabOf hs] at O
    exact ⟨L', R.take O⟩
  next => cases he

theorem hit_call (R : PoolRep cfg s.heap s.bins s.out L) (he : poolStep cfg s (.hit t i) = some s') :
    ∃ L', PoolRep cfg s'.heap s'.bins s'.out L' := by
  simp only [poolStep] at he
  split at he
  · cases he
  next hp =>
    cases he
    have hB := R.rep.bins t i
    cases hl : L.bin t i with
    | nil =>
      rw [hl] at hB
      exact absurd (ptr_eq_none.mp hB.chain) hp
    | cons x rest =>
      obtain ⟨hhead, -, -, q, r, j, -, -, hs⟩ := bin_head R.rep R.sound hl
      obtain ⟨O, -⟩ := binPop_spec (k := Kernel.plain) (Z := fun _ _ => False) R.rep R.sound R.settled hl hs
      rw [← hhead] at O
      refine ⟨_, R.give O rfl fun _ => ?_⟩
      simp [Ledger.move]

theorem cache_call (R : PoolRep cfg s.heap s.bins s.out L) (he : poolStep cfg s (.cache t p) = some s') :
    ∃ L', PoolRep cfg s'.heap s'.bins s'.out L' := by
  simp only [poolStep] at he
  split at he
  next hp =>
    cases he
    obtain ⟨q, r, j, hs⟩ := R.sound.slots.slot (s := p) (by simp [R.out hp])
    have hc := (btmSlabOf_eq R.rep R.sound hs (b := 0) (R.sound.carving.slotPos hs).size_pos).1
    have D := R.rep.header q r.chunk hs.1.1
    rw [Nat.add_zero] at hc
    have hi : binIdx ⟨(s.heap.chunks (chunkOf p)).partIdx, (s.heap.chunks (chunkOf p)).sc⟩ = binIdx q := by
      rw [hc, D.partIdx, D.sc]
    have hq : (s.heap.chunks (chunkOf p)).pool = q := by rw [hc, D.pool]
    rw [hi, hq]
    obtain ⟨O, -⟩ := binPush_spec (k := Kernel.plain) (t := t) (Z := fun _ _ => False) R.rep R.sound R.settled hs
      (R.out hp) rfl
    exact ⟨_, R.take O⟩
  next => cases he

/-- `btm_pageout_cold` writes evicted flags and the epoch. -/
theorem PoolRep.pageout (R : PoolRep cfg h bins out L) : PoolRep cfg (btmPageoutCold cfg h).heap bins out L := by
  rw [btmPageoutCold_eq R.rep R.sound]
  exact ⟨R.sound, R.settled, R.rep.repage, R.plain, R.out⟩

theorem pool_step {a : PoolCall} (R : PoolRep cfg s.heap s.bins s.out L) (he : poolStep cfg s a = some s') :
    ∃ L', PoolRep cfg s'.heap s'.bins s'.out L' := by
  cases a with
  | refill t q want k => exact refill_call R he
  | flush t i keep k => exact flush_call R he
  | freeOne p k => exact freeOne_call R he
  | hit t i => exact hit_call R he
  | cache t p => exact cache_call R he
  | pageout =>
    simp only [poolStep] at he
    cases he
    exact ⟨L, R.pageout⟩
  | bgStart =>
    simp only [poolStep] at he
    cases he
    have H := R.rep
    exact ⟨L, R.sound, R.settled, ⟨H.desc, H.lists, H.tally, H.header, H.chunks, H.depot, H.free, H.bins, H.frame,
      H.space, H.owner, H.log⟩, R.plain, R.out⟩

theorem pool_run {calls : List PoolCall}
    (hr : Transition.Run (poolStep cfg) (fun _ _ => True) PoolSys.init calls s) :
    ∃ L, PoolRep cfg s.heap s.bins s.out L := by
  refine hr.invariant (fun s => ∃ L, PoolRep cfg s.heap s.bins s.out L) ?_ ⟨_, PoolRep.init⟩
  rintro s a s' ⟨L, R⟩ - he
  exact pool_step R he

/-- The rules on pools hold along every run, and a pool that has all its slots back owns nothing. -/
theorem pool_inv_run {calls : List PoolCall}
    (hr : Transition.Run (poolStep cfg) (fun _ _ => True) PoolSys.init calls s) (q : PoolId) :
    PoolInv s.heap q ∧ ((∀ r, Carved s.heap q r → (s.heap.slabs r).freeCount = (s.heap.slabs r).nslots) →
      (s.heap.pools q).Bare) := by
  obtain ⟨L, R⟩ := pool_run hr
  have I : PoolInv s.heap q := poolInv_of_rep R.rep R.sound R.settled R.plain
  exact ⟨I, I.bare⟩

/-- A refill of three slots, two of which go back, and then the rest. -/
def threeSlots : List PoolCall :=
  [.refill 0 ⟨0, 35⟩ 3 (Kernel.grant 4194304), .hit 0 35, .pageout, .cache 0 4255744, .flush 0 35 0 Kernel.plain]

theorem pool_inv_three_slots :
    PoolInv (Transition.finish (poolStep Config.plain) PoolSys.init threeSlots).heap ⟨0, 35⟩ :=
  (pool_inv_run (Transition.run_of_exec (Transition.exec_eq_finish (by decide +kernel))) ⟨0, 35⟩).1

end BtMalloc
