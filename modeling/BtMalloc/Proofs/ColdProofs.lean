import Mathlib.Data.List.TakeWhile
import BtMalloc.Proofs.PoolRunProofs

/-!
# Proofs: which slabs `btm_pageout_cold` passes on

The epoch and the evicted flag of a descriptor say how many passes there were when the slab was last
touched, and whether its data were passed on since. With that the test of the walk is about the history.
-/

namespace BtMalloc

open LinkedList PagedMemory Word

variable {cfg : Config} {k : Kernel} {h h' : Heap} {bins : ℕ → ℕ → Bin} {out : ℕ → Bool} {L : Ledger}
  {q : PoolId} {r x : SlabRef} {s s' : PoolSys} {hist tr : List TierEvent}

/-! ## The history of a slab -/

/-- The event stamps the descriptor of slab `r`. -/
def TierEvent.touches (r : SlabRef) : TierEvent → Bool
  | .active x | .freed x => x == r
  | .hint _ _ | .pass => false

/-- The events since slab `r` was stamped last. -/
def sinceTouch (r : SlabRef) (hist : List TierEvent) : List TierEvent :=
  hist.takeWhile fun e => !e.touches r

/-- The event that stamped slab `r` last, and all before it. -/
def lastTouch (r : SlabRef) (hist : List TierEvent) : List TierEvent :=
  hist.dropWhile fun e => !e.touches r

/-- What the descriptor of slab `r` tells about the history. -/
structure TierSlab (hist : List TierEvent) (r : SlabRef) (x : Slab) : Prop where
  epoch : x.epoch + (sinceTouch r hist).count .pass = hist.count .pass
  pagedOut : x.pagedOut = true ↔ ∃ len, .hint (r.chunk + r.page * pageSize) len ∈ sinceTouch r hist
  freed : (lastTouch r hist).head? = some (.freed r) → x.freeCount ≠ 0
  fresh : lastTouch r hist = [] → x.npages = 0

/-- Epochs and evicted flags tell the history. -/
structure TierInv (h : Heap) (hist : List TierEvent) : Prop where
  epoch : h.tierEpoch = hist.count .pass
  slab : ∀ ⦃r⦄, r.Tidy → TierSlab hist r (h.slabs r)

theorem tierInv_init : TierInv Heap.init [] :=
  ⟨rfl, fun _ _ => ⟨rfl, by simp [sinceTouch, Heap.init, Slab.zeroed], by simp [lastTouch], fun _ => rfl⟩⟩

/-- Events of another kind, or about other slabs, do not end the time since a slab was stamped. -/
theorem sinceTouch_append (ht : ∀ e ∈ tr, e.touches r = false) :
    sinceTouch r (tr ++ hist) = tr ++ sinceTouch r hist ∧ lastTouch r (tr ++ hist) = lastTouch r hist := by
  have h1 : ∀ e ∈ tr, (!e.touches r) = true := fun e he => by rw [ht e he]; rfl
  exact ⟨List.takeWhile_append_of_pos h1, List.dropWhile_append_of_pos h1⟩

/-- The last of several events that stamped a slab. -/
theorem sinceTouch_of_touch (ht : ∃ e ∈ tr, e.touches r = true) : ∃ newer e older, tr = newer ++ e :: older ∧
    e.touches r = true ∧ sinceTouch r (tr ++ hist) = newer ∧ lastTouch r (tr ++ hist) = e :: (older ++ hist) := by
  induction tr with
  | nil => simp at ht
  | cons y tr ih =>
    cases hy : y.touches r with
    | true => exact ⟨[], y, tr, rfl, hy, by simp [sinceTouch, hy], by simp [lastTouch, hy]⟩
    | false =>
      obtain ⟨newer, e, older, h1, h2, h3, h4⟩ := ih (by simpa [hy] using ht)
      refine ⟨y :: newer, e, older, by rw [h1]; rfl, h2, ?_, ?_⟩
      · rw [← h3]
        simp [sinceTouch, hy]
      · rw [← h4]
        simp [lastTouch, hy]

theorem TierEvent.touches_iff {e : TierEvent} : e.touches r = true ↔ e = .active r ∨ e = .freed r := by
  cases e <;> simp [TierEvent.touches]

/-- A call that stamped descriptors. -/
theorem TierInv.touch (tr : List TierEvent) (I : TierInv h hist) (htr : ∀ e ∈ tr, ∃ x, e = .active x ∨ e = .freed x)
    (St : Stamped (fun x => ∃ e ∈ tr, e.touches x = true) h h')
    (hfreed : ∀ x, .freed x ∈ tr → (h'.slabs x).freeCount ≠ 0) : TierInv h' (tr ++ hist) := by
  have hpass : ∀ {l}, l ⊆ tr → l.count .pass = 0 := by
    intro l hl
    rw [List.count_eq_zero]
    intro hm
    obtain ⟨x, e | e⟩ := htr _ (hl hm) <;> cases e
  have hhint : ∀ {a len}, .hint a len ∉ tr := by
    intro a len hm
    obtain ⟨x, e | e⟩ := htr _ hm <;> cases e
  have hcount : (tr ++ hist).count .pass = hist.count .pass := by
    rw [List.count_append, hpass (List.Subset.refl _), Nat.zero_add]
  refine ⟨by rw [St.epoch, I.epoch, hcount], fun r hr => ?_⟩
  by_cases hT : ∃ e ∈ tr, e.touches r = true
  · obtain ⟨newer, e, older, htr', he, h1, h2⟩ := @sinceTouch_of_touch _ hist _ hT
    have hsub : newer ⊆ tr := htr' ▸ List.subset_append_left ..
    obtain ⟨h3, h4⟩ := St.new hr hT
    refine ⟨?_, ?_, fun hf => ?_, fun hn => ?_⟩
    · rw [h1, hpass hsub, h3, hcount, I.epoch, Nat.add_zero]
    · rw [h1, h4]
      refine iff_of_false (by simp) ?_
      rintro ⟨len, hm⟩
      exact hhint (hsub hm)
    · rw [h2, List.head?_cons, Option.some.injEq] at hf
      exact hfreed r (by rw [htr', hf]; simp)
    · rw [h2] at hn
      cases hn
  · have hT' : ∀ e ∈ tr, e.touches r = false := fun e he => by
      rw [Bool.eq_false_iff]
      exact fun h => hT ⟨e, he, h⟩
    obtain ⟨h1, h2⟩ := @sinceTouch_append _ hist _ hT'
    have A := St.old hr hT
    have J := I.slab hr
    refine ⟨?_, ?_, ?_, ?_⟩
    · rw [h1, List.count_append, hpass (List.Subset.refl _), Nat.zero_add, A.epoch, hcount]
      exact J.epoch
    · rw [h1, A.pagedOut, J.pagedOut]
      simp [hhint]
    · rw [h2, A.freeCount]
      exact J.freed
    · rw [h2, A.npages]
      exact J.fresh

/-- A call that touched no slab. -/
theorem TierInv.unstamped (I : TierInv h hist) (hU : Unstamped h h') : TierInv h' hist :=
  I.touch [] (by simp) (hU.stamped.congr fun x => by simp) (by simp)

/-! ## A pass -/

/-- The address of a slab's data tells the slab. -/
theorem SlabRef.Tidy.data_inj (hr : r.Tidy) (hx : x.Tidy)
    (e : r.chunk + r.page * pageSize = x.chunk + x.page * pageSize) : r = x := by
  obtain ⟨h1, h2⟩ := hr
  obtain ⟨h3, h4⟩ := hx
  rw [pageSize_eq] at e
  exact SlabRef.ext (by omega) (by omega)

/-- The ranges of `btm_pageout_cold`, one for each slab it evicts. -/
theorem pageout_hints (R : PoolRep cfg h bins out L) :
    (btmPageoutCold cfg h).hints = (evicted h.tierEpoch h (allSlabs cfg L)).map fun r =>
      (r.chunk + r.page * pageSize, (h.slabs r).npages * pageSize) := by
  rw [btmPageoutCold_eq R.rep R.sound]
  refine List.map_congr_left fun r hr => ?_
  obtain ⟨q, hr⟩ := (allSlabs_listing R.sound).mem_iff.mp (List.mem_of_mem_filter hr)
  have D := R.rep.desc q r hr
  have hpos := (R.sound.carving.row hr.1).pages_pos
  rw [btmSlabData, pageoutStride, D.firstPage, if_neg (by rw [D.npages]; omega)]

/-- The events of a pass. -/
def passEvents (hints : List (ℕ × ℕ)) : List TierEvent :=
  .pass :: (hints.map fun x => TierEvent.hint x.1 x.2).reverse

theorem hint_mem_passEvents {hints : List (ℕ × ℕ)} {a len : ℕ} :
    .hint a len ∈ passEvents hints ↔ (a, len) ∈ hints := by
  unfold passEvents
  rw [List.mem_cons, List.mem_reverse, List.mem_map]
  constructor
  · rintro (h1 | ⟨⟨a', len'⟩, h1, h2⟩)
    · cases h1
    · cases h2
      exact h1
  · intro h1
    exact Or.inr ⟨_, h1, rfl⟩

theorem count_passEvents {hints : List (ℕ × ℕ)} : (passEvents hints).count .pass = 1 := by
  unfold passEvents
  rw [List.count_cons_self, List.count_eq_zero.mpr]
  rw [List.mem_reverse, List.mem_map]
  rintro ⟨y, -, e⟩
  cases e

theorem passEvents_touches {hints : List (ℕ × ℕ)} : ∀ e ∈ passEvents hints, e.touches r = false := by
  intro e he
  rcases List.mem_cons.mp he with rfl | he
  · rfl
  · rw [List.mem_reverse, List.mem_map] at he
    obtain ⟨y, -, rfl⟩ := he
    rfl

/-- After a pass. -/
theorem TierInv.pageout (I : TierInv h hist) (R : PoolRep cfg h bins out L) (hlt : hist.count .pass + 1 < 2 ^ 32) :
    TierInv (btmPageoutCold cfg h).heap (passEvents (btmPageoutCold cfg h).hints ++ hist) := by
  have hev : ∀ {r}, r.Tidy → ((∃ len, .hint (r.chunk + r.page * pageSize) len ∈
      passEvents (btmPageoutCold cfg h).hints) ↔ r ∈ evicted h.tierEpoch h (allSlabs cfg L)) := by
    intro r hr
    simp only [hint_mem_passEvents, pageout_hints R, List.mem_map, Prod.mk.injEq]
    constructor
    · rintro ⟨len, x, hx, e, -⟩
      obtain ⟨q, hq⟩ := (allSlabs_listing R.sound).mem_iff.mp (List.mem_of_mem_filter hx)
      rwa [← (R.slab_bounds hq).1.data_inj hr e]
    · intro hm
      exact ⟨_, r, hm, rfl, rfl⟩
  have hcount : (passEvents (btmPageoutCold cfg h).hints ++ hist).count .pass = hist.count .pass + 1 := by
    rw [List.count_append, count_passEvents, Nat.add_comm]
  have hheap : (btmPageoutCold cfg h).heap = h.repage (fun x => (h.slabs x).pagedOut ||
      decide (x ∈ evicted h.tierEpoch h (allSlabs cfg L))) ((h.tierEpoch + 1) % 2 ^ 32) := by
    rw [btmPageoutCold_eq R.rep R.sound]
    rfl
  refine ⟨?_, fun r hr => ?_⟩
  · rw [hcount, hheap]
    show (h.tierEpoch + 1) % 2 ^ 32 = _
    rw [I.epoch, Nat.mod_eq_of_lt hlt]
  · obtain ⟨h1, h2⟩ := @sinceTouch_append r hist _
      (@passEvents_touches r (btmPageoutCold cfg h).hints)
    have J := I.slab hr
    rw [hheap]
    refine ⟨?_, ?_, ?_, ?_⟩
    · show (h.slabs r).epoch + _ = _
      rw [h1, List.count_append, count_passEvents, hcount, ← J.epoch]
      omega
    · show ((h.slabs r).pagedOut || decide (r ∈ evicted h.tierEpoch h (allSlabs cfg L))) = true ↔ _
      rw [h1, Bool.or_eq_true, decide_eq_true_eq, J.pagedOut, ← hev hr]
      simp only [List.mem_append, exists_or]
      exact or_comm
    · rw [h2]
      exact J.freed
    · rw [h2]
      exact J.fresh

/-! ## Runs -/

theorem TierInv.active {l : List SlabRef} (I : TierInv h hist) (St : Stamped (fun x => x ∈ l) h h') :
    TierInv h' ((l.map TierEvent.active).reverse ++ hist) := by
  refine I.touch _ (fun e he => ?_) (St.congr fun x => ?_) fun x hx => ?_
  · rw [List.mem_reverse, List.mem_map] at he
    obtain ⟨x, -, rfl⟩ := he
    exact ⟨x, Or.inl rfl⟩
  · simp [TierEvent.touches]
  · simp at hx

theorem PoolSys.hist_give {p : ℕ} : (s.give p).hist = s.hist := by
  unfold PoolSys.give
  split <;> rfl

theorem clearCanary_unstamped {p : ℕ} : Unstamped h (clearCanary cfg h p) := by
  unfold clearCanary
  split
  · exact .of_slabs rfl rfl
  · exact .refl

theorem cachePush_unstamped {p v : ℕ} : Unstamped h (cachePush cfg h p v) := by
  unfold cachePush
  split <;> exact .of_slabs rfl rfl

/-- Every call keeps what the descriptors tell about the history. -/
theorem tier_step {a : PoolCall} (R : PoolRep cfg s.heap s.bins s.out L) (he : poolStep cfg s a = some s')
    (hlt : s'.hist.count .pass < 2 ^ 32) (I : TierInv s.heap s.hist) : TierInv s'.heap s'.hist := by
  cases a with
  | refill t q want k =>
    simp only [poolStep] at he
    split at he
    next hpre =>
      cases he
      rw [PoolSys.heap_give, PoolSys.hist_give]
      exact I.active btmPoolRefill_stamped
    next => cases he
  | flush t i keep k =>
    simp only [poolStep] at he
    cases hq : (s.bins t i).pool with
    | none =>
      rw [hq] at he
      cases he
      exact I
    | some q =>
      rw [hq] at he
      cases he
      obtain ⟨L', -, St⟩ := flushLoop_spec k (s.bins t i).count keep R hq
      simp only [btmPoolFlush, hq]
      exact I.active St
  | freeOne p k =>
    simp only [poolStep] at he
    split at he
    next hp =>
      cases he
      obtain ⟨q, r, j, hs⟩ := R.sound.slots.slot (s := p) (by simp [R.out hp])
      obtain ⟨ht, hf, hn⟩ := R.slab_bounds hs.1
      obtain ⟨St, hne⟩ := (@btmPoolFreeOne_stamped cfg k _ _ p) ht hf hn
      rw [R.slabOf hs]
      refine I.touch [.freed r] (by simp) (St.congr fun x => ?_) fun x hx => ?_
      · simp only [List.mem_singleton, exists_eq_left, TierEvent.touches, beq_iff_eq]
        exact eq_comm
      · obtain rfl : x = r := by simpa using hx
        exact hne
    next => cases he
  | hit t i =>
    simp only [poolStep] at he
    split at he
    · cases he
    next hp =>
      cases he
      rw [PoolSys.heap_give, PoolSys.hist_give]
      exact I.unstamped (Unstamped.note.trans clearCanary_unstamped)
  | cache t p =>
    simp only [poolStep] at he
    split at he
    next hp =>
      cases he
      exact I.unstamped cachePush_unstamped
    next => cases he
  | pageout =>
    cases he
    refine I.pageout R ?_
    rw [show s.hist.count .pass + 1 = _ from Nat.add_comm .., ← count_passEvents, ← List.count_append]
    exact hlt
  | bgStart =>
    simp only [poolStep] at he
    cases he
    exact I.unstamped (.of_slabs rfl rfl)

theorem hist_le {a : PoolCall} (he : poolStep cfg s a = some s') :
    s.hist.count .pass ≤ s'.hist.count .pass := by
  have happ : ∀ {l : List TierEvent}, s.hist.count .pass ≤ (l ++ s.hist).count .pass := fun {l} => by
    rw [List.count_append]
    exact Nat.le_add_left ..
  cases a with
  | refill t q want k =>
    simp only [poolStep] at he
    split at he
    · cases he
      rw [PoolSys.hist_give]
      exact happ
    · cases he
  | flush t i keep k =>
    simp only [poolStep] at he
    split at he
    · cases he
      exact le_rfl
    · cases he
      exact happ
  | freeOne p k =>
    simp only [poolStep] at he
    split at he
    · cases he
      exact (@happ [_] :)
    · cases he
  | hit t i =>
    simp only [poolStep] at he
    split at he
    · cases he
    · cases he
      rw [PoolSys.hist_give]
      exact le_rfl
  | cache t p =>
    simp only [poolStep] at he
    split at he
    · cases he
      exact le_rfl
    · cases he
  | pageout =>
    cases he
    exact happ
  | bgStart =>
    cases he
    exact le_rfl

theorem tier_run {calls : List PoolCall}
    (hr : Transition.Run (poolStep cfg) (fun _ _ => True) PoolSys.init calls s)
    (hlt : s.hist.count .pass < 2 ^ 32) : ∃ L, PoolRep cfg s.heap s.bins s.out L ∧ TierInv s.heap s.hist := by
  have := hr.invariant (fun s => ∃ L, PoolRep cfg s.heap s.bins s.out L ∧
    (s.hist.count .pass < 2 ^ 32 → TierInv s.heap s.hist)) ?_ ⟨_, PoolRep.init, fun _ => tierInv_init⟩
  · obtain ⟨L, R, I⟩ := this
    exact ⟨L, R, I hlt⟩
  · rintro s a s' ⟨L, R, I⟩ - he
    obtain ⟨L', R'⟩ := pool_step R he
    exact ⟨L', R', fun hlt => tier_step R he hlt (I (Nat.lt_of_le_of_lt (hist_le he) hlt))⟩

/-! ## The selection -/

/-- The events since the last activity of a slab. -/
theorem takeWhile_active {newer older : List TierEvent} (h : .active r ∉ newer) :
    (newer ++ .active r :: older).takeWhile (fun e => e ≠ .active r) = newer := by
  have hpos : ∀ e ∈ newer, decide (e ≠ .active r) = true := by
    intro e he
    exact decide_eq_true fun h' => h (h' ▸ he)
  rw [List.takeWhile_append_of_pos hpos, List.takeWhile_cons_of_neg (by simp), List.append_nil]

/-- The test of the walk is about the history. -/
theorem idle_iff (I : TierInv h hist) (hr : r.Tidy) (hn : (h.slabs r).npages ≠ 0)
    (hfull : (h.slabs r).freeCount = 0) :
    ((h.slabs r).pagedOut = false ∧ (h.slabs r).epoch < h.tierEpoch) ↔ Idle hist r := by
  have J := I.slab hr
  have hT : ∃ e ∈ hist, e.touches r = true := by
    by_contra hno
    refine hn (J.fresh (List.dropWhile_eq_nil_iff.mpr fun e he => ?_))
    simpa using fun h => hno ⟨e, he, h⟩
  obtain ⟨newer, e, older, hsplit, htouch, hnew, he⟩ := @sinceTouch_of_touch _ [] _ hT
  rw [List.append_nil] at hnew
  rw [List.append_nil, List.append_nil] at he
  rw [← hnew] at hsplit
  obtain rfl : e = .active r := by
    rcases TierEvent.touches_iff.mp htouch with rfl | rfl
    · rfl
    · exact absurd hfull (J.freed (by rw [he]; rfl))
  have hact : .active r ∉ sinceTouch r hist := fun hm => by
    have := List.mem_takeWhile_imp hm
    simp [TierEvent.touches] at this
  have hpo : (h.slabs r).pagedOut = false ↔
      ∀ len, .hint (r.chunk + r.page * pageSize) len ∉ sinceTouch r hist := by
    rw [Bool.eq_false_iff, ne_eq, J.pagedOut, not_exists]
  have hep : (h.slabs r).epoch < h.tierEpoch ↔ .pass ∈ sinceTouch r hist := by
    rw [I.epoch, ← J.epoch, ← List.count_pos_iff]
    omega
  rw [hpo, hep]
  constructor
  · rintro ⟨h1, h2⟩
    exact ⟨_, older, hsplit, hact, h2, h1⟩
  · rintro ⟨newer', older', h1, h2, h3, h4⟩
    rw [← takeWhile_active h2, ← h1, hsplit, takeWhile_active hact] at h3 h4
    exact ⟨h4, h3⟩

/-- There are fewer than `2 ^ 35` carved slabs. -/
theorem allSlabs_length_le (R : PoolRep cfg h bins out L) : (allSlabs cfg L).length ≤ 2 ^ 35 := by
  have hl := allSlabs_listing R.sound
  have hin : ∀ r ∈ allSlabs cfg L, r.Tidy ∧ r.chunk < 2 ^ 47 := by
    intro r hr
    obtain ⟨q, hr⟩ := hl.mem_iff.mp hr
    have := (R.sound.carving.aligned (c := r.chunk) (by simp [hr.1])).2.2
    rw [chunkSize_eq] at this
    exact ⟨(R.slab_bounds hr).1, by omega⟩
  have hnd : ((allSlabs cfg L).map fun r => r.chunk / 2097152 * 512 + r.page).Nodup := by
    refine hl.nodup.map_on fun r hr x hx e => ?_
    obtain ⟨⟨h1, h2⟩, -⟩ := hin r hr
    obtain ⟨⟨h3, h4⟩, -⟩ := hin x hx
    exact SlabRef.ext (by omega) (by omega)
  have hsub : ((allSlabs cfg L).map fun r => r.chunk / 2097152 * 512 + r.page) ⊆ List.range (2 ^ 35) := by
    intro n hn
    obtain ⟨r, hr, rfl⟩ := List.mem_map.mp hn
    obtain ⟨⟨-, h1⟩, h2⟩ := hin r hr
    rw [List.mem_range]
    omega
  have := (hnd.subperm hsub).length_le
  rwa [List.length_map, List.length_range] at this

theorem sum_map_le {l : List SlabRef} {f : SlabRef → ℕ} {n : ℕ} (hf : ∀ r ∈ l, f r ≤ n) :
    (l.map f).sum ≤ l.length * n := by
  induction l with
  | nil => simp
  | cons r l ih =>
    rw [List.map_cons, List.sum_cons, List.length_cons, Nat.succ_mul, Nat.add_comm]
    exact Nat.add_le_add (ih fun x hx => hf x (List.mem_cons_of_mem _ hx)) (hf r (List.mem_cons_self ..))

/-- The bytes of all carved slabs are far fewer than `2 ^ 64`. -/
theorem evicted_sum_lt (R : PoolRep cfg h bins out L) {g : ℕ} :
    ((evicted g h (allSlabs cfg L)).map fun r => pageoutStride h r * pageSize).sum < 2 ^ 64 := by
  have h1 := allSlabs_length_le R
  have h2 : (evicted g h (allSlabs cfg L)).length ≤ (allSlabs cfg L).length := List.length_filter_le ..
  have h3 := sum_map_le (l := evicted g h (allSlabs cfg L)) (f := fun r => pageoutStride h r * pageSize)
    (n := 2 ^ 21) fun r hr => by
      obtain ⟨q, hr⟩ := (allSlabs_listing R.sound).mem_iff.mp (List.mem_of_mem_filter hr)
      obtain ⟨-, -, h4⟩ := R.slab_bounds hr
      unfold pageoutStride
      rw [pageSize_eq]
      split <;> omega
  have h4 := Nat.mul_le_mul_right (2 ^ 21) (h2.trans h1)
  omega

/-- The slabs whose data pages a pass hands on. -/
theorem evicted_listing (R : PoolRep cfg h bins out L) (I : TierInv h hist) :
    Listing (evicted h.tierEpoch h (allSlabs cfg L)) fun r => (∃ q, Carved h q r) ∧
      (h.slabs r).retired = false ∧ (h.slabs r).freeCount = 0 ∧ Idle hist r := by
  refine (allSlabs_listing R.sound).filter _ fun r => ?_
  simp only [carved_iff R.rep R.sound]
  refine and_congr_right ?_
  rintro ⟨q, hr⟩
  have hn : (h.slabs r).npages ≠ 0 := by
    rw [(R.rep.desc q r hr).npages]
    exact Nat.pos_iff_ne_zero.mp (R.sound.carving.row hr.1).pages_pos
  simp only [pageoutCold, Bool.and_eq_true, beq_iff_eq, Bool.not_eq_true', Nat.blt_eq]
  constructor
  · rintro ⟨h1, h2, h3⟩
    obtain ⟨h4, h5⟩ := (idle_iff I (R.slab_bounds hr).1 hn h2).mpr h3
    exact ⟨⟨⟨h2, h1⟩, h4⟩, h5⟩
  · rintro ⟨⟨⟨h2, h1⟩, h4⟩, h5⟩
    exact ⟨h1, h2, (idle_iff I (R.slab_bounds hr).1 hn h2).mp ⟨h4, h5⟩⟩

/-- The page table has the pages of a slab, and no others, under its name. -/
theorem PoolInv.own_pages (P : PoolInv h q) (hr : Carved h q r) {p : ℕ} (h1 : dataStartPage ≤ p)
    (h2 : p < (h.chunks r.chunk).nextFreePage) :
    (h.chunks r.chunk).pageOwner p = r.page ↔ r.page ≤ p ∧ p < r.page + (h.slabs r).npages := by
  constructor
  · intro e
    obtain ⟨x, hx, hc, ho, h3, h4⟩ := P.tiles hr.chunk h1 h2
    obtain rfl : x = r := SlabRef.ext hc (ho.symm.trans e)
    exact ⟨h3, h4⟩
  · rintro ⟨h3, h4⟩
    have := (P.fits (j := p - r.page) hr (by omega)).2
    rwa [Nat.add_sub_cancel' h3] at this

/-- Along every run, `btm_pageout_cold` passes on the data pages of the full slabs that settled before
    its last return, each once, and changes nothing but evicted flags and its epoch. -/
theorem pageout_cold_exact {calls : List PoolCall}
    (hr : Transition.Run (poolStep cfg) (fun _ _ => True) PoolSys.init calls s)
    (hlt : s.hist.count .pass < 2 ^ 32) :
    ∃ l, (Listing l fun r => (∃ q, Carved s.heap q r) ∧ (s.heap.slabs r).retired = false ∧
        (s.heap.slabs r).freeCount = 0 ∧ Idle s.hist r) ∧
      (btmPageoutCold cfg s.heap).hints =
        l.map (fun r => (r.chunk + r.page * pageSize, (s.heap.slabs r).npages * pageSize)) ∧
      (∀ r ∈ l, ∀ p, dataStartPage ≤ p → p < (s.heap.chunks r.chunk).nextFreePage →
        ((s.heap.chunks r.chunk).pageOwner p = r.page ↔ r.page ≤ p ∧ p < r.page + (s.heap.slabs r).npages)) ∧
      (btmPageoutCold cfg s.heap).total = ((btmPageoutCold cfg s.heap).hints.map Prod.snd).sum ∧
      ∃ f, (btmPageoutCold cfg s.heap).heap = s.heap.repage f ((s.heap.tierEpoch + 1) % 2 ^ 32) := by
  obtain ⟨L, R, I⟩ := tier_run hr hlt
  have P : ∀ q, PoolInv s.heap q := fun q => poolInv_of_rep R.rep R.sound R.settled R.plain
  have hlist := evicted_listing R I
  refine ⟨evicted s.heap.tierEpoch s.heap (allSlabs cfg L), hlist, pageout_hints R, fun r hr p h1 h2 => ?_, ?_,
    ?_⟩
  · obtain ⟨⟨q, hq⟩, -⟩ := hlist.mem_iff.mp hr
    exact (P q).own_pages hq h1 h2
  · rw [btmPageoutCold_eq R.rep R.sound]
    show _ % 2 ^ 64 = _
    rw [Nat.mod_eq_of_lt (evicted_sum_lt R)]
    simp only [pageoutAt, List.map_map]
    rfl
  · rw [btmPageoutCold_eq R.rep R.sound]
    exact ⟨_, rfl⟩

/-- A slab taken whole, and a pass. -/
def wholeSlab : List PoolCall := [.refill 0 ⟨0, 35⟩ 8 (Kernel.grant 4194304), .pageout]

theorem pageout_cold_whole_slab :
    (Transition.finish (poolStep Config.plain) PoolSys.init wholeSlab).hist.count .pass < 2 ^ 32 ∧
      (btmPageoutCold Config.plain (Transition.finish (poolStep Config.plain) PoolSys.init wholeSlab).heap).hints =
        [(4222976, 131072)] ∧
      ∃ f, (btmPageoutCold Config.plain (Transition.finish (poolStep Config.plain) PoolSys.init wholeSlab).heap).heap =
        (Transition.finish (poolStep Config.plain) PoolSys.init wholeSlab).heap.repage f
          (((Transition.finish (poolStep Config.plain) PoolSys.init wholeSlab).heap.tierEpoch + 1) % 2 ^ 32) := by
  have hlt : (Transition.finish (poolStep Config.plain) PoolSys.init wholeSlab).hist.count .pass < 2 ^ 32 := by
    decide +kernel
  obtain ⟨-, -, -, -, -, h⟩ := pageout_cold_exact
    (Transition.run_of_exec (Transition.exec_eq_finish (by decide +kernel))) hlt
  exact ⟨hlt, by decide +kernel, h⟩

end BtMalloc
