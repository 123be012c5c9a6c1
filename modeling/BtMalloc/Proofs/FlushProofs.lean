import BtMalloc.Proofs.ReclaimProofs

/-!
# Proofs: flushing a bin

One iteration of the loop of `btm_pool_flush` takes the first slot off a bin and puts it back in its
slab; `btm_pool_free_one` puts a slot back that is in no bin.
-/

namespace BtMalloc

open LinkedList PagedMemory Word

variable {cfg : Config} {k : Kernel} {X : ℕ → Prop} {h : Heap} {bins : ℕ → ℕ → Bin} {L L' : Ledger}
  {q q' : PoolId} {r : SlabRef} {s j t i : ℕ}

theorem Ledger.rest_ne_out : L.rest r ≠ .out := by
  unfold Ledger.rest
  split <;> simp

/-- A busy slot was put back and reclaim ran: nothing else moved. -/
theorem Ledger.Reclaimed.moved (R : (L.move q r s (L.rest r)).Reclaimed L') (S : L.Sound cfg)
    (S' : L'.Sound cfg) :
    L.Moved L' (fun x => x = s ∧ L.place s = .out) (fun t i => s ∈ L.bin t i) fun _ _ => False := by
  have hother : ∀ {x}, x ≠ s → (L.move q r s (L.rest r)).place x = L.place x :=
    fun e => Function.update_of_ne e ..
  refine ⟨fun q' r' i x ho hx hs => ?_, fun x ho hx => ?_, fun t i hy => ?_, fun c q hc => Or.inl (R.own hc),
    fun _ _ => by rw [R.large]; rfl⟩
  · have e : x ≠ s := fun e => hx ⟨e, e ▸ ho⟩
    have hb := R.busy (s := x) (by rw [hother e, ho]; rfl)
    rw [hother e, ho] at hb
    refine ⟨hb, ?_⟩
    obtain ⟨q2, r2, i2, h2⟩ := S'.slots.slot (s := x) (by simp [hb])
    obtain ⟨rfl, rfl, rfl⟩ := S.carving.slotIn_inj hs (R.slot h2)
    exact h2
  · have hb := R.place (s := x) (by rw [ho]; rfl)
    rw [ho] at hb
    by_cases e : x = s
    · subst e
      exact absurd ((Function.update_self ..).symm.trans hb.symm) Ledger.rest_ne_out
    · rw [← hother e, ← hb]
  · rw [R.bin, Ledger.move_rest]
    exact List.erase_of_not_mem hy

theorem Ledger.Reclaimed.tidy (R : (L.move q r s (L.rest r)).Reclaimed L')
    (hb : (L.place s).busy = true) : L.Tidy L' := by
  refine ⟨fun U => ⟨fun x hx => U.stage x (R.retired hx), fun {q' x i s'} hs => ?_⟩,
    fun hR => R.ready fun x hx => ?_, fun q' x i s' hs hv => ?_⟩
  · refine R.void hs ?_
    by_cases e : s' = s
    · subst e
      have : (L.move q r s' (L.rest r)).place s' = L.rest r := Function.update_self ..
      rw [this, Ledger.rest_of_ne (U.stage r)]
      simp
    · have : (L.move q r s (L.rest r)).place s' = L.place s' := Function.update_of_ne e ..
      rw [this]
      exact U.place (R.slot hs)
  · have hx' : L.stage x = .listed := hx
    by_cases e : x = r
    · subst e
      have : L.rest x = .free := Ledger.rest_of_ne (by simp [hx'])
      simp [Ledger.move, this]
    · have : (L.move q r s (L.rest r)).freeList x = L.freeList x := Function.update_of_ne e ..
      rw [this]
      exact hR hx'
  · have e : s' ≠ s := by
      rintro rfl
      rw [hv] at hb
      cases hb
    exact R.lost hs ((Function.update_of_ne e ..).trans hv)

/-- All bins, with one replaced. -/
def setBins (bins : ℕ → ℕ → Bin) (t i : ℕ) (b : Bin) : ℕ → ℕ → Bin :=
  Function.update bins t (Function.update (bins t) i b)

theorem setBins_self {b : Bin} : setBins bins t i b t i = b := by simp [setBins]

theorem setBins_of_ne {b : Bin} {t' i' : ℕ} (h : (t', i') ≠ (t, i)) :
    setBins bins t i b t' i' = bins t' i' := by
  unfold setBins
  by_cases e : t' = t
  · subst e
    have e' : i' ≠ i := fun e' => h (by rw [e'])
    rw [Function.update_self, Function.update_of_ne e']
  · rw [Function.update_of_ne e]

/-- The bins of one thread belong to different pools. -/
theorem binIdx_inj (h1 : q.sc < 36) (h2 : q'.sc < 36) (e : binIdx q = binIdx q') : q = q' := by
  obtain ⟨p, c⟩ := q
  obtain ⟨p', c'⟩ := q'
  simp only [binIdx, numSizeClasses_eq] at e h1 h2
  congr 1 <;> omega

/-- `btm_slab_of` finds the slab of every address inside a slot. -/
theorem btmSlabOf_eq (H : HeapRep cfg h bins L) (S : L.Sound cfg) (hs : L.SlotIn q r j s) {b : ℕ}
    (hb : b < btmScToSize q.sc) : chunkOf (s + b) = r.chunk ∧
      btmSlabOf h (chunkOf (s + b)) (s + b) = r := by
  have pos := S.carving.slotPos hs
  have hreg := pos.region hb
  have hle := pos.chunk_le
  have hc : chunkOf (s + b) = r.chunk := by
    have hlt : s + b < 2 ^ 64 := by omega
    have := maskDown_eq (x := s + b) (k := 21) hlt (by decide)
    unfold chunkOf
    simp only [chunkSize_eq]
    rw [show (2097152 : ℕ) = 2 ^ 21 from rfl, this]
    exact hreg
  refine ⟨hc, ?_⟩
  obtain ⟨h1, h2⟩ := pos.page hb
  have hmod := pos.chunk_mod
  have hidx : (s + b - r.chunk) >>> 12 = r.page + ((s + b) / 4096 - (r.chunk / 4096 + r.page)) := by
    rw [Nat.shiftRight_eq_div_pow]
    omega
  have hown := (H.header q r.chunk hs.1.1).pageOwner (r := r)
    (j := (s + b) / 4096 - (r.chunk / 4096 + r.page)) rfl hs.1.2 (by omega)
  unfold btmSlabOf
  rw [hc, hidx, hown]

/-- The bins once the first slot of one of them was taken. -/
theorem binOk_pop (H : HeapRep cfg h bins L) (S : L.Sound cfg) {rest : List ℕ}
    (hb : L.bin t i = s :: rest) (t' i' : ℕ) :
    BinOk cfg h.mem i' (setBins bins t i
      { bins t i with freeHead := btmFlGet cfg h s, count := decr 32 (bins t i).count } t' i')
      ((L.bin t' i').erase s) := by
  by_cases e : (t', i') = (t, i)
  · obtain ⟨rfl, rfl⟩ : t' = t ∧ i' = i := by simpa using e
    have hB := H.bins t' i'
    rw [hb] at hB
    rw [setBins_self, hb, List.erase_cons_head]
    refine ⟨hB.chain.2, ?_, fun _ => hB.pool (by simp)⟩
    show decr 32 (bins t' i').count = rest.length
    rw [hB.count, List.length_cons, decr_of_pos (by omega)]
    omega
  · rw [setBins_of_ne e]
    have hno : s ∉ L.bin t' i' := by
      intro hm
      have h1 := S.bin_place hm
      have h2 := S.bin_place (t := t) (i := i) (x := s) (by rw [hb]; exact List.mem_cons_self ..)
      rw [h1] at h2
      obtain ⟨rfl, rfl⟩ : t' = t ∧ i' = i := by simpa using h2
      exact e rfl
    rw [List.erase_of_not_mem hno]
    exact H.bins t' i'

/-- The first slot of a bin, with its slab. -/
theorem bin_head (H : HeapRep cfg h bins L) (S : L.Sound cfg) {rest : List ℕ}
    (hb : L.bin t i = s :: rest) : (bins t i).freeHead = s ∧ L.place s = .cached t i ∧
      Fresh h.log s ∧ ∃ q r j, (bins t i).pool = some q ∧ i = binIdx q ∧ L.SlotIn q r j s := by
  have hm : s ∈ L.bin t i := by rw [hb]; exact List.mem_cons_self ..
  have hp := S.bin_place hm
  have hB := H.bins t i
  rw [hb] at hB
  obtain ⟨q', hv, hpool, hi⟩ := hB.pool (by simp)
  obtain ⟨q, r, j, hs⟩ := S.slots.slot (s := s) (by simp [hp])
  have hi' := S.slots.home hp hs
  have e : q = q' := binIdx_inj (S.carving.valid hs.1.1).2 hv.2 (hi'.symm.trans hi)
  exact ⟨(ptr_eq_some.mp hB.chain.1).1, hp, H.log.bin hm, q, r, j, by rw [hpool, e], hi', hs⟩

/-- One iteration of the loop of `btm_pool_flush`. -/
theorem flushOne_spec (H : HeapRep cfg h bins L) (S : L.Sound cfg) (T : L.Settled) {rest : List ℕ}
    (hb : L.bin t i = s :: rest) (hs : L.SlotIn q r j s) :
    ∃ L', Outcome cfg k (fun _ => False) (fun t' i' => t' = t ∧ i' = i) (fun _ _ => False) h L
        (flushOne cfg k q (bins t i) h).2 (setBins bins t i (flushOne cfg k q (bins t i) h).1) L' ∧
      Aside h L (flushOne cfg k q (bins t i) h).2 L' ∧ (L.move q r s (L.rest r)).Reclaimed L' := by
  obtain ⟨hhead, hp, hfr, -⟩ := bin_head H S hb
  have hbusy : (L.place s).busy = true := by rw [hp]; rfl
  have hpos : 0 < (h.pools q).outstanding := by
    rw [H.tally q]
    exact List.length_pos_of_mem ((S.slots.held q).mem_iff.mpr ⟨hbusy, r, j, hs⟩)
  have hslab := btmSlabOf_eq H S hs (b := 0) (S.carving.slotPos hs).size_pos
  rw [Nat.add_zero] at hslab
  have heq : flushOne cfg k q (bins t i) h =
      ({ bins t i with freeHead := btmFlGet cfg h s, count := decr 32 (bins t i).count },
        slabPut cfg k (lessBusy h q (.get s :: h.log)) q r s) := by
    have hless : (h.note (.get s)).modPool q (fun P =>
        { P with outstanding := decr 64 P.outstanding }) = lessBusy h q (.get s :: h.log) := by
      simp only [Heap.modPool, Heap.note, lessBusy, decr_of_pos hpos]
    have hsl : btmSlabOf (lessBusy h q (.get s :: h.log)) (chunkOf s) s = r := hslab.2
    unfold flushOne
    simp only [hhead]
    rw [hless, hsl]
  have hout : L.place s ≠ .out := by simp [hp]
  rw [heq]
  obtain ⟨L', S', T', H', E', A', R⟩ := slabPut_spec (k := k) (X := fun _ => False) H S T hs hbusy
    (fun e => absurd e hout) (LinkLog.get (s := s)) (fun x hx => hx ▸ hfr) (binOk_pop H S hb)
  refine ⟨L', ⟨S', T', H', E', (R.moved S S').mono (fun hx => hout hx.2) (fun {t' i'} hm => ?_) id, R.tidy hbusy⟩,
    A', R⟩
  have := (S.bin_place hm).symm.trans hp
  simpa using this

/-- `btm_pool_free_one` of a slot that is handed out. -/
theorem btmPoolFreeOne_spec (H : HeapRep cfg h bins L) (S : L.Sound cfg) (T : L.Settled)
    (hs : L.SlotIn q r j s) (hout : L.place s = .out) :
    ∃ L', Outcome cfg k (fun x => x = s) (fun _ _ => False) (fun _ _ => False) h L
        (btmPoolFreeOne cfg k h r s) bins L' ∧
      Aside h L (btmPoolFreeOne cfg k h r s) L' ∧ (L.move q r s (L.rest r)).Reclaimed L' := by
  have D := H.desc q r hs.1
  have heq : btmPoolFreeOne cfg k h r s = slabPut cfg k (lessBusy h q h.log) q r s := by
    have hq : (⟨(h.slabs r).partIdx, (h.slabs r).sc⟩ : PoolId) = q := by rw [D.partIdx, D.sc]
    unfold btmPoolFreeOne
    simp only [hq]
    rfl
  have hno : ∀ {t i}, s ∉ L.bin t i := fun hm => by
    have := S.bin_place hm
    rw [hout] at this
    cases this
  have hbusy : (L.place s).busy = true := by
    rw [hout]
    rfl
  rw [heq]
  obtain ⟨L', S', T', H', E', A', R⟩ := slabPut_spec (k := k) (X := fun x => x = s) H S T hs
    hbusy (fun _ => rfl) (LinkLog.refl (S := fun _ => False)) (fun x hx => hx.elim)
    (fun t i => by rw [List.erase_of_not_mem hno]; exact H.bins t i)
  exact ⟨L', ⟨S', T', H', E', (R.moved S S').mono (fun hx => hx.1) (fun hm => hno hm) id,
    R.tidy hbusy⟩, A', R⟩

end BtMalloc
