import BtMalloc.Proofs.DepotProofs

/-!
# Proofs: reclaim

`slab_became_free`, and putting a slot back as `btm_pool_flush` and `btm_pool_free_one` do it. Both
keep the ledger settled: every slab ends up on the list that its number of free slots asks for, and a
chunk without a slab in use leaves its pool.
-/

namespace BtMalloc

open LinkedList PagedMemory Word

variable {cfg : Config} {k : Kernel} {X : ℕ → Prop} {B : ℕ → ℕ → Prop} {h : Heap}
  {bins : ℕ → ℕ → Bin} {L L' L'' : Ledger} {q : PoolId} {r : SlabRef} {c s j : ℕ} {dest : Holder}

/-- What reclaim leaves alone: bins, busy slots and large objects. -/
structure Ledger.Reclaimed (L L' : Ledger) : Prop where
  bin : L'.bin = L.bin
  held : L'.held = L.held
  large : L'.large = L.large
  busy : ∀ {s}, (L.place s).busy = true → L'.place s = L.place s
  place : ∀ {s}, (L'.place s).busy = true → L'.place s = L.place s
  slot : ∀ {q r i s}, L'.SlotIn q r i s → L.SlotIn q r i s
  retired : ∀ {r}, L'.stage r = .retired → L.stage r = .retired
  void : ∀ {q r i s}, L'.SlotIn q r i s → L.place s ≠ .void → L'.place s ≠ .void
  ready : L.Ready → L'.Ready
  own : ∀ {c q}, L'.holder c = .pool q → L.holder c = .pool q
  lost : ∀ {q r i s}, L.SlotIn q r i s → L.place s = .void → L'.SlotIn q r i s ∧ L'.place s = .void

namespace Ledger

theorem Reclaimed.refl : L.Reclaimed L :=
  ⟨rfl, rfl, rfl, fun _ => rfl, fun _ => rfl, id, id, fun _ => id, id, id, fun hs hv => ⟨hs, hv⟩⟩

theorem Reclaimed.trans (h1 : L.Reclaimed L') (h2 : L'.Reclaimed L'') : L.Reclaimed L'' := by
  refine ⟨h2.bin.trans h1.bin, h2.held.trans h1.held, h2.large.trans h1.large, fun {s} hb => ?_,
    fun {s} hb => ?_, fun hs => h1.slot (h2.slot hs), fun hr => h1.retired (h2.retired hr),
    fun hs hv => h2.void hs (h1.void (h2.slot hs) hv), fun hR => h2.ready (h1.ready hR),
    fun hc => h1.own (h2.own hc), fun hs hv => h2.lost (h1.lost hs hv).1 (h1.lost hs hv).2⟩
  · have e := h1.busy hb
    rw [h2.busy (by rwa [e]), e]
  · have e := h2.place hb
    rw [e, h1.place (by rwa [← e])]

theorem Reclaimed.busy_of (h : L.Reclaimed L') {a n : ℕ} (hb : L'.Busy a n) : L.Busy a n := by
  cases hb with
  | slot hp hs => exact .slot (by rwa [← h.place hp]) (h.slot hs)
  | large hl => exact .large (by rwa [← h.large])

/-- Changing the stage of a carved slab. -/
theorem Reclaimed.restage {st : Stage} (hr : L.stage r ≠ .uncarved) (h2 : st ≠ .uncarved)
    (h3 : st ≠ .retired) (h4 : st = .listed → L.freeList r ≠ []) {P W C : PoolId → List SlabRef}
    {K : ℕ → List SlabRef} :
    L.Reclaimed { L with
      stage := Function.update L.stage r st, partials := P, warm := W, cold := C, counted := K } := by
  refine ⟨rfl, rfl, rfl, fun _ => rfl, fun _ => rfl, fun {q x i s} hs => ?_, fun {x} hx => ?_,
    fun _ hv => hv, fun hR x hx => ?_, id,
    fun {q x i s} hs hv => ⟨⟨⟨hs.1.1, (update_stage_ne_uncarved hr h2 x).mpr hs.1.2⟩, hs.2⟩, hv⟩⟩
  · exact ⟨⟨hs.1.1, (update_stage_ne_uncarved hr h2 x).mp hs.1.2⟩, hs.2⟩
  · have hx' : Function.update L.stage r st x = .retired := hx
    by_cases e : x = r
    · subst e
      rw [Function.update_self] at hx'
      exact absurd hx' h3
    · rwa [Function.update_of_ne e] at hx'
  · have hx' : Function.update L.stage r st x = .listed := hx
    by_cases e : x = r
    · subst e
      rw [Function.update_self] at hx'
      exact h4 hx'
    · rw [Function.update_of_ne e] at hx'
      exact hR hx'

/-- Giving a drained chunk up. -/
theorem Drained.reclaimed (D : L.Drained q c) (S : L.Sound cfg) (hd : dest.idle = true) :
    L.Reclaimed ((L.vacate q c).rehold c dest) := by
  have hc1 : (L.vacate q c).holder c = .hand := Function.update_self ..
  have hslot : ∀ {q' x i s}, ((L.vacate q c).rehold c dest).SlotIn q' x i s →
      x.chunk ≠ c ∧ L.SlotIn q' x i s := by
    intro q' x i s hs
    have h1 := (rehold_slabIn (by simp [hc1]) (Holder.idle_ne_pool hd)).mp hs.1
    obtain ⟨h2, h3⟩ := vacate_slabIn.mp h1
    exact ⟨h2, h3, hs.2⟩
  refine ⟨rfl, rfl, rfl, fun {s} hb => ?_, fun {s} hb => ?_, fun hs => (hslot hs).2,
    fun {x} hx => ?_, fun {q' x i s} hs hv => ?_, fun hR x hx => ?_,
    fun {c' q'} hc => ?_, fun {q' x i s} hs hv => ?_⟩
  · obtain ⟨q', x, i, hs⟩ := S.slots.slot (s := s) (fun e => by rw [e] at hb; cases hb)
    exact S.carving.vacate_place (q := q) hs (D.busy_ne hb hs)
  · by_cases e : s / chunkSize * chunkSize = c
    · have : ((L.vacate q c).rehold c dest).place s = .void := if_pos e
      rw [this] at hb
      cases hb
    · exact if_neg e
  · by_cases e : x.chunk = c
    · have : ((L.vacate q c).rehold c dest).stage x = .uncarved := if_pos e
      rw [this] at hx
      cases hx
    · have : ((L.vacate q c).rehold c dest).stage x = L.stage x := if_neg e
      rwa [← this]
  · obtain ⟨hne, hs'⟩ := hslot hs
    have : ((L.vacate q c).rehold c dest).place s = L.place s := S.carving.vacate_place (q := q) hs' hne
    rwa [this]
  · by_cases e : x.chunk = c
    · have : ((L.vacate q c).rehold c dest).stage x = .uncarved := if_pos e
      rw [this] at hx
      cases hx
    · have : ((L.vacate q c).rehold c dest).stage x = L.stage x := if_neg e
      exact hR (this ▸ hx)
  · have h1 := (rehold_pool (by simp [hc1]) (Holder.idle_ne_pool hd)).mp hc
    by_cases e : c' = c
    · subst e
      rw [hc1] at h1
      cases h1
    · rwa [show (L.vacate q c).holder c' = L.holder c' from Function.update_of_ne e ..] at h1
  · have hne : x.chunk ≠ c := by
      intro e
      have h1 := hs.1.1
      rw [e, D.holder] at h1
      obtain rfl := Holder.pool.inj h1
      rw [D.free e hs] at hv
      cases hv
    have hslab : ((L.vacate q c).rehold c dest).SlabIn q' x :=
      (rehold_slabIn (by simp [hc1]) (Holder.idle_ne_pool hd)).mpr (vacate_slabIn.mpr ⟨hne, hs.1⟩)
    exact ⟨⟨hslab, hs.2⟩, (S.carving.vacate_place (q := q) hs hne).trans hv⟩

/-! ## Settled ledgers -/

/-- Settled, but for slab `r`. -/
structure SettledBut (L : Ledger) (r : SlabRef) : Prop where
  slab : ∀ {q x}, x ≠ r → L.SlabIn q x → L.SlabSettled q x
  chunk : ∀ {c q}, L.holder c = .pool q → L.counted c ≠ []
  warm : ∀ q, (L.warm q).length ≤ 2

theorem Settled.but (T : L.Settled) : L.SettledBut r := ⟨fun _ hx => T.slab hx, T.chunk, T.warm⟩

/-- A busy slot's slab is counted. -/
theorem Settled.counts_of_busy (T : L.Settled) (S : L.Sound cfg) (hs : L.SlotIn q r j s)
    (hb : (L.place s).busy = true) : (L.stage r).counts = true := by
  have hT := T.slab hs.1
  unfold SlabSettled at hT
  have hno : L.stage r ≠ .retired → (L.freeList r).length ≠ slabSlots q.sc := by
    intro hr hlen
    rw [S.all_free hs.1 hr hlen hs] at hb
    cases hb
  cases hst : L.stage r with
  | uncarved => exact absurd hst hs.1.2
  | listed => rfl
  | unlisted => rfl
  | retired => rfl
  | warm =>
    rw [hst] at hT
    exact absurd hT (hno (by simp [hst]))
  | cold =>
    rw [hst] at hT
    exact absurd hT (hno (by simp [hst]))

/-- After a change of the stage of `r`, the other slabs are as settled as before. -/
theorem SettledBut.restage {st : Stage} (T : L.SettledBut r) (hr : L.SlabIn q r)
    (h2 : st ≠ .uncarved) {P W C : PoolId → List SlabRef} {K : ℕ → List SlabRef}
    (hself : ({ L with stage := Function.update L.stage r st } : Ledger).SlabSettled q r)
    (hK : ∀ {c q}, L.holder c = .pool q → K c ≠ []) (hW : ∀ q, (W q).length ≤ 2) :
    Settled { L with
      stage := Function.update L.stage r st, partials := P, warm := W, cold := C, counted := K } := by
  refine ⟨fun {q' x} hx => ?_, hK, hW⟩
  by_cases e : x = r
  · subst e
    have eq : q' = q := Holder.pool.inj (hx.1.symm.trans hr.1)
    subst eq
    exact hself
  · have hx' : L.SlabIn q' x := ⟨hx.1, (update_stage_ne_uncarved hr.2 h2 x).mp hx.2⟩
    have := T.slab e hx'
    unfold SlabSettled at this ⊢
    simpa only [Function.update_of_ne e] using this

theorem SettledBut.enlist (T : L.SettledBut r) (hr : L.SlabIn q r)
    (hlen : (L.freeList r).length < slabSlots q.sc) : (L.enlist q r).Settled :=
  T.restage hr (by simp) (by simpa [SlabSettled] using hlen) T.chunk T.warm

theorem SettledBut.delist (T : L.SettledBut r) (hr : L.SlabIn q r) :
    (L.delist q r).SettledBut r := by
  refine ⟨fun {q' x} hne hx => ?_, T.chunk, T.warm⟩
  have hx' : L.SlabIn q' x := ⟨hx.1, (update_stage_ne_uncarved hr.2 (by simp) x).mp hx.2⟩
  have := T.slab hne hx'
  unfold SlabSettled at this ⊢
  simpa only [Ledger.delist, Function.update_of_ne hne] using this

/-- The counted slabs of every chunk after `r` is no longer one of them. -/
theorem SettledBut.counted_erase (T : L.SettledBut r)
    (hcnt : (L.counted r.chunk).erase r ≠ []) {c : ℕ} {q : PoolId} (hc : L.holder c = .pool q) :
    Function.update L.counted r.chunk ((L.counted r.chunk).erase r) c ≠ [] := by
  by_cases e : c = r.chunk
  · subst e
    rwa [Function.update_self]
  · rw [Function.update_of_ne e]
    exact T.chunk hc

theorem SettledBut.shelve (T : L.SettledBut r) (hr : L.SlabIn q r)
    (hlen : (L.freeList r).length = slabSlots q.sc) (hcnt : (L.counted r.chunk).erase r ≠ [])
    (hw : (L.warm q).length < 2) : (L.shelve q r).Settled := by
  refine T.restage hr (by simp) (by simpa [SlabSettled] using hlen) (T.counted_erase hcnt)
    (fun q' => ?_)
  by_cases e : q' = q
  · subst e
    rw [Function.update_self, List.length_cons]
    omega
  · rw [Function.update_of_ne e]
    exact T.warm q'

theorem SettledBut.chill (T : L.SettledBut r) (hr : L.SlabIn q r)
    (hlen : (L.freeList r).length = slabSlots q.sc) (hcnt : (L.counted r.chunk).erase r ≠ []) :
    (L.chill q r).Settled :=
  T.restage hr (by simp) (by simpa [SlabSettled] using hlen) (T.counted_erase hcnt) T.warm

theorem SettledBut.vacate (T : L.SettledBut r) (hr : L.SlabIn q r) (hd : dest.idle = true) :
    ((L.vacate q r.chunk).rehold r.chunk dest).Settled := by
  have hc1 : (L.vacate q r.chunk).holder r.chunk = .hand := Function.update_self ..
  refine ⟨fun {q' x} hx => ?_, fun {c q'} hc => ?_, fun q' => ?_⟩
  · obtain ⟨hne, hx⟩ := vacate_slabIn.mp
      ((rehold_slabIn (by simp [hc1]) (Holder.idle_ne_pool hd)).mp hx)
    have hxr : x ≠ r := fun e => hne (by rw [e])
    have hst : ((L.vacate q r.chunk).rehold r.chunk dest).stage x = L.stage x := if_neg hne
    have := T.slab hxr hx
    unfold SlabSettled at this ⊢
    rw [hst]
    exact this
  · have hc' := (rehold_pool (by simp [hc1]) (Holder.idle_ne_pool hd)).mp hc
    have hne : c ≠ r.chunk := by
      rintro rfl
      rw [hc1] at hc'
      cases hc'
    have e1 : ((L.vacate q r.chunk).rehold r.chunk dest).counted c = L.counted c :=
      Function.update_of_ne hne ..
    rw [e1]
    refine T.chunk (q := q') ?_
    rwa [← show (L.vacate q r.chunk).holder c = L.holder c from Function.update_of_ne hne ..]
  · show (Function.update L.warm q ((L.warm q).filter fun x => !(x.chunk == r.chunk)) q').length ≤ 2
    by_cases e : q' = q
    · subst e
      rw [Function.update_self]
      exact (List.length_filter_le ..).trans (T.warm q')
    · rw [Function.update_of_ne e]
      exact T.warm q'

/-- A chunk whose only counted slab is empty and on no list is drained. -/
theorem SettledBut.drained (T : L.SettledBut r) (S : L.Sound cfg) (hr : L.SlabIn q r)
    (hst : L.stage r = .unlisted) (hlen : (L.freeList r).length = slabSlots q.sc)
    (hone : L.counted r.chunk = [r]) : L.Drained q r.chunk := by
  have honly : ∀ {x : SlabRef}, x.chunk = r.chunk → (L.stage x).counts = true → x = r := by
    intro x hx hc
    have hm := (S.lists.counted r.chunk).mem_iff.mpr ⟨hx, hc⟩
    rw [hone] at hm
    exact List.mem_singleton.mp hm
  refine ⟨hr.1, fun {x i s} hx hs => ?_, fun {x} hx => ⟨fun e => ?_, fun e => ?_⟩⟩
  · by_cases e : x = r
    · subst e
      exact S.all_free hr (by simp [hst]) hlen hs
    · -- any other slab of the chunk is on a list of empty slabs
      have hT := T.slab e hs.1
      have hnc : (L.stage x).counts ≠ true := fun hc => e (honly hx hc)
      unfold SlabSettled at hT
      cases hsx : L.stage x with
      | uncarved => exact absurd hsx hs.1.2
      | listed => rw [hsx] at hnc; exact absurd rfl hnc
      | unlisted => rw [hsx] at hnc; exact absurd rfl hnc
      | retired => rw [hsx] at hnc; exact absurd rfl hnc
      | warm =>
        rw [hsx] at hT
        exact S.all_free hs.1 (by simp [hsx]) hT hs
      | cold =>
        rw [hsx] at hT
        exact S.all_free hs.1 (by simp [hsx]) hT hs
  · have := honly hx (by rw [e]; rfl)
    rw [this, hst] at e
    cases e
  · have := honly hx (by rw [e]; rfl)
    rw [this, hst] at e
    cases e

end Ledger

/-! ## `slab_became_free` -/

theorem partialRemove_aside : Aside h L (partialRemove h q r) (L.delist q r) := by
  rw [partialRemove_eq]
  exact ⟨rfl, rfl, fun _ _ => rfl⟩

theorem slabBecameFree_eq : slabBecameFree cfg k h q r =
    if ((dropLive (partialRemove h q r) r).chunks r.chunk).liveSlabs = 0 then
      chunkGiveUp cfg k (dropLive (partialRemove h q r) r) q r.chunk
    else if ((dropLive (partialRemove h q r) r).pools q).warmCount < keepWarmEmpty then
      emptyWarmPush (dropLive (partialRemove h q r) r) q r
    else emptyColdPush cfg (dropLive (partialRemove h q r) r) q r := rfl

/-- The number of live slabs once `r` is no longer one of them. -/
theorem dropLive_count (H : HeapRep cfg h bins L) (S : L.Sound cfg) (hr : L.SlabIn q r)
    (hst : (L.stage r).counts = true) :
    ((dropLive h r).chunks r.chunk).liveSlabs = ((L.counted r.chunk).erase r).length := by
  have hpos := S.counted_pos hst
  have hlen := (S.lists.counted r.chunk).length_erase (a := r) ⟨rfl, hst⟩
  simp only [dropLive, Heap.modChunk, Function.update_self]
  rw [(H.header q r.chunk hr.1).liveSlabs, decr_of_pos hpos]
  omega

/-- A listed slab all of whose slots are free is kept as an empty slab or goes with its chunk. -/
theorem slabBecameFree_spec (H : HeapRep cfg h bins L) (S : L.Sound cfg) (hr : L.SlabIn q r)
    (hst : L.stage r = .listed) (hlen : (L.freeList r).length = slabSlots q.sc)
    (T : L.SettledBut r) :
    ∃ L', L'.Sound cfg ∧ L'.Settled ∧ HeapRep cfg (slabBecameFree cfg k h q r) bins L' ∧
      Effect k X L.Busy h L (slabBecameFree cfg k h q r) L' ∧
      Aside h L (slabBecameFree cfg k h q r) L' ∧ L.Reclaimed L' := by
  -- first off the partial list
  have H1 := partialRemove_rep H S hr hst
  have S1 := S.delist hr hst
  have T1 := T.delist hr
  have E1 : Effect k X L.Busy h L (partialRemove h q r) (L.delist q r) := partialRemove_effect hr
  have A1 : Aside h L (partialRemove h q r) (L.delist q r) := partialRemove_aside
  have R1 : L.Reclaimed (L.delist q r) := .restage hr.2 (by simp) (by simp) (by simp)
  have hr1 : (L.delist q r).SlabIn q r := hr.restage hr.2 (by simp) rfl rfl
  have hst1 : (L.delist q r).stage r = .unlisted := Function.update_self ..
  have hfree1 : ∀ {i s}, (L.delist q r).SlotIn q r i s → (L.delist q r).place s = .free :=
    fun hs => S1.all_free hr1 (by simp [hst1]) hlen hs
  have hcnt := dropLive_count H1 S1 hr1 (by rw [hst1]; rfl)
  have hB : ∀ {a n}, L.Busy a n → (L.delist q r).Busy a n := by
    intro a n hb
    cases hb with
    | slot hp hs => exact .slot hp ⟨hs.1.restage hr.2 (by simp) rfl rfl, hs.2⟩
    | large hl => exact .large hl
  rw [slabBecameFree_eq]
  split
  next hz =>
    -- no slab of the chunk is in use
    rw [hcnt, List.length_eq_zero_iff] at hz
    have hm : r ∈ (L.delist q r).counted r.chunk :=
      (S1.lists.counted r.chunk).mem_iff.mpr ⟨rfl, by rw [hst1]; rfl⟩
    have hone : (L.delist q r).counted r.chunk = [r] := by
      have := List.perm_cons_erase hm
      rw [hz] at this
      exact List.perm_singleton.mp this
    have D := T1.drained S1 hr1 hst1 hlen hone
    obtain ⟨dest, hi, S2, H2, E2, A2⟩ := chunkGiveUp_spec (k := k) (X := X) H1 S1 D
    exact ⟨_, S2, T1.vacate hr1 hi, H2, E1.trans (E2.mono hB), A1.trans A2,
      R1.trans (D.reclaimed S1 hi)⟩
  next hz =>
    have hne : ((L.delist q r).counted r.chunk).erase r ≠ [] := by
      intro e
      rw [hcnt, e] at hz
      exact hz rfl
    split
    next hw =>
      have hw' : ((L.delist q r).warm q).length < 2 := by
        have := (H1.lists q).warmCount
        rw [← this]
        exact hw
      refine ⟨_, S1.shelve hr1 hst1, T1.shelve hr1 hlen hne hw', emptyWarmPush_rep H1 S1 hr1 hst1,
        E1.trans (emptyWarmPush_effect hr1), A1.trans ⟨rfl, rfl, fun c _ => (dropLive_same c).next⟩,
        R1.trans (.restage hr1.2 (by simp) (by simp) (by simp))⟩
    next =>
      refine ⟨_, S1.chill hr1 hst1, T1.chill hr1 hlen hne, emptyColdPush_rep H1 S1 hr1 hst1 hfree1,
        E1.trans ((emptyColdPush_effect H1 S1 hr1 hst1 hfree1).mono hB), A1.trans ⟨rfl, rfl, ?_⟩,
        R1.trans (.restage hr1.2 (by simp) (by simp) (by simp))⟩
      intro c _
      obtain ⟨m', slabs', he, -⟩ := emptyColdPush_eq H1 S1 hr1 hst1 hfree1
      rw [he]
      exact (dropLive_same c).next

/-! ## Putting a slot back -/

theorem partialPush_aside (H : HeapRep cfg h bins L) (S : L.Sound cfg) (hst : L.stage r = .unlisted) :
    Aside h L (partialPush h q r) (L.enlist q r) := by
  have hne : (h.pools q).partialHead ≠ some r := by
    intro hh
    rw [(H.lists q).partials.head_eq] at hh
    have := ((S.lists.partials q).mem_iff.mp (List.mem_of_mem_head? hh)).2
    rw [hst] at this
    cases this
  rw [partialPush_eq hne]
  exact ⟨rfl, rfl, fun _ _ => rfl⟩

theorem Ledger.Sound.putBack (S : L.Sound cfg) (hs : L.SlotIn q r j s)
    (hv : L.place s ≠ .void) : (L.move q r s (L.rest r)).Sound cfg := by
  refine S.move hs (fun _ => hv) (fun t i e => absurd e Ledger.rest_ne_cached) (fun hr => ?_)
  simp [Ledger.rest, hr]

/-- The other slabs are as settled as before a slot of `r` was put back. -/
theorem Ledger.Settled.putBack (T : L.Settled) : (L.move q r s (L.rest r)).SettledBut r := by
  refine ⟨fun {q' x} hne hx => ?_, T.chunk, T.warm⟩
  have := T.slab (q := q') (r := x) hx
  unfold Ledger.SlabSettled at this ⊢
  simpa only [Ledger.move_rest, Function.update_of_ne hne] using this

/-- Settled but for `r`, and `r` is settled too. -/
theorem Ledger.SettledBut.settled (T : L.SettledBut r) (hr : L.SlabIn q r) (h : L.SlabSettled q r) :
    L.Settled := by
  refine ⟨fun {q' x} hx => ?_, T.chunk, T.warm⟩
  by_cases e : x = r
  · subst e
    have eq : q' = q := Holder.pool.inj (hx.1.symm.trans hr.1)
    subst eq
    exact h
  · exact T.slab e hx

/-- The heap with one slot less counted as busy in pool `q`, and `log1` as its log. -/
def lessBusy (h : Heap) (q : PoolId) (log1 : List Event) : Heap :=
  { h with
    log := log1
    pools := Function.update h.pools q
      { h.pools q with outstanding := (h.pools q).outstanding - 1 } }

/-- A busy slot goes back to its slab, which is listed, reclaimed or left alone as its number of free
    slots asks for. -/
theorem slabPut_spec (H : HeapRep cfg h bins L) (S : L.Sound cfg) (T : L.Settled)
    (hs : L.SlotIn q r j s) (hbusy : (L.place s).busy = true) (hX : L.place s = .out → X s)
    {P : ℕ → Prop} {log1 : List Event} (hl : LinkLog P h.log log1) (hP : ∀ x, P x → Fresh h.log x)
    {bins' : ℕ → ℕ → Bin}
    (hbins : ∀ t i, BinOk cfg h.mem i (bins' t i) ((L.bin t i).erase s)) :
    ∃ L', L'.Sound cfg ∧ L'.Settled ∧
      HeapRep cfg (slabPut cfg k (lessBusy h q log1) q r s) bins' L' ∧
      Effect k X L'.Busy h L (slabPut cfg k (lessBusy h q log1) q r s) L' ∧
      Aside h L (slabPut cfg k (lessBusy h q log1) q r s) L' ∧
      (L.move q r s (L.rest r)).Reclaimed L' := by
  have hcnt := T.counts_of_busy S hs hbusy
  have hvoid : L.place s ≠ .void := fun e => by rw [e] at hbusy; cases hbusy
  have hnf : L.place s ≠ .free := fun e => by rw [e] at hbusy; cases hbusy
  have H1 := slabPush_rep H S hs hbusy hcnt (hl.good H.log.good hP) (fun x hx => hl.fresh hx) hbins
  have S1 := S.putBack hs hvoid
  have T1 : (L.move q r s (L.rest r)).SettledBut r := T.putBack
  obtain ⟨ev, hev, hlink⟩ := hl.ext
  have E1 : ∀ {B}, Effect k X B h L (slabPush cfg (lessBusy h q log1) r s)
      (L.move q r s (L.rest r)) := slabPush_effect H S hs hbusy hX hev hlink
  have A1 : Aside h L (slabPush cfg (lessBusy h q log1) r s) (L.move q r s (L.rest r)) := by
    rw [slabPush_eq]
    exact ⟨rfl, rfl, fun _ _ => rfl⟩
  have hr1 : (L.move q r s (L.rest r)).SlabIn q r := hs.1
  have D := H1.desc q r hr1
  change HeapRep cfg (slabPush cfg (lessBusy h q log1) r s) bins' _ at H1
  change Desc q r (L.stage r) _ ((slabPush cfg (lessBusy h q log1) r s).slabs r) at D
  have hfl : L.stage r ≠ .retired →
      (L.move q r s (L.rest r)).freeList r = s :: L.freeList r := by
    intro hne
    have hno : s ∉ L.freeList r := fun hm => hnf (S.freeList_place hs.1 hne hm)
    simp [Ledger.move, Ledger.rest_of_ne hne, List.erase_of_not_mem hno]
  have hT := T.slab hs.1
  unfold slabPut
  dsimp only
  split
  next hret =>
    rw [D.retired, decide_eq_true_eq] at hret
    refine ⟨_, S1, T1.settled hr1 ?_, H1, E1, A1, .refl⟩
    simp [Ledger.SlabSettled, Ledger.move, hret]
  next hret =>
    rw [D.retired, decide_eq_true_eq] at hret
    have hfc := D.freeCount hret
    rw [hfl hret] at hfc
    split
    next hfull =>
      rw [hfc, D.nslots, List.length_cons] at hfull
      -- a slab that was on no list had no free slot
      have hlisted : L.stage r = .listed := by
        unfold Ledger.SlabSettled at hT
        cases hst : L.stage r with
        | listed => rfl
        | unlisted =>
          rw [hst] at hT
          have := (S.carving.row hs.1.1).slots_ge
          have hT' : L.freeList r = [] := hT
          rw [hT', List.length_nil] at hfull
          omega
        | uncarved => exact absurd hst hs.1.2
        | warm => rw [hst] at hcnt; cases hcnt
        | cold => rw [hst] at hcnt; cases hcnt
        | retired => exact absurd hst hret
      obtain ⟨L', S2, T2, H2, E2, A2, R2⟩ := slabBecameFree_spec (k := k) (X := X) H1 S1 hr1 hlisted
        (by rw [hfl hret, List.length_cons]; exact hfull) T1
      exact ⟨L', S2, T2, H2, E1.trans (E2.mono R2.busy_of), A1.trans A2, R2⟩
    next hfull =>
      have hle := S1.freeList_length_le hr1 hret
      rw [hfl hret, List.length_cons] at hle
      rw [hfc, D.nslots, List.length_cons] at hfull
      have hlt : ((L.move q r s (L.rest r)).freeList r).length < slabSlots q.sc := by
        rw [hfl hret, List.length_cons]
        omega
      split
      next hin =>
        rw [D.inPartial, Bool.not_eq_true', decide_eq_false_iff_not] at hin
        have hst : L.stage r = .unlisted := by
          cases hst : L.stage r with
          | unlisted => rfl
          | listed => exact absurd hst hin
          | uncarved => exact absurd hst hs.1.2
          | warm => rw [hst] at hcnt; cases hcnt
          | cold => rw [hst] at hcnt; cases hcnt
          | retired => exact absurd hst hret
        exact ⟨_, S1.enlist hr1 hst, T1.enlist hr1 hlt, partialPush_rep H1 S1 hr1 hst,
          E1.trans (partialPush_effect H1 S1 hr1 hst), A1.trans (partialPush_aside H1 S1 hst),
          .restage hr1.2 (by simp) (by simp) (fun _ => by simp [hfl hret])⟩
      next hin =>
        rw [D.inPartial, Bool.not_eq_true', Bool.not_eq_false, decide_eq_true_eq] at hin
        refine ⟨_, S1, T1.settled hr1 ?_, H1, E1, A1, .refl⟩
        have hst1 : (L.move q r s (L.rest r)).stage r = .listed := hin
        unfold Ledger.SlabSettled
        rw [hst1]
        exact hlt

end BtMalloc
