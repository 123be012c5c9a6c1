import BtMalloc.Proofs.LedgerProofs

/-!
# Proofs: moving slabs between the lists of their pool

The ledger's operations that change where one carved slab stands, and that they keep the ledger
sound. None of them touches a slot.
-/

namespace BtMalloc

namespace Ledger

variable {cfg : Config} {L : Ledger} {q : PoolId} {r : SlabRef} {st : Stage}

/-- `partial_push`. -/
def enlist (L : Ledger) (q : PoolId) (r : SlabRef) : Ledger :=
  { L with
    stage := Function.update L.stage r .listed
    partials := Function.update L.partials q (r :: L.partials q) }

/-- `partial_remove`. -/
def delist (L : Ledger) (q : PoolId) (r : SlabRef) : Ledger :=
  { L with
    stage := Function.update L.stage r .unlisted
    partials := Function.update L.partials q ((L.partials q).erase r) }

/-- An empty slab that keeps its pages. -/
def shelve (L : Ledger) (q : PoolId) (r : SlabRef) : Ledger :=
  { L with
    stage := Function.update L.stage r .warm
    warm := Function.update L.warm q (r :: L.warm q)
    counted := Function.update L.counted r.chunk ((L.counted r.chunk).erase r) }

/-- An empty slab that gives its pages up. -/
def chill (L : Ledger) (q : PoolId) (r : SlabRef) : Ledger :=
  { L with
    stage := Function.update L.stage r .cold
    cold := Function.update L.cold q (r :: L.cold q)
    counted := Function.update L.counted r.chunk ((L.counted r.chunk).erase r) }

/-- An empty slab is taken off its list and formatted again. -/
def revive (L : Ledger) (q : PoolId) (r : SlabRef) : Ledger :=
  { L with
    stage := Function.update L.stage r .unlisted
    warm := Function.update L.warm q ((L.warm q).erase r)
    cold := Function.update L.cold q ((L.cold q).erase r)
    counted := Function.update L.counted r.chunk (r :: L.counted r.chunk)
    freeList := Function.update L.freeList r (slabSlotList r q.sc) }

theorem update_stage_ne_uncarved (h0 : L.stage r ≠ .uncarved) (h : st ≠ .uncarved) (x : SlabRef) :
    Function.update L.stage r st x ≠ .uncarved ↔ L.stage x ≠ .uncarved := by
  by_cases e : x = r
  · subst e
    simp [h0, h]
  · rw [Function.update_of_ne e]

theorem update_stage_retired (h0 : L.stage r ≠ .retired) (h : st ≠ .retired) (x : SlabRef) :
    Function.update L.stage r st x = .retired ↔ L.stage x = .retired := by
  by_cases e : x = r
  · subst e
    simp [h0, h]
  · rw [Function.update_of_ne e]

/-- A ledger that differs in the stage of one slab and in the lists of slabs is sound when the lists
    fit the new stage. -/
theorem Sound.restage (S : L.Sound cfg) (hr : L.SlabIn q r) (h1 : L.stage r ≠ .retired)
    (h2 : st ≠ .uncarved) (h3 : st ≠ .retired) {P W C : PoolId → List SlabRef}
    {K : ℕ → List SlabRef} {F : SlabRef → List ℕ}
    (hP : ∀ q, Listing (P q) fun x =>
      L.holder x.chunk = .pool q ∧ Function.update L.stage r st x = .listed)
    (hW : ∀ q, Listing (W q) fun x =>
      L.holder x.chunk = .pool q ∧ Function.update L.stage r st x = .warm)
    (hC : ∀ q, Listing (C q) fun x =>
      L.holder x.chunk = .pool q ∧ Function.update L.stage r st x = .cold)
    (hK : ∀ c, Listing (K c) fun x => x.chunk = c ∧ (Function.update L.stage r st x).counts = true)
    (hF : ∀ x, L.stage x ≠ .uncarved → L.stage x ≠ .retired →
      Listing (F x) fun s => L.place s = .free ∧ ∃ q i, L.SlotIn q x i s) :
    Sound cfg { L with
      stage := Function.update L.stage r st, partials := P, warm := W, cold := C, counted := K,
      freeList := F } := by
  have hun := update_stage_ne_uncarved (r := r) (L := L) hr.2 h2
  have hret := update_stage_retired (r := r) (L := L) h1 h3
  set L' : Ledger := { L with
    stage := Function.update L.stage r st, partials := P, warm := W, cold := C, counted := K,
    freeList := F } with hL'
  have hslab : ∀ q x, L'.SlabIn q x ↔ L.SlabIn q x := fun q x => and_congr Iff.rfl (hun x)
  have hslot : ∀ q x i s, L'.SlotIn q x i s ↔ L.SlotIn q x i s :=
    fun q x i s => and_congr (hslab q x) Iff.rfl
  refine ⟨⟨S.carving.valid, S.carving.aligned, S.carving.top_eq, ?_⟩,
    ⟨hP, hW, hC, hK, S.lists.chunks, S.lists.active, S.lists.stack, S.lists.queue, S.lists.batch,
      S.lists.hand⟩, ⟨?_, S.slots.bin, ?_, ?_, ?_, ?_⟩, ⟨?_, ?_, ?_, ?_⟩⟩
  · intro x
    exact (hun x).trans (S.carving.carved x)
  · intro s hs
    obtain ⟨q, x, i, h⟩ := S.slots.slot hs
    exact ⟨q, x, i, (hslot ..).mpr h⟩
  · intro s t i q x j hs h
    exact S.slots.home hs ((hslot ..).mp h)
  · intro x hx hx'
    refine (hF x ((hun x).mp hx) (fun e => hx' ((hret x).mpr e))).congr (fun s => ?_)
    simp only [hslot]
    exact Iff.rfl
  · intro s q x i h hx
    exact S.slots.retired ((hslot ..).mp h) ((hret x).mp hx)
  · intro q
    refine (S.slots.held q).congr (fun s => ?_)
    simp only [hslot]
    exact Iff.rfl
  · intro x hx
    exact S.meshed.self (fun e => hx ((hret x).mpr e))
  · intro q x h
    exact (hslab ..).mpr (S.meshed.pool ((hslab ..).mp h))
  · intro x hx hne
    obtain ⟨q, i, s, h, hv⟩ := S.meshed.donated ((hret x).mp hx) hne
    exact ⟨q, i, s, (hslot ..).mpr h, hv⟩
  · intro s s' q q' x x' i hs hs' h h' e
    exact S.meshed.apart hs hs' ((hslot ..).mp h) ((hslot ..).mp h') e

/-- A list of slabs at a stage that neither the old nor the new stage of `r` is. -/
theorem listing_other {P : SlabRef → Prop} {l : List SlabRef} {v : Stage}
    (h : Listing l fun x => P x ∧ L.stage x = v) (h1 : L.stage r ≠ v) (h2 : st ≠ v) :
    Listing l fun x => P x ∧ Function.update L.stage r st x = v := by
  refine h.congr (fun x => and_congr Iff.rfl ?_)
  by_cases e : x = r
  · subst e
    simp [h1, h2]
  · rw [Function.update_of_ne e]

/-- A list of slabs that gets `r`. -/
theorem listing_cons {P : SlabRef → Prop} {l : List SlabRef}
    (h : Listing l fun x => P x ∧ L.stage x = st) (h1 : L.stage r ≠ st) (h2 : P r) :
    Listing (r :: l) fun x => P x ∧ Function.update L.stage r st x = st := by
  refine h.cons (fun e => h1 e.2) (fun x => ?_)
  by_cases e : x = r
  · subst e
    simp [h2]
  · simp [e]

/-- A list of slabs that loses `r`. -/
theorem listing_erase {P : SlabRef → Prop} {l : List SlabRef} {v : Stage}
    (h : Listing l fun x => P x ∧ L.stage x = v) (h1 : st ≠ v) :
    Listing (l.erase r) fun x => P x ∧ Function.update L.stage r st x = v := by
  refine h.erase (fun x => ?_)
  by_cases e : x = r
  · subst e
    simp [h1]
  · simp [e]

/-- A list of slabs of another pool. -/
theorem listing_skip {P : SlabRef → Prop} {l : List SlabRef} {v : Stage}
    (h : Listing l fun x => P x ∧ L.stage x = v) (h1 : ¬ P r) :
    Listing l fun x => P x ∧ Function.update L.stage r st x = v := by
  refine h.congr (fun x => ?_)
  by_cases e : x = r
  · subst e
    simp [h1]
  · rw [Function.update_of_ne e]

/-- The counted slabs of the chunks when `r` stays counted. -/
theorem counted_same (h : ∀ c, Listing (L.counted c) fun x => x.chunk = c ∧ (L.stage x).counts = true)
    (h1 : (L.stage r).counts = st.counts) (c : ℕ) : Listing (L.counted c) fun x =>
      x.chunk = c ∧ (Function.update L.stage r st x).counts = true := by
  refine (h c).congr (fun x => and_congr Iff.rfl ?_)
  by_cases e : x = r
  · subst e
    simp [h1]
  · rw [Function.update_of_ne e]

/-- The counted slabs of the chunks when `r` stops being counted. -/
theorem counted_erase
    (h : ∀ c, Listing (L.counted c) fun x => x.chunk = c ∧ (L.stage x).counts = true)
    (h1 : st.counts = false) (c : ℕ) :
    Listing (Function.update L.counted r.chunk ((L.counted r.chunk).erase r) c) fun x =>
      x.chunk = c ∧ (Function.update L.stage r st x).counts = true := by
  by_cases e : c = r.chunk
  · subst e
    rw [Function.update_self]
    refine (h r.chunk).erase (fun x => ?_)
    by_cases e : x = r
    · subst e
      simp [h1]
    · simp [e]
  · rw [Function.update_of_ne e]
    refine (h c).congr (fun x => ?_)
    by_cases e' : x = r
    · subst e'
      simp [Ne.symm e]
    · simp [e']

/-- The counted slabs of the chunks when `r` starts being counted. -/
theorem counted_cons (h : ∀ c, Listing (L.counted c) fun x => x.chunk = c ∧ (L.stage x).counts = true)
    (h0 : (L.stage r).counts = false) (h1 : st.counts = true) (c : ℕ) :
    Listing (Function.update L.counted r.chunk (r :: L.counted r.chunk) c) fun x =>
      x.chunk = c ∧ (Function.update L.stage r st x).counts = true := by
  by_cases e : c = r.chunk
  · subst e
    rw [Function.update_self]
    refine (h r.chunk).cons (fun e => by simp [h0] at e) (fun x => ?_)
    by_cases e : x = r
    · subst e
      simp [h1]
    · simp [e]
  · rw [Function.update_of_ne e]
    refine (h c).congr (fun x => ?_)
    by_cases e' : x = r
    · subst e'
      simp [Ne.symm e]
    · simp [e']

/-- One list of each pool, changed at the pool of `r` only. -/
theorem listing_pools (hr : L.SlabIn q r) {f : PoolId → List SlabRef} {v : Stage} {l : List SlabRef}
    (h : ∀ q, Listing (f q) fun x => L.holder x.chunk = .pool q ∧ L.stage x = v)
    (hl : Listing l fun x => L.holder x.chunk = .pool q ∧ Function.update L.stage r st x = v)
    (q' : PoolId) : Listing (Function.update f q l q') fun x =>
      L.holder x.chunk = .pool q' ∧ Function.update L.stage r st x = v := by
  by_cases e : q' = q
  · subst e
    rwa [Function.update_self]
  · rw [Function.update_of_ne e]
    refine listing_skip (h q') (fun h' => e ?_)
    exact (Holder.pool.inj (hr.1.symm.trans h')).symm

/-! ## The slots of a slab -/

theorem mem_slabSlotList {sc s : ℕ} :
    s ∈ slabSlotList r sc ↔ ∃ i < slabSlots sc, s = slotAddr r sc i := by
  simp [slabSlotList, eq_comm]

theorem length_slabSlotList {sc : ℕ} : (slabSlotList r sc).length = slabSlots sc := by
  simp [slabSlotList]

/-- The slots of a carved slab, each once. -/
theorem Carving.slots_listing (h : L.Carving cfg) (hr : L.SlabIn q r) :
    Listing (slabSlotList r q.sc) fun s => ∃ q i, L.SlotIn q r i s := by
  have hrow := h.row hr.1
  constructor
  · refine List.Nodup.map_on (fun i hi j hj e => ?_) List.nodup_range
    simp only [slotAddr] at e
    have hpos : 0 < btmScToSize q.sc := by
      have := hrow.size_ge
      omega
    exact Nat.eq_of_mul_eq_mul_right hpos (by omega)
  · intro s
    rw [mem_slabSlotList]
    constructor
    · rintro ⟨i, hi, e⟩
      exact ⟨q, i, hr, hi, e⟩
    · rintro ⟨q', i, hs⟩
      have e : q' = q := Holder.pool.inj (hs.1.1.symm.trans hr.1)
      subst e
      exact ⟨i, hs.2.1, hs.2.2⟩

theorem SlabIn.pool_unique {q' : PoolId} (h : L.SlabIn q r) (h' : L.SlabIn q' r) : q' = q :=
  Holder.pool.inj (h'.1.symm.trans h.1)

/-- A slab with as many free slots as slots is all free. -/
theorem Sound.all_free (S : L.Sound cfg) (hr : L.SlabIn q r) (h1 : L.stage r ≠ .retired)
    (hlen : (L.freeList r).length = slabSlots q.sc) {i s : ℕ} (hs : L.SlotIn q r i s) :
    L.place s = .free := by
  have hl := S.carving.slots_listing hr
  refine (@Listing.forall_of_length_le _ _ (slabSlotList r q.sc) _ (S.slots.freeList hr.2 h1) ?_ ?_ s ?_).1
  · intro b hb
    exact hl.mem_iff.mpr hb.2
  · rw [length_slabSlotList, hlen]
  · exact hl.mem_iff.mpr ⟨q, i, hs⟩

/-- The freelist of a slab is no longer than the slab. -/
theorem Sound.freeList_length_le (S : L.Sound cfg) (hr : L.SlabIn q r) (h1 : L.stage r ≠ .retired) :
    (L.freeList r).length ≤ slabSlots q.sc := by
  have h := S.slots.freeList hr.2 h1
  have hsub : L.freeList r ⊆ slabSlotList r q.sc := fun s hs =>
    (S.carving.slots_listing hr).mem_iff.mpr (h.mem_iff.mp hs).2
  have := (h.nodup.subperm hsub).length_le
  rwa [length_slabSlotList] at this

/-! ## The operations keep the ledger sound -/

theorem Sound.enlist (S : L.Sound cfg) (hr : L.SlabIn q r) (h : L.stage r = .unlisted) :
    (L.enlist q r).Sound cfg :=
  S.restage hr (by simp [h]) (by simp) (by simp)
    (listing_pools hr S.lists.partials (listing_cons (S.lists.partials q) (by simp [h]) hr.1))
    (fun q => listing_other (S.lists.warm q) (by simp [h]) (by simp))
    (fun q => listing_other (S.lists.cold q) (by simp [h]) (by simp))
    (counted_same S.lists.counted (by simp [h, Stage.counts]))
    (fun _ h1 h2 => S.slots.freeList h1 h2)

theorem Sound.delist (S : L.Sound cfg) (hr : L.SlabIn q r) (h : L.stage r = .listed) :
    (L.delist q r).Sound cfg :=
  S.restage hr (by simp [h]) (by simp) (by simp)
    (listing_pools hr S.lists.partials (listing_erase (S.lists.partials q) (by simp)))
    (fun q => listing_other (S.lists.warm q) (by simp [h]) (by simp))
    (fun q => listing_other (S.lists.cold q) (by simp [h]) (by simp))
    (counted_same S.lists.counted (by simp [h, Stage.counts]))
    (fun _ h1 h2 => S.slots.freeList h1 h2)

theorem Sound.shelve (S : L.Sound cfg) (hr : L.SlabIn q r) (h : L.stage r = .unlisted) :
    (L.shelve q r).Sound cfg :=
  S.restage hr (by simp [h]) (by simp) (by simp)
    (fun q => listing_other (S.lists.partials q) (by simp [h]) (by simp))
    (listing_pools hr S.lists.warm (listing_cons (S.lists.warm q) (by simp [h]) hr.1))
    (fun q => listing_other (S.lists.cold q) (by simp [h]) (by simp))
    (counted_erase S.lists.counted (by simp [Stage.counts]))
    (fun _ h1 h2 => S.slots.freeList h1 h2)

theorem Sound.chill (S : L.Sound cfg) (hr : L.SlabIn q r) (h : L.stage r = .unlisted) :
    (L.chill q r).Sound cfg :=
  S.restage hr (by simp [h]) (by simp) (by simp)
    (fun q => listing_other (S.lists.partials q) (by simp [h]) (by simp))
    (fun q => listing_other (S.lists.warm q) (by simp [h]) (by simp))
    (listing_pools hr S.lists.cold (listing_cons (S.lists.cold q) (by simp [h]) hr.1))
    (counted_erase S.lists.counted (by simp [Stage.counts]))
    (fun _ h1 h2 => S.slots.freeList h1 h2)

theorem Sound.revive (S : L.Sound cfg) (hr : L.SlabIn q r)
    (h : L.stage r = .warm ∨ L.stage r = .cold)
    (hfree : ∀ {i s}, L.SlotIn q r i s → L.place s = .free) : (L.revive q r).Sound cfg := by
  refine S.restage hr (by rcases h with h | h <;> simp [h]) (by simp) (by simp)
    (fun q => listing_other (S.lists.partials q) (by rcases h with h | h <;> simp [h]) (by simp))
    (listing_pools hr S.lists.warm (listing_erase (S.lists.warm q) (by simp)))
    (listing_pools hr S.lists.cold (listing_erase (S.lists.cold q) (by simp)))
    (counted_cons S.lists.counted (by rcases h with h | h <;> simp [h, Stage.counts])
      (by simp [Stage.counts])) ?_
  intro x hx hx'
  by_cases e : x = r
  · subst e
    rw [Function.update_self]
    refine (S.carving.slots_listing hr).congr (fun s => ⟨fun hs => hs.2, fun hs => ⟨?_, hs⟩⟩)
    obtain ⟨q', i, hs⟩ := hs
    have e := hr.pool_unique hs.1
    subst e
    exact hfree hs
  · rw [Function.update_of_ne e]
    exact S.slots.freeList hx hx'

end Ledger

end BtMalloc
