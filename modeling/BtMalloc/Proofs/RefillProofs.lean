import BtMalloc.Proofs.ObtainProofs
import BtMalloc.Proofs.FlushProofs

/-!
# Proofs: refilling a bin

`btm_pool_refill` takes slots off the freelist of one slab, hands out the last one and puts the
others in front of a bin. It keeps the ledger settled, and returns `NULL` only when the kernel
refused a chunk or the slab it picked had no free slot.
-/

namespace BtMalloc

open LinkedList PagedMemory Word

variable {cfg : Config} {k : Kernel} {X : ℕ → Prop} {B : ℕ → ℕ → Prop} {h : Heap}
  {bins : ℕ → ℕ → Bin} {L L' : Ledger} {q : PoolId} {r : SlabRef} {t b p : ℕ} {rest left : List ℕ}
  {Z : ℕ → PoolId → Prop}

/-! ## The ledger -/

namespace Ledger

/-- The slots `p :: rest` leave the freelist of slab `r` of pool `q`, of which `left` stays: `p` is
    handed out, and `rest` goes in front of bin `b` of thread `t`. -/
def refill (L : Ledger) (q : PoolId) (r : SlabRef) (t b p : ℕ) (rest left : List ℕ) : Ledger :=
  { L with
    place := fun s => if s = p then .out else if s ∈ rest then .cached t b else L.place s
    freeList := Function.update L.freeList r left
    bin := fun t' i => if t' = t ∧ i = b then rest ++ L.bin t b else L.bin t' i
    held := Function.update L.held q (p :: (rest ++ L.held q)) }

/-- The freelist of slab `r` of pool `q` begins with the slots `p :: rest`, last one first. -/
structure Taken (L : Ledger) (q : PoolId) (r : SlabRef) (p : ℕ) (rest left : List ℕ) : Prop where
  slab : L.SlabIn q r
  live : L.stage r ≠ .retired
  list : L.freeList r = (p :: rest).reverse ++ left

theorem refill_out : (L.refill q r t b p rest left).place p = .out := if_pos rfl

theorem refill_rest {s : ℕ} (hs : s ∈ rest) (hne : s ≠ p) :
    (L.refill q r t b p rest left).place s = .cached t b := by
  unfold refill
  simp only
  rw [if_neg hne, if_pos hs]

theorem refill_other {s : ℕ} (hs : s ∉ p :: rest) :
    (L.refill q r t b p rest left).place s = L.place s := by
  rw [List.mem_cons, not_or] at hs
  unfold refill
  simp only
  rw [if_neg hs.1, if_neg hs.2]

namespace Taken

variable (K : L.Taken q r p rest left) (S : L.Sound cfg)
include K S

theorem nodup : (p :: rest).Nodup ∧ ∀ s ∈ p :: rest, s ∉ left := by
  have := (S.slots.freeList K.slab.2 K.live).nodup
  rw [K.list, List.nodup_append] at this
  exact ⟨List.nodup_reverse.mp this.1, fun s h1 h2 => this.2.2 s (List.mem_reverse.mpr h1) s h2 rfl⟩

theorem free {s : ℕ} (hs : s ∈ p :: rest) : L.place s = .free ∧ ∃ i, L.SlotIn q r i s := by
  refine S.free_of_mem K.slab K.live ?_
  rw [K.list]
  exact List.mem_append_left _ (List.mem_reverse.mpr hs)

/-- The slots taken are handed out or cached, the others are where they were. -/
theorem place (s : ℕ) : s = p ∧ (L.refill q r t b p rest left).place s = .out ∨
    s ∈ rest ∧ (L.refill q r t b p rest left).place s = .cached t b ∨
    s ∉ p :: rest ∧ (L.refill q r t b p rest left).place s = L.place s := by
  by_cases hs : s ∈ p :: rest
  · rcases List.mem_cons.mp hs with rfl | hr
    · exact Or.inl ⟨rfl, refill_out⟩
    · have hne : s ≠ p := fun e => (List.nodup_cons.mp (K.nodup S).1).1 (e ▸ hr)
      exact Or.inr (Or.inl ⟨hr, refill_rest hr hne⟩)
  · exact Or.inr (Or.inr ⟨hs, refill_other hs⟩)

end Taken

/-- Taking slots keeps the ledger sound. -/
theorem Sound.refill (S : L.Sound cfg) (K : L.Taken q r p rest left) (hb : b = binIdx q) :
    (L.refill q r t b p rest left).Sound cfg := by
  obtain ⟨hnd, hleft⟩ := K.nodup S
  have hpr := (List.nodup_cons.mp hnd).1
  have hpl := K.place (t := t) (b := b) S
  -- what holds of a slot that was not taken
  have hplace : ∀ {s} {v : Place}, v ≠ .free → L.place s = v → s ∉ p :: rest := by
    intro s v hv e hm
    exact hv (e.symm.trans (K.free S hm).1)
  refine S.replace (fun s hs => ?_) (fun t' i => ?_) (fun {s t' i q' r' j} hs hi => ?_)
    (fun {x} hx hx' => ?_) (fun {s q' x i} hi hret => ?_) (fun q' => ?_)
  · rcases hpl s with ⟨rfl, -⟩ | ⟨hm, -⟩ | ⟨-, e⟩
    · simp [(K.free S (List.mem_cons_self ..)).1]
    · simp [(K.free S (List.mem_cons_of_mem _ hm)).1]
    · rw [← e]
      exact hs
  · by_cases e : t' = t ∧ i = b
    · obtain ⟨rfl, rfl⟩ := e
      simp only [and_self, if_true]
      have hrest : Listing rest fun s => s ∈ rest :=
        ⟨(List.nodup_cons.mp hnd).2, fun _ => Iff.rfl⟩
      refine hrest.append (S.slots.bin t' i)
        (fun s hs e => hplace (by simp) e (List.mem_cons_of_mem _ hs)) (fun s => ?_)
      show (L.refill q r t' i p rest left).place s = _ ↔ _
      rcases hpl s with ⟨rfl, e⟩ | ⟨hm, e⟩ | ⟨hm, e⟩
      · simp [e, hpr, (K.free S (List.mem_cons_self ..)).1]
      · simp [e, hm]
      · have hm' : s ∉ rest := fun h => hm (List.mem_cons_of_mem _ h)
        simp [e, hm']
    · simp only [if_neg e]
      refine (S.slots.bin t' i).congr (fun s => ?_)
      show (L.refill q r t b p rest left).place s = _ ↔ _
      rcases hpl s with ⟨rfl, e'⟩ | ⟨hm, e'⟩ | ⟨hm, e'⟩
      · simp [e', (K.free S (List.mem_cons_self ..)).1]
      · have hne : ¬ (t = t' ∧ b = i) := fun h => e ⟨h.1.symm, h.2.symm⟩
        simp [e', (K.free S (List.mem_cons_of_mem _ hm)).1, hne]
      · rw [e']
  · change (L.refill q r t b p rest left).place s = _ at hs
    rcases hpl s with ⟨rfl, e⟩ | ⟨hm, e⟩ | ⟨-, e⟩
    · rw [e] at hs
      cases hs
    · rw [e] at hs
      obtain ⟨rfl, rfl⟩ : t = t' ∧ b = i := by simpa using hs
      obtain ⟨-, j', hj'⟩ := K.free S (List.mem_cons_of_mem _ hm)
      rw [hb, (S.carving.slotIn_inj hi hj').1]
    · rw [e] at hs
      exact S.slots.home hs hi
  · by_cases e : x = r
    · subst e
      rw [Function.update_self]
      have hl := S.slots.freeList hx hx'
      refine ⟨(List.nodup_append.mp (K.list ▸ hl.nodup)).2.1, fun s => ?_⟩
      have hmem := hl.mem_iff (a := s)
      rw [K.list, List.mem_append, List.mem_reverse] at hmem
      show s ∈ left ↔ (L.refill q x t b p rest left).place s = .free ∧ _
      rcases hpl s with ⟨rfl, e⟩ | ⟨hm, e⟩ | ⟨hm, e⟩
      · simp [e, hleft s (List.mem_cons_self ..)]
      · simp [e, hleft s (List.mem_cons_of_mem _ hm)]
      · rw [e, ← hmem]
        simp [hm]
    · rw [Function.update_of_ne e]
      refine (S.slots.freeList hx hx').congr (fun s => and_congr_left fun hsx => ?_)
      show (L.refill q r t b p rest left).place s = _ ↔ _
      rw [refill_other]
      intro hm
      obtain ⟨q', i, hi⟩ := hsx
      obtain ⟨-, j, hj⟩ := K.free S hm
      exact e (S.carving.slotIn_inj hi hj).2.1
  · show (L.refill q r t b p rest left).place s ≠ _
    rcases hpl s with ⟨rfl, e⟩ | ⟨hm, e⟩ | ⟨-, e⟩
    · simp [e]
    · simp [e]
    · rw [e]
      exact S.slots.retired hi hret
  · by_cases e : q' = q
    · subst e
      rw [Function.update_self]
      have hrest : Listing (p :: rest) fun s => s ∈ p :: rest := ⟨hnd, fun _ => Iff.rfl⟩
      refine hrest.append (S.slots.held q') (fun s hs hb => ?_) (fun s => ?_)
      · rw [(K.free S hs).1] at hb
        cases hb.1
      · show ((L.refill q' r t b p rest left).place s).busy = true ∧ _ ↔ _
        rcases hpl s with ⟨rfl, e⟩ | ⟨hm, e⟩ | ⟨hm, e⟩
        · obtain ⟨-, j, hj⟩ := K.free S (List.mem_cons_self ..)
          simp only [e, List.mem_cons_self, true_or, iff_true]
          exact ⟨rfl, r, j, hj⟩
        · obtain ⟨-, j, hj⟩ := K.free S (List.mem_cons_of_mem _ hm)
          simp only [e, List.mem_cons_of_mem _ hm, true_or, iff_true]
          exact ⟨rfl, r, j, hj⟩
        · simp only [e, hm, false_or]
    · rw [Function.update_of_ne e]
      refine (S.slots.held q').congr (fun s => and_congr_left fun hsx => ?_)
      show ((L.refill q r t b p rest left).place s).busy = true ↔ _
      rw [refill_other]
      intro hm
      obtain ⟨x, i, hi⟩ := hsx
      obtain ⟨-, j, hj⟩ := K.free S hm
      exact e (S.carving.slotIn_inj hi hj).1

end Ledger

/-! ## The heap -/

/-- The heap once `n` slots left the freelist of slab `r` and only `left` is on it, with the memory
    and the log that come out of it. -/
def refilled (h : Heap) (q : PoolId) (r : SlabRef) (n : ℕ) (m' : Mem) (log' : List Event)
    (left : List ℕ) : Heap :=
  { h with
    mem := m', log := log'
    slabs := Function.update h.slabs r
      { h.slabs r with
        freeHead := left.headD 0, freeCount := left.length, epoch := h.tierEpoch, pagedOut := false }
    pools := Function.update h.pools q
      { h.pools q with outstanding := (h.pools q).outstanding + n } }

theorem refilled_rep (H : HeapRep cfg h bins L) (S : L.Sound cfg) (K : L.Taken q r p rest left)
    {m' : Mem} {log' : List Event} {bin : Bin} (hpt : m'.pt = h.mem.pt)
    (hkeep : Keeps L.Unit (fun s => s ∈ p :: rest) h.mem m')
    (hleft : Chain (flNext cfg m') (ptr (left.headD 0)) left)
    (hbin : BinOk cfg m' b bin (rest ++ L.bin t b)) (hgood : Good log')
    (hfresh : ∀ s, Fresh h.log s → Fresh log' s) (hst : (L.stage r).intact = true) :
    HeapRep cfg (refilled h q r (rest.length + 1) m' log' left) (setBins bins t b bin)
      (L.refill q r t b p rest left) := by
  have hD := H.desc q r K.slab
  have hfr : ∀ s ∈ p :: rest, Fresh log' s := by
    intro s hs
    refine hfresh s (H.log.free K.slab hst ?_)
    rw [K.list]
    exact List.mem_append_left _ (List.mem_reverse.mpr hs)
  refine H.replace hpt (fun q' x hx => ?_) ?_ (fun q' => ?_) ?_ ?_ (fun q' x hx hi => ?_)
    (fun t' i => ?_) hgood
  · by_cases e : x = r
    · subst e
      have e' := K.slab.pool_unique hx
      subst e'
      simp only [Function.update_self]
      exact ⟨hD.firstPage, hD.npages, hD.nslots, hD.sc, hD.partIdx, hD.inPartial, hD.decommitted,
        hD.retired, fun _ => rfl⟩
    · simp only [Function.update_of_ne e]
      exact H.desc q' x hx
  · exact (H.lists.update_slab (by rfl) (by rfl)).update_pool (by rfl) (by rfl) (by rfl) (by rfl)
  · by_cases e : q' = q
    · subst e
      simp only [Function.update_self, List.length_cons, List.length_append, H.tally q']
      omega
    · simp only [Function.update_of_ne e]
      exact H.tally q'
  · exact update_proj Pool.chunks (by rfl)
  · exact update_proj Pool.active (by rfl)
  · by_cases e : x = r
    · subst e
      simp only [Function.update_self]
      refine ⟨hleft, fun s hs => hfresh s (H.log.free hx hi ?_)⟩
      rw [K.list]
      exact List.mem_append_right _ hs
    · simp only [Function.update_of_ne e]
      refine ⟨keeps_chain hkeep (H.free q' x hx hi) (fun s hs => ?_),
        fun s hs => hfresh s (H.log.free hx hi hs)⟩
      obtain ⟨hp, i, hslot⟩ := S.free_of_mem hx (Stage.intact_ne_retired hi) hs
      refine ⟨S.cell (by simp [hp]), fun hm => ?_⟩
      obtain ⟨-, j, hj⟩ := K.free S hm
      exact e (S.carving.slotIn_inj hslot hj).2.1
  · by_cases e : t' = t ∧ i = b
    · obtain ⟨rfl, rfl⟩ := e
      rw [setBins_self]
      simp only [and_self, if_true]
      refine ⟨hbin, fun s hs => ?_⟩
      rcases List.mem_append.mp hs with hs | hs
      · exact hfr s (List.mem_cons_of_mem _ hs)
      · exact hfresh s (H.log.bin hs)
    · rw [setBins_of_ne (fun e' => e (by simpa using e'))]
      simp only [if_neg e]
      have hB := H.bins t' i
      refine ⟨⟨keeps_chain hkeep hB.chain (fun s hs => ?_), hB.count, hB.pool⟩,
        fun s hs => hfresh s (H.log.bin hs)⟩
      have hp := S.bin_place hs
      refine ⟨S.cell (by simp [hp]), fun hm => ?_⟩
      rw [(K.free S hm).1] at hp
      cases hp

theorem refilled_effect (H : HeapRep cfg h bins L) (S : L.Sound cfg) (K : L.Taken q r p rest left)
    {m' : Mem} {log' : List Event} {n : ℕ}
    (hkeep : Keeps L.Unit (fun s => s ∈ p :: rest) h.mem m')
    (hlog : ∃ ev, log' = ev ++ h.log ∧ ∀ e ∈ ev, e.isLink = true) :
    Effect k X B h L (refilled h q r n m' log' left) (L.refill q r t b p rest left) := by
  have hno : ∀ {a m}, L.Client a m → a ∉ p :: rest := by
    intro a m hc hm
    obtain ⟨hf, j, hj⟩ := K.free S hm
    cases hc with
    | slot ho _ =>
      rw [hf] at ho
      cases ho
    | large hl => exact H.space.large_ne_slot S hl hj rfl
  exact Effect.quiet (fun a m i hc _ hi => hkeep hc.unit (hno hc) hi) hlog
    (fun a m hc _ => hc.congr (Ledger.refill_other (hno hc)) (fun hx => hx) rfl) rfl rfl rfl rfl
    ⟨rfl, rfl⟩

/-! ## `btm_pool_refill` -/

/-- What `btm_pool_refill` does with the slab it picked. -/
def refillFrom (cfg : Config) (h : Heap) (q : PoolId) (r : SlabRef) (bin : Bin) (want : ℕ) :
    ℕ × Bin × Heap :=
  let (loc, n, h) := refillLoop cfg r want 0 0 h
  let h := h.modSlab r fun x => { x with freeCount := subWrap 32 x.freeCount n }
  let h := h.modPool q fun P => { P with outstanding := P.outstanding + n }
  let h := slabTouch h r
  let h := if (h.slabs r).freeCount = 0 then partialRemove h q r else h
  if n = 0 then (0, bin, h)
  else
    let p := loc
    let loc := btmFlGet cfg h p
    let h := h.note (.get p)
    if n - 1 = 0 then (p, bin, h)
    else
      let (tail, h) := refillTail cfg (n - 1 - 1) loc h
      let h := btmFlSet cfg h tail bin.freeHead
      (p, { bin with freeHead := loc, count := bin.count + (n - 1) }, h)

theorem btmPoolRefill_eq {bin : Bin} {want : ℕ} : btmPoolRefill cfg k h q bin want =
    match refillSlab cfg k h q with
    | (none, h) => (0, bin, h)
    | (some r, h) => refillFrom cfg h q r bin want := by
  unfold btmPoolRefill refillFrom
  rfl

/-- A slab that has run dry leaves the partial list. -/
def leavePartial (h : Heap) (q : PoolId) (r : SlabRef) (left : List ℕ) : Heap :=
  if left = [] then partialRemove h q r else h

/-- Leaving the partial list has nothing to do with the bytes of the slots. -/
theorem leavePartial_refilled (m m' : Mem) (log log' : List Event) {n : ℕ} :
    leavePartial (refilled h q r n m' log' left) q r left =
      { leavePartial (refilled h q r n m log left) q r left with mem := m', log := log' } := by
  unfold leavePartial
  split
  · rw [partialRemove_eq, partialRemove_eq]
    rfl
  · rfl

theorem leavePartial_mem : (leavePartial h q r left).mem = h.mem ∧
    (leavePartial h q r left).log = h.log := by
  unfold leavePartial
  split
  · rw [partialRemove_eq]
    exact ⟨rfl, rfl⟩
  · exact ⟨rfl, rfl⟩

/-- The heap after the locked part of a refill that took `n` slots. -/
theorem refillLocked_eq {want n : ℕ} {loc : ℕ} {m' : Mem} {log' : List Event} {l : List ℕ}
    (hloop : refillLoop cfg r want 0 0 h = (loc, n, { h with
      mem := m', log := log'
      slabs := Function.update h.slabs r { h.slabs r with freeHead := left.headD 0 } }))
    (hcount : (h.slabs r).freeCount = l.length) (hn : l.length = n + left.length) (bin : Bin) :
    refillFrom cfg h q r bin want =
      let h1 := leavePartial (refilled h q r n m' log' left) q r left
      if n = 0 then (0, bin, h1)
      else if n - 1 = 0 then (loc, bin, h1.note (.get loc))
      else
        let tail := refillTail cfg (n - 1 - 1) (btmFlGet cfg h1 loc) (h1.note (.get loc))
        (loc, { bin with freeHead := btmFlGet cfg h1 loc, count := bin.count + (n - 1) },
          btmFlSet cfg tail.2 tail.1 bin.freeHead) := by
  have hsub : subWrap 32 (h.slabs r).freeCount n = left.length := by
    rw [hcount, subWrap_of_le (by omega)]
    omega
  unfold refillFrom
  rw [hloop]
  simp only [Heap.modSlab, Heap.modPool, slabTouch, Function.update_self, Function.update_idem, hsub,
    leavePartial, refilled, List.length_eq_zero_iff]

/-- A refill from a slab without a free slot: the slab leaves the partial list. -/
theorem refillFrom_dry (H : HeapRep cfg h bins L) (S : L.Sound cfg) (hr : L.SlabIn q r)
    (hst : L.stage r = .listed) (hl : L.freeList r = []) (bin : Bin) (want : ℕ) :
    ∃ h', refillFrom cfg h q r bin want = (0, bin, h') ∧ HeapRep cfg h' bins (L.delist q r) ∧
      Effect k X B h L h' (L.delist q r) ∧ Aside h L h' (L.delist q r) := by
  have hfree := H.free q r hr (by rw [hst]; rfl)
  rw [hl] at hfree
  have hhead : (h.slabs r).freeHead = 0 := chain_ptr_head hfree
  have hD := H.desc q r hr
  have hcount := hD.freeCount (by simp [hst])
  have hloop : refillLoop cfg r want 0 0 h = (0, 0, { h with
      mem := h.mem, log := h.log
      slabs := Function.update h.slabs r { h.slabs r with freeHead := ([] : List ℕ).headD 0 } }) := by
    have hsame : Function.update h.slabs r { h.slabs r with freeHead := ([] : List ℕ).headD 0 } =
        h.slabs := by
      rw [List.headD_nil, ← hhead]
      exact Function.update_eq_self ..
    rw [hsame]
    cases want with
    | zero => rfl
    | succ n => rw [refillLoop, if_pos hhead]
  have hR := refillLocked_eq (q := q) hloop hcount (by rw [hl]; rfl) bin
  have H1 : HeapRep cfg (refilled h q r 0 h.mem h.log []) bins L := by
    refine H.replace rfl (fun q' x hx => ?_) ?_ (fun q' => ?_) ?_ ?_ (fun q' x hx hi => ?_)
      (fun t i => ⟨H.bins t i, fun s hs => H.log.bin hs⟩) H.log.good
    · by_cases e : x = r
      · subst e
        have e' := hr.pool_unique hx
        subst e'
        simp only [Function.update_self]
        exact ⟨hD.firstPage, hD.npages, hD.nslots, hD.sc, hD.partIdx, hD.inPartial, hD.decommitted,
          hD.retired, fun _ => by rw [hl]⟩
      · simp only [Function.update_of_ne e]
        exact H.desc q' x hx
    · exact (H.lists.update_slab (by rfl) (by rfl)).update_pool (by rfl) (by rfl) (by rfl) (by rfl)
    · rw [update_proj Pool.outstanding (by rfl) q']
      exact H.tally q'
    · exact update_proj Pool.chunks (by rfl)
    · exact update_proj Pool.active (by rfl)
    · refine ⟨?_, fun s hs => H.log.free hx hi hs⟩
      rw [update_proj Slab.freeHead (by exact hhead.symm) x]
      exact H.free q' x hx hi
  have E1 : Effect k X B h L (refilled h q r 0 h.mem h.log []) L :=
    Effect.quiet Keeps.refl ⟨[], rfl, by simp⟩ (fun _ _ hc _ => hc) rfl rfl rfl rfl ⟨rfl, rfl⟩
  have A1 : Aside h L (refilled h q r 0 h.mem h.log []) L := ⟨rfl, rfl, fun _ _ => rfl⟩
  exact ⟨_, hR, partialRemove_rep H1 S hr hst, E1.trans (partialRemove_effect hr),
    A1.trans partialRemove_aside⟩

/-- The slots a refill takes. -/
theorem Ledger.taken_of_take (hr : L.SlabIn q r) (hlive : L.stage r ≠ .retired)
    (hl : L.freeList r ≠ []) {want : ℕ} (hw : 0 < want) :
    ∃ p rest, ((L.freeList r).take want).reverse = p :: rest ∧
      L.Taken q r p rest ((L.freeList r).drop want) ∧
      min want (L.freeList r).length = rest.length + 1 := by
  have hlen : ((L.freeList r).take want).reverse.length = min want (L.freeList r).length := by
    rw [List.length_reverse, List.length_take]
  have hpos := List.length_pos_iff.mpr hl
  cases htr : ((L.freeList r).take want).reverse with
  | nil =>
    rw [htr, List.length_nil] at hlen
    omega
  | cons p rest =>
    refine ⟨p, rest, rfl, ⟨hr, hlive, ?_⟩, ?_⟩
    · rw [← htr, List.reverse_reverse, List.take_append_drop]
    · rw [← hlen, htr, List.length_cons]

/-- The unlocked part of a refill that took more than one slot: the walk ends at the last of them,
    and its link is set to the bin's list. -/
theorem refillSplice_spec {init binl : List ℕ} {last v n : ℕ} {U : ℕ → ℕ → Prop}
    (hA : h.mem.Apart U) (hchain : Chain (flNext cfg h.mem) (ptr p) (p :: (init ++ [last])))
    (hbin : Chain (flNext cfg h.mem) (ptr v) binl) (hcell : ∀ s ∈ init ++ last :: binl, Cell U s)
    (hnd : (init ++ last :: binl).Nodup) (hn : n = init.length) :
    ∃ log', refillTail cfg n (btmFlGet cfg h p) (h.note (.get p)) = (last, { h with log := log' }) ∧
      LinkLog (fun s => s ∈ p :: (init ++ [last])) h.log log' ∧
      btmFlGet cfg h p = (init ++ [last]).headD 0 ∧
      Keeps U (fun s => s = last) h.mem (h.mem.writeLE 8 last (flEncode cfg last v)) ∧
      Chain (flNext cfg (h.mem.writeLE 8 last (flEncode cfg last v)))
        (ptr ((init ++ [last]).headD 0)) (init ++ [last] ++ binl) := by
  have hget : btmFlGet cfg h p = (init ++ [last]).headD 0 := chain_ptr_head (a := btmFlGet cfg h p) hchain.2
  have hrest : Chain (flNext cfg h.mem) (ptr ((init ++ [last]).headD 0)) (init ++ [last]) := by
    rw [← hget]
    exact hchain.2
  obtain ⟨log', he, hlog⟩ := (@refillTail_spec cfg n (btmFlGet cfg h p) (h.note (.get p)) (init ++ [last])) (by rw [hget]; exact hrest) (by simp [hn])
  have hlast := hcell last (by simp)
  have hv : v < 2 ^ 64 := by
    rw [chain_ptr_head hbin]
    cases binl with
    | nil => simp
    | cons x l => exact (hcell x (by simp)).choose_spec.2.2.2
  obtain ⟨h1, h2⟩ := (@flSet_spec cfg) hA hlast hv
  have hne : ∀ s, s ∈ init ∨ s ∈ binl → s ≠ last := by
    rintro s hs rfl
    rw [List.nodup_append] at hnd
    rcases hs with hs | hs
    · exact hnd.2.2 s hs s (List.mem_cons_self ..) rfl
    · exact (List.nodup_cons.mp hnd.2.1).1 hs
  refine ⟨log', ?_, ?_, hget, h2, ?_⟩
  · rw [he, hn]
    simp [Heap.note]
  · refine LinkLog.trans ((LinkLog.get (s := p)).mono (fun s e => by simp [e])) hlog (fun s hs => ?_)
    exact Or.inl (List.mem_cons_of_mem _ hs)
  · rw [List.append_assoc, List.singleton_append]
    refine hrest.append (keeps_chain h2 hbin (fun s hs => ⟨hcell s (by simp [hs]), hne s (Or.inr hs)⟩)) h1
      (fun s hs => keeps_flNext h2 (hcell s (by simp [hs])) (hne s (Or.inl hs)))

/-- A refill from a slab with a free slot: what becomes of memory, the log and the bin. -/
theorem refillFrom_eq (H : HeapRep cfg h bins L) (S : L.Sound cfg) (hr : L.SlabIn q r)
    (hst : L.stage r = .listed) (hl : L.freeList r ≠ []) {want : ℕ} (hw : 0 < want) {bin : Bin}
    (hbin : BinOk cfg h.mem b bin (L.bin t b)) (hpool : bin.pool = some q) (hb : b = binIdx q)
    (hv : q.Valid cfg) :
    ∃ p rest left bin' m' log', L.Taken q r p rest left ∧
      refillFrom cfg h q r bin want =
        (p, bin', leavePartial (refilled h q r (rest.length + 1) m' log' left) q r left) ∧
      m'.pt = h.mem.pt ∧ Keeps L.Unit (fun s => s ∈ p :: rest) h.mem m' ∧
      Chain (flNext cfg m') (ptr (left.headD 0)) left ∧ BinOk cfg m' b bin' (rest ++ L.bin t b) ∧
      LinkLog (fun s => s ∈ L.freeList r) h.log log' := by
  have hint : (L.stage r).intact = true := by rw [hst]; rfl
  have hlive : L.stage r ≠ .retired := by simp [hst]
  have hA := H.apart S
  have hfree := H.free q r hr hint
  have hcell : ∀ s ∈ L.freeList r, Cell L.Unit s :=
    fun s hs => S.cell (by simp [S.freeList_place hr hlive hs])
  obtain ⟨p, rest, htr, K, hmin⟩ := Ledger.taken_of_take hr hlive hl hw
  obtain ⟨m1, log1, hloop, hpt1, hk1, hleft1, hch1, hlog1⟩ := (@refillLoop_spec cfg L.Unit _ want 0 0 _ _ []) hA hfree rfl (by simpa using hcell)
    (by simpa using (S.slots.freeList hr.2 hlive).nodup)
  have htake : ∀ s, s ∈ (L.freeList r).take want ↔ s ∈ p :: rest := fun s => by
    rw [← htr, List.mem_reverse]
  rw [List.append_nil, htr, List.headD_cons] at hch1 hloop
  rw [Nat.zero_add, hmin] at hloop
  have hk1' : Keeps L.Unit (fun s => s ∈ p :: rest) h.mem m1 := hk1.mono (fun _ hs => (htake _).mp hs)
  set left := (L.freeList r).drop want with hdrop
  have hlen : (L.freeList r).length = rest.length + 1 + left.length := by
    have := congrArg List.length K.list
    rw [List.length_append, List.length_reverse, List.length_cons] at this
    exact this
  have hR := refillLocked_eq (q := q) hloop ((H.desc q r hr).freeCount hlive) hlen bin
  -- the bin's own list is untouched so far
  have hbin1 : Chain (flNext cfg m1) (ptr bin.freeHead) (L.bin t b) := by
    refine keeps_chain hk1' hbin.chain (fun s hs => ?_)
    have hp := S.bin_place hs
    refine ⟨S.cell (by simp [hp]), fun hm => ?_⟩
    rw [(K.free S hm).1] at hp
    cases hp
  obtain ⟨e1, e2⟩ := (@leavePartial_mem (refilled h q r (rest.length + 1) m1 log1 left) q r left)
  have hp0 : p ∈ L.freeList r := by
    rw [K.list]
    simp
  rw [if_neg (by omega)] at hR
  rcases List.eq_nil_or_concat rest with rfl | ⟨init, last, rfl⟩
  · -- one slot
    rw [if_pos (by simp)] at hR
    refine ⟨p, [], left, bin, m1, .get p :: log1, K, ?_, hpt1, hk1', hleft1,
      ⟨hbin1, hbin.count, hbin.pool⟩, ?_⟩
    · rw [hR, leavePartial_refilled m1 m1 log1 (.get p :: log1)]
      have e1' : _ = m1 := e1
      have e2' : _ = log1 := e2
      simp only [Heap.note, e1', e2']
    · exact hlog1.trans (LinkLog.get (s := p)) (fun s e => Or.inl (by rw [e]; exact hp0))
  · -- more than one
    rw [if_neg (by simp)] at hR
    rw [List.concat_eq_append] at *
    have hdis : ∀ s ∈ L.bin t b, s ∉ p :: (init ++ [last]) := by
      intro s hs hm
      have hp := S.bin_place hs
      rw [(K.free S hm).1] at hp
      cases hp
    have hnd : (init ++ last :: L.bin t b).Nodup := by
      have h1 := (List.nodup_cons.mp (K.nodup S).1).2
      rw [show init ++ last :: L.bin t b = (init ++ [last]) ++ L.bin t b by simp]
      refine List.nodup_append.mpr ⟨h1, (S.slots.bin t b).nodup, fun x hx y hy e => ?_⟩
      exact hdis y hy (List.mem_cons_of_mem _ (e ▸ hx))
    have hcell' : ∀ s ∈ init ++ last :: L.bin t b, Cell L.Unit s := by
      intro s hs
      rw [show init ++ last :: L.bin t b = (init ++ [last]) ++ L.bin t b by simp] at hs
      rcases List.mem_append.mp hs with hs | hs
      · exact S.cell (by simp [(K.free S (List.mem_cons_of_mem _ hs)).1])
      · exact S.cell (by simp [S.bin_place hs])
    set h1 := leavePartial (refilled h q r ((init ++ [last]).length + 1) m1 log1 left) q r left
      with hh1
    obtain ⟨log2, htail, hlog2, hget, hk2, hch2⟩ := (@refillSplice_spec cfg h1 p init (L.bin t b) last bin.freeHead init.length L.Unit) (by rw [e1]; exact hA.congr_pt hpt1) (by rw [e1]; exact hch1)
      (by rw [e1]; exact hbin1) hcell' hnd rfl
    rw [e1] at hk2 hch2
    rw [e2] at hlog2
    have hlast : last ∈ p :: (init ++ [last]) := by simp
    refine ⟨p, init ++ [last], left,
      { bin with freeHead := (init ++ [last]).headD 0, count := bin.count + (init ++ [last]).length },
      m1.writeLE 8 last (flEncode cfg last bin.freeHead), .set last :: log2, K, ?_, hpt1, ?_, ?_,
      ⟨hch2, ?_, fun _ => ⟨q, hv, hpool, hb⟩⟩, ?_⟩
    · have hn : (init ++ [last]).length - 1 = init.length := by simp
      have e1' : h1.mem = m1 := e1
      rw [hR, leavePartial_refilled m1 _ log1 _]
      simp only [Nat.add_sub_cancel, hn]
      rw [htail, hget, btmFlSet_eq, ← hh1]
      simp only [e1']
    · exact hk1'.trans (hk2.mono (fun _ e => by rw [e]; exact hlast))
    · refine keeps_chain hk2 hleft1 (fun s hs => ⟨hcell s ?_, fun e => ?_⟩)
      · rw [K.list]
        exact List.mem_append_right _ hs
      · exact (K.nodup S).2 last hlast (e ▸ hs)
    · show bin.count + (init ++ [last]).length = _
      rw [hbin.count, @List.length_append _ (init ++ [last]), Nat.add_comm]
    · refine (hlog1.trans hlog2 (fun s hs => Or.inl ?_)).trans LinkLog.set (fun s hf => hf.elim)
      rw [K.list]
      exact List.mem_append_left _ (List.mem_reverse.mpr hs)

/-! ## What a refill does as a whole -/

/-- Another `pool` field for a bin. -/
theorem HeapRep.setBin (H : HeapRep cfg h bins L) (hb : b = binIdx q) (hq : q.Valid cfg) :
    HeapRep cfg h (setBins bins t b { bins t b with pool := some q }) L := by
  refine ⟨H.desc, H.lists, H.tally, H.header, H.chunks, H.depot, H.free, fun t' i => ?_, H.frame,
    H.space, H.owner, H.log⟩
  by_cases e : (t', i) = (t, b)
  · obtain ⟨rfl, rfl⟩ : t' = t ∧ i = b := by simpa using e
    rw [setBins_self]
    exact ⟨(H.bins t' i).chain, (H.bins t' i).count, fun _ => ⟨q, hq, rfl, hb⟩⟩
  · rw [setBins_of_ne e]
    exact H.bins t' i

namespace Ledger

/-- The ledger after a refill from slab `r`. -/
def refillDone (L : Ledger) (q : PoolId) (r : SlabRef) (t b p : ℕ) (rest left : List ℕ) : Ledger :=
  if left = [] then (L.refill q r t b p rest left).delist q r else L.refill q r t b p rest left

theorem Taken.length_lt (K : L.Taken q r p rest left) (S : L.Sound cfg) :
    left.length < slabSlots q.sc := by
  have h1 := S.freeList_length_le K.slab K.live
  have h2 := congrArg List.length K.list
  rw [List.length_append, List.length_reverse, List.length_cons] at h2
  omega

/-- The other slabs are as settled as before. -/
theorem SettledBut.refill (T : L.SettledBut r) :
    (L.refill q r t b p rest left).SettledBut r := by
  refine ⟨fun {q' x} hne hx => ?_, T.chunk, T.warm⟩
  have := T.slab (q := q') hne hx
  unfold SlabSettled at this ⊢
  simpa only [Ledger.refill, Function.update_of_ne hne] using this

theorem Taken.settled (K : L.Taken q r p rest left) (S : L.Sound cfg) (T : L.SettledBut r)
    (hst : L.stage r = .listed) : (L.refillDone q r t b p rest left).Settled := by
  have T1 : (L.refill q r t b p rest left).SettledBut r := T.refill
  have hr1 : (L.refill q r t b p rest left).SlabIn q r := K.slab
  unfold refillDone
  split_ifs with hl
  · refine (T1.delist hr1).settled (hr1.restage hr1.2 (by simp) rfl rfl) ?_
    unfold SlabSettled
    simp [Ledger.delist, Ledger.refill, hl]
  · refine T1.settled hr1 ?_
    have h1 : (L.refill q r t b p rest left).stage r = .listed := hst
    unfold SlabSettled
    rw [h1]
    simpa [Ledger.refill] using K.length_lt S

/-- Slots of the ledger after the refill. -/
theorem Taken.done_slot (K : L.Taken q r p rest left) {q' : PoolId} {x : SlabRef} {i s : ℕ} :
    (L.refillDone q r t b p rest left).SlotIn q' x i s ↔ L.SlotIn q' x i s := by
  unfold refillDone
  split_ifs
  · exact and_congr_left fun _ => and_congr_right fun _ =>
      update_stage_ne_uncarved (L := L.refill q r t b p rest left) K.slab.2 (by simp) x
  · exact Iff.rfl

theorem refillDone_place {s : ℕ} : (L.refillDone q r t b p rest left).place s =
    (L.refill q r t b p rest left).place s := by
  unfold refillDone
  split_ifs <;> rfl

theorem refillDone_large : (L.refillDone q r t b p rest left).large = L.large := by
  unfold refillDone
  split_ifs <;> rfl

theorem refillDone_bin {t' i : ℕ} : (L.refillDone q r t b p rest left).bin t' i =
    if t' = t ∧ i = b then rest ++ L.bin t b else L.bin t' i := by
  unfold refillDone
  split_ifs <;> simp_all [Ledger.refill, Ledger.delist]

/-- Nothing but the slot handed out and the bin changed for the client. -/
theorem Taken.moved (K : L.Taken q r p rest left) (S : L.Sound cfg) :
    L.Moved (L.refillDone q r t b p rest left) (fun x => x = p) (fun t' i => t' = t ∧ i = b) Z := by
  have hpl := K.place (t := t) (b := b) S
  refine ⟨fun q' x i s ho hx hs => ⟨?_, K.done_slot.mpr hs⟩, fun s ho hx => ?_, fun t' i hy => ?_,
    fun c q' hc => Or.inl ?_, ?_⟩
  · rw [refillDone_place, refill_other, ho]
    intro hm
    rw [(K.free S hm).1] at ho
    cases ho
  · rw [refillDone_place] at ho
    rcases hpl s with ⟨rfl, -⟩ | ⟨-, e⟩ | ⟨-, e⟩
    · exact absurd rfl hx
    · rw [e] at ho
      cases ho
    · rwa [e] at ho
  · rw [refillDone_bin, if_neg hy]
  · unfold refillDone at hc
    split_ifs at hc <;> exact hc
  · exact fun _ _ => by rw [refillDone_large]

theorem Taken.tidy (K : L.Taken q r p rest left) (S : L.Sound cfg) :
    L.Tidy (L.refillDone q r t b p rest left) := by
  have hpl := K.place (t := t) (b := b) S
  refine ⟨fun U => ⟨fun x hx => ?_, fun {q' x i s} hs => ?_⟩, fun hR x hx => ?_,
    fun q' x i s hs hv => ⟨K.done_slot.mpr hs, ?_⟩⟩
  · unfold refillDone at hx
    split_ifs at hx
    · by_cases e : x = r
      · subst e
        have : Stage.unlisted = .retired := (Function.update_self ..).symm.trans hx
        cases this
      · exact U.stage x ((Function.update_of_ne e ..).symm.trans hx)
    · exact U.stage x hx
  · rw [refillDone_place]
    have := U.place (K.done_slot.mp hs)
    rcases hpl s with ⟨rfl, e⟩ | ⟨-, e⟩ | ⟨-, e⟩ <;> rw [e]
    · simp
    · simp
    · exact this
  · unfold refillDone at hx ⊢
    split_ifs at hx ⊢ with hl
    · by_cases e : x = r
      · subst e
        have : Stage.unlisted = .listed := (Function.update_self ..).symm.trans hx
        cases this
      · have h1 : L.stage x = .listed := (Function.update_of_ne e ..).symm.trans hx
        show Function.update L.freeList r left x ≠ []
        rw [Function.update_of_ne e]
        exact hR h1
    · show Function.update L.freeList r left x ≠ []
      by_cases e : x = r
      · subst e
        rwa [Function.update_self]
      · rw [Function.update_of_ne e]
        exact hR hx
  · rw [refillDone_place, refill_other, hv]
    intro hm
    rw [(K.free S hm).1] at hv
    cases hv

end Ledger

theorem Ledger.delist_moved (hr : L.SlabIn q r) {Y : ℕ → ℕ → Prop} : L.Moved (L.delist q r) X Y Z :=
  ⟨fun _ _ _ _ ho _ hs => ⟨ho, hs.1.restage hr.2 (by simp) rfl rfl, hs.2⟩, fun _ ho _ => ho,
    fun _ _ _ => rfl, fun _ _ => Or.inl, fun _ _ => rfl⟩

theorem Ledger.delist_tidy (hr : L.SlabIn q r) : L.Tidy (L.delist q r) := by
  have R : L.Reclaimed (L.delist q r) := .restage hr.2 (by simp) (by simp) (by simp)
  exact ⟨fun U => ⟨fun x hx => U.stage x (R.retired hx), fun hs => R.void hs (U.place (R.slot hs))⟩,
    R.ready, fun _ _ _ _ hs hv => R.lost hs hv⟩

/-- A slab without free slots leaves the partial list after a refill. -/
theorem leavePartial_spec (H : HeapRep cfg h bins (L.refill q r t b p rest left))
    (S : (L.refill q r t b p rest left).Sound cfg) (hr : (L.refill q r t b p rest left).SlabIn q r)
    (hst : (L.refill q r t b p rest left).stage r = .listed) :
    (L.refillDone q r t b p rest left).Sound cfg ∧
      HeapRep cfg (leavePartial h q r left) bins (L.refillDone q r t b p rest left) ∧
      Effect k X B h (L.refill q r t b p rest left) (leavePartial h q r left)
        (L.refillDone q r t b p rest left) ∧
      Aside h (L.refill q r t b p rest left) (leavePartial h q r left)
        (L.refillDone q r t b p rest left) := by
  unfold leavePartial Ledger.refillDone
  split_ifs
  · exact ⟨S.delist hr hst, partialRemove_rep H S hr hst, partialRemove_effect hr,
      partialRemove_aside⟩
  · exact ⟨S, H, Effect.refl, Aside.refl⟩

/-- What comes out of a call that allocates from pool `q` for thread `t`: nothing, which needs a
    refusal of the kernel if the pool is ready, or a slot that was not handed out before. -/
def Served (cfg : Config) (k : Kernel) (h : Heap) (L L' : Ledger) (q : PoolId) (p : ℕ) : Prop :=
  p = 0 ∧ (L.Ready → ChunkRefused cfg k h q) ∨
    p ≠ 0 ∧ L.place p ≠ .out ∧ L.large p = none ∧ L'.place p = .out ∧ ∃ r i, L'.SlotIn q r i p

/-- There is no large object at a slot. -/
theorem SpaceRep.large_none {pt : ℕ → Frame} {mapped : ℕ → Bool} {larges : ℕ → LargeHdr}
    (Sp : SpaceRep pt mapped larges L) (S : L.Sound cfg) {i : ℕ} (hs : L.SlotIn q r i p) :
    L.large p = none := by
  cases hl : L.large p with
  | none => rfl
  | some hd => exact absurd rfl (Sp.large_ne_slot S hl hs)

/-- A refill from the picked slab. -/
theorem refillFrom_spec {h1 : Heap} (P : Pick cfg k (fun _ => False) bins h L q r h1 L')
    (S : L.Sound cfg)
    (hq : q.Valid cfg) {want : ℕ} (hw : 0 < want) (hb : b = binIdx q) :
    ∃ p bin h2 L2, refillFrom cfg h1 q r { bins t b with pool := some q } want = (p, bin, h2) ∧
      Outcome cfg k (fun x => x = p) (fun t' i => t' = t ∧ i = b)
        (fun c q' => q' = q ∧ ChunkTaken k h q c) h L h2 (setBins bins t b bin) L2 ∧
      Aside h L h2 L2 ∧ Served cfg k h L L2 q p := by
  by_cases hl : L'.freeList r = []
  · -- a listed slab without a free slot
    obtain ⟨h2, he, H2, E2, A2⟩ := refillFrom_dry (k := k) (X := fun x => x = 0)
      (B := (L'.delist q r).Busy) P.rep P.sound P.self P.stage hl { bins t b with pool := some q } want
    have hd := P.free.resolve_left (fun h => h hl)
    refine ⟨0, _, h2, L'.delist q r, he, ⟨P.sound.delist P.self P.stage, ?_, H2.setBin hb hq,
      ((P.effect.weaken False.elim).mono fun hu => ?_).trans E2,
      P.grown.moved.trans (Ledger.delist_moved P.self), P.tidy.trans (Ledger.delist_tidy P.self)⟩,
      P.aside.trans A2, Or.inl ⟨rfl, fun hR => absurd hd.2 (hR hd.1)⟩⟩
    · refine (P.settled.delist P.self).settled (P.self.restage P.self.2 (by simp) rfl rfl) ?_
      unfold Ledger.SlabSettled
      simpa [Ledger.delist] using hl
    · cases hu.unit with
      | slot hv hs =>
        exact .slot hv ⟨⟨hs.1.1, (Ledger.update_stage_ne_uncarved P.self.2 (by simp) _).mp hs.1.2⟩, hs.2⟩
      | large hl => exact .large hl
  · have hB := P.rep.bins t b
    obtain ⟨p, rest, left, bin', m', log', K, he, hpt, hk, hleft, hbin, hlog⟩ :=
      @refillFrom_eq _ _ _ _ _ _ t b P.rep P.sound P.self P.stage hl _ hw
        { bins t b with pool := some q } ⟨hB.chain, hB.count, fun _ => ⟨q, hq, rfl, hb⟩⟩ rfl hb hq
    have hint : (L'.stage r).intact = true := by rw [P.stage]; rfl
    have H1 := refilled_rep P.rep P.sound K hpt hk hleft hbin
      (hlog.good P.rep.log.good (fun s hs => P.rep.log.free P.self hint hs))
      (fun s hs => hlog.fresh hs) hint
    have S1 := P.sound.refill (t := t) K hb
    have hr1 : (L'.refill q r t b p rest left).SlabIn q r := P.self
    have hst1 : (L'.refill q r t b p rest left).stage r = .listed := P.stage
    have E1 : Effect k (fun x => x = p) (L'.refillDone q r t b p rest left).Busy h1 L'
        (refilled h1 q r (rest.length + 1) m' log' left) (L'.refill q r t b p rest left) :=
      refilled_effect P.rep P.sound K hk hlog.ext
    have A1 : Aside h1 L' (refilled h1 q r (rest.length + 1) m' log' left)
        (L'.refill q r t b p rest left) := ⟨rfl, rfl, fun _ _ => rfl⟩
    obtain ⟨S2, H2, E2, A2⟩ := leavePartial_spec (k := k) (X := fun x => x = p)
      (B := (L'.refillDone q r t b p rest left).Busy) H1 S1 hr1 hst1
    obtain ⟨-, i, hi⟩ := K.free P.sound (List.mem_cons_self ..)
    have hout : (L'.refillDone q r t b p rest left).place p = .out :=
      Ledger.refillDone_place.trans Ledger.refill_out
    refine ⟨p, bin', _, _, he, ⟨S2, K.settled P.sound P.settled P.stage, H2,
      (((P.effect.weaken False.elim).mono fun {a n} hu => ?_).trans E1).trans E2,
      P.grown.moved.trans (K.moved P.sound), P.tidy.trans (K.tidy P.sound)⟩,
      (P.aside.trans A1).trans A2, Or.inr ⟨?_, fun ho => ?_, ?_, hout, r, i, K.done_slot.mpr hi⟩⟩
    · cases hu.unit with
      | @slot q' x j _ hv hs =>
        refine .slot (fun e => hv ?_) (K.done_slot.mp hs)
        rw [Ledger.refillDone_place]
        rcases K.place (t := t) (b := b) P.sound a with ⟨e', -⟩ | ⟨hm, -⟩ | ⟨-, e'⟩
        · rw [e', (K.free P.sound (List.mem_cons_self ..)).1] at e
          cases e
        · rw [(K.free P.sound (List.mem_cons_of_mem _ hm)).1] at e
          cases e
        · rw [e', e]
      | large hl =>
        rw [Ledger.refillDone_large] at hl
        exact .large hl
    · have := (P.sound.carving.slotPos hi).chunk_pos
      have := (P.sound.carving.slotPos hi).lo
      omega
    · obtain ⟨q', x, j, hj⟩ := S.slots.slot (s := p) (by simp [ho])
      have h2 := ((P.grown.moved (X := fun _ => False) (Y := fun _ _ => False)).stay ho id hj).1
      rw [(K.free P.sound (List.mem_cons_self ..)).1] at h2
      cases h2
    · rw [← P.grown.large]
      exact P.rep.space.large_none P.sound hi

/-- `btm_pool_refill` as a whole. -/
theorem btmPoolRefill_spec (H : HeapRep cfg h bins L) (S : L.Sound cfg) (T : L.Settled)
    (hq : q.Valid cfg) {want : ℕ} (hw : 0 < want) (hb : b = binIdx q) :
    ∃ p bin h2 L2, btmPoolRefill cfg k h q { bins t b with pool := some q } want = (p, bin, h2) ∧
      Outcome cfg k (fun x => x = p) (fun t' i => t' = t ∧ i = b)
        (fun c q' => q' = q ∧ ChunkTaken k h q c) h L h2 (setBins bins t b bin) L2 ∧
      Aside h L h2 L2 ∧ Served cfg k h L L2 q p := by
  rw [btmPoolRefill_eq]
  rcases refillSlab_spec (k := k) (X := fun _ => False) H S T hq with
    ⟨h1, e, hm, H1, E1, hc⟩ | ⟨r, h1, L1, e, P⟩
  · rw [e]
    exact ⟨0, _, h1, L, rfl, ⟨S, T, H1.setBin hb hq, (E1.weaken False.elim).mono fun hu => hu.unit,
      .refl, .refl⟩, ⟨rfl, rfl, fun _ _ => by rw [hc]⟩, Or.inl ⟨rfl, fun _ => hm⟩⟩
  · rw [e]
    exact refillFrom_spec P S hq hw hb

end BtMalloc
