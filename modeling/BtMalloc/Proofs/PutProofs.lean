import BtMalloc.Proofs.ApartProofs
import BtMalloc.Proofs.LinkProofs
import BtMalloc.Proofs.PartialListProofs
import BtMalloc.Proofs.SlotProofs

/-!
# Proofs: putting a slot back

Pushing a slot on its slab's freelist, as `btm_pool_flush` and `btm_pool_free_one` do before they
decide what becomes of the slab.
-/

namespace BtMalloc

open LinkedList PagedMemory

variable {cfg : Config} {h : Heap} {bins : ℕ → ℕ → Bin} {L : Ledger} {q : PoolId} {r : SlabRef}
  {j s : ℕ}

/-- A slot in use can hold a link. -/
theorem Ledger.Sound.cell (S : L.Sound cfg) (hs : L.place s ≠ .void) : Cell L.Unit s := by
  obtain ⟨q, r, i, h⟩ := S.slots.slot hs
  have p := S.carving.slotPos h
  have h1 := p.lo
  have h2 := p.hi
  have h3 := p.chunk_pos
  have h4 := p.chunk_le
  have h5 := p.page_le
  refine ⟨_, .slot hs h, p.row.size_ge, by omega, ?_⟩
  have : (r.page + btmScRunPages q.sc) * 4096 ≤ 512 * 4096 := Nat.mul_le_mul_right _ h5
  omega

theorem HeapRep.apart (H : HeapRep cfg h bins L) (S : L.Sound cfg) : h.mem.Apart L.Unit :=
  units_apart S H.frame H.space

/-- The slots on a freelist are free slots. -/
theorem Ledger.Sound.freeList_place (S : L.Sound cfg) (hr : L.SlabIn q r)
    (hi : L.stage r ≠ .retired) {x : ℕ} (hx : x ∈ L.freeList r) : L.place x = .free :=
  (S.free_of_mem hr hi hx).1

theorem Ledger.Sound.bin_place (S : L.Sound cfg) {t i x : ℕ} (hx : x ∈ L.bin t i) :
    L.place x = .cached t i := (S.slots.bin t i).mem_iff.mp hx

theorem Stage.intact_ne_retired {st : Stage} (h : st.intact = true) : st ≠ .retired := by
  rintro rfl
  cases h

theorem slabPush_eq : slabPush cfg h r s =
    { h with
      mem := h.mem.writeLE 8 s (flEncode cfg s (h.slabs r).freeHead)
      log := .set s :: h.log
      slabs := Function.update h.slabs r
        { h.slabs r with
          freeHead := s, freeCount := (h.slabs r).freeCount + 1, epoch := h.tierEpoch,
          pagedOut := false } } := by
  simp [slabPush, slabTouch, btmFlSet_eq, Heap.modSlab]

/-- The place a slot goes to when it is put back. -/
def Ledger.rest (L : Ledger) (r : SlabRef) : Place :=
  if L.stage r = .retired then .void else .free

theorem Ledger.rest_ne_cached {t i : ℕ} : L.rest r ≠ .cached t i := by
  unfold Ledger.rest
  split <;> simp

theorem Ledger.rest_of_ne (h : L.stage r ≠ .retired) : L.rest r = .free := if_neg h

theorem Ledger.rest_busy : (L.rest r).busy = false := by
  unfold Ledger.rest
  split <;> rfl

/-- The ledger with a slot put back, field by field. -/
theorem Ledger.move_rest : L.move q r s (L.rest r) =
    { L with
      place := Function.update L.place s (L.rest r)
      freeList := Function.update L.freeList r
        (if L.rest r = .free then s :: (L.freeList r).erase s else (L.freeList r).erase s)
      bin := fun t i => (L.bin t i).erase s
      held := Function.update L.held q ((L.held q).erase s) } := by
  simp [Ledger.move, Ledger.rest_ne_cached, Ledger.rest_busy]

/-- Lists of slabs do not depend on the freelists. -/
theorem ListRep.update_slab (hl : ListRep h.slabs h.pools L) {x : Slab}
    (hn : x.next = (h.slabs r).next) (hp : x.prev = (h.slabs r).prev) :
    ListRep (Function.update h.slabs r x) h.pools L :=
  fun q => (hl q).congr rfl rfl rfl rfl
    (fun y _ => ⟨update_proj Slab.next hn y, update_proj Slab.prev hp y⟩)
    (fun y _ => update_proj Slab.next hn y) (fun y _ => update_proj Slab.next hn y)

theorem ListRep.update_pool {slabs : SlabRef → Slab} {pools : PoolId → Pool}
    (hl : ListRep slabs pools L) {P : Pool} (h1 : P.partialHead = (pools q).partialHead)
    (h2 : P.emptyWarm = (pools q).emptyWarm) (h3 : P.emptyCold = (pools q).emptyCold)
    (h4 : P.warmCount = (pools q).warmCount) : ListRep slabs (Function.update pools q P) L :=
  fun q' => (hl q').congr (update_proj Pool.partialHead h1 q') (update_proj Pool.emptyWarm h2 q')
    (update_proj Pool.emptyCold h3 q') (update_proj Pool.warmCount h4 q')
    (fun _ _ => ⟨rfl, rfl⟩) (fun _ _ => rfl) (fun _ _ => rfl)

/-- Pushing a busy slot of `r` on its freelist, after it left the bin it was in and the count of
    busy slots. -/
theorem slabPush_rep (H : HeapRep cfg h bins L) (S : L.Sound cfg) (hs : L.SlotIn q r j s)
    (hbusy : (L.place s).busy = true) (hst : (L.stage r).counts = true) {log1 : List Event}
    (hgood : Good log1) (hfr : ∀ x, Fresh h.log x → Fresh log1 x) {bins' : ℕ → ℕ → Bin}
    (hbins : ∀ t i, BinOk cfg h.mem i (bins' t i) ((L.bin t i).erase s)) :
    HeapRep cfg (slabPush cfg { h with
        log := log1
        pools := Function.update h.pools q
          { h.pools q with outstanding := (h.pools q).outstanding - 1 } } r s) bins'
      (L.move q r s (L.rest r)) := by
  have hvoid : L.place s ≠ .void := fun e => by rw [e] at hbusy; cases hbusy
  have hnf : L.place s ≠ .free := fun e => by rw [e] at hbusy; cases hbusy
  have hcell := S.cell hvoid
  have hA := H.apart S
  have hkeep : Keeps L.Unit (fun x => x = s) h.mem
      (h.mem.writeLE 8 s (flEncode cfg s (h.slabs r).freeHead)) := by
    obtain ⟨n, hu, hn, -⟩ := hcell
    have := hA.write_keeps (f := leByte (flEncode cfg s (h.slabs r).freeHead)) (o := 0) (k := 8)
      hu (by omega)
    rwa [Nat.add_zero] at this
  have hD := H.desc q r hs.1
  have hsl : ∀ x, L.SlabIn q x → L.stage x ≠ .retired → s ∉ L.freeList x :=
    fun x hx hx' hm => hnf (S.freeList_place hx hx' hm)
  rw [slabPush_eq, Ledger.move_rest]
  refine H.replace rfl (fun q' x hx => ?_) ?_ (fun q' => ?_) ?_ ?_ (fun q' x hx hi => ?_)
    (fun t i => ?_) hgood
  · by_cases e : x = r
    · subst e
      have e' := hs.1.pool_unique hx
      subst e'
      simp only [Function.update_self]
      refine ⟨hD.firstPage, hD.npages, hD.nslots, hD.sc, hD.partIdx, hD.inPartial, hD.decommitted,
        hD.retired, fun hne => ?_⟩
      rw [if_pos (Ledger.rest_of_ne hne), List.erase_of_not_mem (hsl x hx hne), List.length_cons,
        ← hD.freeCount hne]
    · simp only [Function.update_of_ne e]
      exact H.desc q' x hx
  · exact (H.lists.update_slab (by rfl) (by rfl)).update_pool (by rfl) (by rfl) (by rfl) (by rfl)
  · by_cases e : q' = q
    · subst e
      simp only [Function.update_self]
      rw [H.tally q', ← (S.slots.held q').length_erase (a := s) ⟨hbusy, r, j, hs⟩]
      rfl
    · simp only [Function.update_of_ne e]
      exact H.tally q'
  · exact update_proj Pool.chunks (by rfl)
  · exact update_proj Pool.active (by rfl)
  · have hret := Stage.intact_ne_retired hi
    by_cases e : x = r
    · subst e
      have hch := H.free q' x hx hi
      have e' := hs.1.pool_unique hx
      subst e'
      simp only [Function.update_self, if_pos (Ledger.rest_of_ne hret)]
      rw [List.erase_of_not_mem (hsl x hx hret)]
      have hv : (h.slabs x).freeHead < 2 ^ 64 := by
        rw [chain_ptr_head hch]
        cases hl : L.freeList x with
        | nil => simp
        | cons y l =>
          have hy := S.freeList_place hx hret (x := y) (by rw [hl]; simp)
          exact (S.cell (s := y) (by simp [hy])).choose_spec.2.2.2
      refine ⟨flSet_push hA hcell hv hch (fun y hy => ?_) (hsl x hx hret), fun y hy => ?_⟩
      · exact S.cell (by simp [S.freeList_place hx hret hy])
      · rcases List.mem_cons.mp hy with rfl | hy
        · exact LinkLog.fresh_set
        · exact Or.inr (hfr y (H.log.free hx hi hy))
    · simp only [Function.update_of_ne e]
      refine ⟨keeps_chain hkeep (H.free q' x hx hi) (fun y hy => ?_), fun y hy => ?_⟩
      · have hy' := S.freeList_place hx hret hy
        exact ⟨S.cell (by simp [hy']), fun e => hnf (by rwa [← e])⟩
      · exact Or.inr (hfr y (H.log.free hx hi hy))
  · have hb := hbins t i
    have hnd := (S.slots.bin t i).nodup
    refine ⟨⟨keeps_chain hkeep hb.chain (fun y hy => ?_), hb.count, hb.pool⟩, fun y hy => ?_⟩
    · obtain ⟨hne, hy⟩ := hnd.mem_erase_iff.mp hy
      exact ⟨S.cell (by simp [S.bin_place hy]), hne⟩
    · exact Or.inr (hfr y (H.log.bin (List.mem_of_mem_erase hy)))

end BtMalloc
