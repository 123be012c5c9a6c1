import BtMalloc.Ledger

/-!
# Proofs: geometry of the ledger

Slots lie inside the pages of their slab, slabs inside their chunk, and an address is a slot of at
most one slab. The rest of the development works with these facts and not with the class tables.
-/

namespace BtMalloc

/-- An index and an offset below the step are determined by the position. -/
theorem mul_add_inj {z i i' b b' : ℕ} (hb : b < z) (hb' : b' < z) (e : i * z + b = i' * z + b') :
    i = i' ∧ b = b' := by
  have hi : i = i' := by
    rcases lt_trichotomy i i' with hlt | heq | hgt
    · have := Nat.mul_le_mul_right z (show i + 1 ≤ i' from hlt)
      rw [Nat.add_mul, Nat.one_mul] at this
      omega
    · exact heq
    · have := Nat.mul_le_mul_right z (show i' + 1 ≤ i from hgt)
      rw [Nat.add_mul, Nat.one_mul] at this
      omega
  subst hi
  exact ⟨rfl, by omega⟩

namespace Ledger

variable {cfg : Config} {L : Ledger} {q q' : PoolId} {r r' : SlabRef} {i i' : ℕ} {s s' : ℕ}

/-- The class of a pool that holds a chunk is a row of the tables. -/
theorem Carving.row (h : L.Carving cfg) {c : ℕ} (hc : L.holder c = .pool q) : ClassRow q.sc :=
  classRow (h.valid hc).2

theorem SlabIn.holder_ne (h : L.SlabIn q r) : L.holder r.chunk ≠ .none := by
  rw [h.1]
  exact fun e => by cases e

/-- A carved slab lies between the metadata pages and `top`. -/
theorem Carving.slab_page (h : L.Carving cfg) (hr : L.SlabIn q r) :
    (∃ n, r.page = 7 + n * btmScRunPages q.sc) ∧ r.page + btmScRunPages q.sc ≤ L.top r.chunk ∧
      L.top r.chunk ≤ 512 := by
  obtain ⟨q', n, hq, hp, ht⟩ := (h.carved r).mp hr.2
  have e : q' = q := by
    have := hq.symm.trans hr.1
    exact Holder.pool.inj this
  subst e
  exact ⟨⟨n, hp⟩, ht, (h.top_eq hq).2⟩

/-- The place of a slot: page-aligned chunk, page range of the slab, class size. -/
structure SlotPos (q : PoolId) (r : SlabRef) (s : ℕ) : Prop where
  row : ClassRow q.sc
  chunk_mod : r.chunk % 2097152 = 0
  chunk_pos : 0 < r.chunk
  chunk_le : r.chunk + 2097152 ≤ 2 ^ 47
  page_ge : 7 ≤ r.page
  page_le : r.page + btmScRunPages q.sc ≤ 512
  lo : r.chunk + r.page * 4096 ≤ s
  hi : s + btmScToSize q.sc ≤ r.chunk + (r.page + btmScRunPages q.sc) * 4096
  mod : s % 16 = 0

theorem Carving.slotPos (h : L.Carving cfg) (hs : L.SlotIn q r i s) : SlotPos q r s := by
  obtain ⟨hr, hi, rfl⟩ := hs
  have hrow := h.row hr.1
  obtain ⟨⟨n, hp⟩, ht, h512⟩ := h.slab_page hr
  obtain ⟨ha, hpos, hle⟩ := h.aligned hr.holder_ne
  simp only [chunkSize_eq] at ha hle
  have hfit := hrow.fit
  have hmul : (i + 1) * btmScToSize q.sc ≤ slabSlots q.sc * btmScToSize q.sc :=
    Nat.mul_le_mul_right _ hi
  have hmod : (i * btmScToSize q.sc) % 16 = 0 := by
    rw [Nat.mul_mod, hrow.size_mod, Nat.mul_zero, Nat.zero_mod]
  have he : (i + 1) * btmScToSize q.sc = i * btmScToSize q.sc + btmScToSize q.sc := by ring
  refine ⟨hrow, ha, hpos, hle, by omega, by omega, ?_, ?_, ?_⟩
  all_goals simp only [slotAddr, pageSize_eq]
  · omega
  · rw [Nat.add_mul]
    omega
  · omega

/-- The chunk of a slot is the start of its 2 MiB region. -/
theorem SlotPos.region (h : SlotPos q r s) {b : ℕ} (hb : b < btmScToSize q.sc) :
    (s + b) / 2097152 * 2097152 = r.chunk := by
  have h1 := h.chunk_mod
  have h2 := h.lo
  have h3 := h.hi
  have h4 := h.page_le
  omega

theorem SlotPos.size_pos (h : SlotPos q r s) : 0 < btmScToSize q.sc := by
  have := h.row.size_ge
  omega

/-- The page of a byte of a slot is a page of the slab. -/
theorem SlotPos.page (h : SlotPos q r s) {b : ℕ} (hb : b < btmScToSize q.sc) :
    r.chunk / 4096 + r.page ≤ (s + b) / 4096 ∧
      (s + b) / 4096 < r.chunk / 4096 + r.page + btmScRunPages q.sc := by
  have h1 := h.chunk_mod
  have h2 := h.lo
  have h3 := h.hi
  have hc : r.chunk % 4096 = 0 := by omega
  constructor
  · omega
  · rw [Nat.add_mul] at h3
    omega

/-- Slabs of one pool whose page ranges meet start at the same page. -/
theorem Carving.page_inj (h : L.Carving cfg) (hr : L.SlabIn q r) (hr' : L.SlabIn q r') {j j' : ℕ}
    (hj : j < btmScRunPages q.sc) (hj' : j' < btmScRunPages q.sc) (e : r.page + j = r'.page + j') :
    r.page = r'.page ∧ j = j' := by
  obtain ⟨⟨n, hp⟩, -⟩ := h.slab_page hr
  obtain ⟨⟨n', hp'⟩, -⟩ := h.slab_page hr'
  obtain ⟨hn, hjj⟩ := mul_add_inj hj hj' (show n * _ + j = n' * _ + j' by omega)
  exact ⟨by rw [hp, hp', hn], hjj⟩

/-- Distinct slots do not overlap. -/
theorem Carving.slot_disjoint (h : L.Carving cfg) (hs : L.SlotIn q r i s)
    (hs' : L.SlotIn q' r' i' s') {b b' : ℕ} (hb : b < btmScToSize q.sc)
    (hb' : b' < btmScToSize q'.sc) (e : s + b = s' + b') :
    q = q' ∧ r = r' ∧ i = i' ∧ b = b' := by
  have p := h.slotPos hs
  have p' := h.slotPos hs'
  have hc : r.chunk = r'.chunk := by
    rw [← p.region hb, ← p'.region hb', e]
  have hq : q = q' := by
    have := hs.1.1
    rw [hc, hs'.1.1] at this
    exact (Holder.pool.inj this).symm
  subst hq
  have a1 := p.page hb
  have a2 := p'.page hb'
  rw [hc, e] at a1
  obtain ⟨hpage, -⟩ := @Carving.page_inj _ _ _ _ _ h hs.1 hs'.1
    ((s' + b') / 4096 - (r'.chunk / 4096 + r.page))
    ((s' + b') / 4096 - (r'.chunk / 4096 + r'.page)) (by omega) (by omega) (by omega)
  have e1 := hs.2.2
  have e2 := hs'.2.2
  simp only [slotAddr] at e1 e2
  rw [hc, hpage] at e1
  obtain ⟨hi, hbb⟩ := mul_add_inj hb hb' (show i * _ + b = i' * _ + b' by omega)
  exact ⟨rfl, SlabRef.ext hc hpage, hi, hbb⟩

/-- An address is a slot of at most one slab. -/
theorem Carving.slotIn_inj (h : L.Carving cfg) (hs : L.SlotIn q r i s) (hs' : L.SlotIn q' r' i' s) :
    q = q' ∧ r = r' ∧ i = i' := by
  have p := h.slotPos hs
  have p' := h.slotPos hs'
  obtain ⟨hq, hr, hi, -⟩ := h.slot_disjoint hs hs' p.size_pos p'.size_pos rfl
  exact ⟨hq, hr, hi⟩

end Ledger

end BtMalloc
