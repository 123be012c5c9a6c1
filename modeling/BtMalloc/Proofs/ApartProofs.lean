import BtMalloc.Rep
import BtMalloc.Lib.Units
import BtMalloc.Proofs.LedgerProofs

/-!
# Proofs: units are apart

From the ledger's rules and the page table: no two bytes of slots in use or of large objects have one
physical place. This is the one fact about aliasing that the rest of the development uses.
-/

namespace BtMalloc

open PagedMemory

variable {cfg : Config} {L : Ledger} {q q' : PoolId} {r r' : SlabRef} {i i' s s' : ℕ}

/-- The base of a large object is even, so the tag bit of its owner word is free. -/
theorem LargeOk.even {pt : ℕ → Frame} {mapped : ℕ → Bool} {b : ℕ} {hd : LargeHdr}
    (h : LargeOk pt mapped b hd) : b % 2 = 0 := by
  have := h.base_mod
  simp only [pageSize_eq] at this
  omega

theorem or_one_of_even {b : ℕ} (h : b % 2 = 0) : b ||| 1 = b + 1 := by
  have h1 : b = 2 ^ 1 * (b / 2) := by omega
  rw [h1]
  exact (Nat.two_pow_add_eq_or_of_lt (by decide) _).symm

/-- Two addresses on one page at one offset are equal. -/
theorem eq_of_page_eq {a b : ℕ} (h1 : a / 4096 = b / 4096) (h2 : a % 4096 = b % 4096) : a = b := by
  omega

/-- Where a byte of a slot is inside its slab. -/
theorem Ledger.SlotPos.offset (p : Ledger.SlotPos q r s) {b : ℕ} (hb : b < btmScToSize q.sc) :
    ∃ j, j < btmScRunPages q.sc ∧ (s + b) / 4096 = r.chunk / 4096 + r.page + j ∧
      s + b = r.chunk + r.page * 4096 + (j * 4096 + (s + b) % 4096) := by
  have hp := p.page hb
  have hm := p.chunk_mod
  refine ⟨(s + b) / 4096 - (r.chunk / 4096 + r.page), by omega, by omega, ?_⟩
  omega

/-- A page of a slab belongs to no other slab. -/
theorem Ledger.Carving.slab_page_inj (hC : L.Carving cfg) {x y : SlabRef} (hx : L.SlabIn q x)
    (hy : L.SlabIn q' y) {j j' : ℕ} (hj : j < btmScRunPages q.sc) (hj' : j' < btmScRunPages q'.sc)
    (hc : x.chunk = y.chunk) (e : x.page + j = y.page + j') : q = q' ∧ x = y ∧ j = j' := by
  have hq : q = q' := by
    have := hx.1
    rw [hc, hy.1] at this
    exact (Holder.pool.inj this).symm
  subst hq
  obtain ⟨hpg, hjj⟩ := hC.page_inj hx hy hj hj' e
  exact ⟨rfl, SlabRef.ext hc hpg, hjj⟩

/-- The file pages of two slabs differ: file offsets of chunks are 2 MiB apart. -/
theorem FrameRep.file_page_inj {pt : ℕ → Frame} {chunks : ℕ → Chunk} {bump : ℕ} {freed : List ℕ}
    (hF : FrameRep cfg pt chunks bump freed L) (hC : L.Carving cfg) (hm : cfg.meshMode = true)
    {x y : SlabRef} (hx : L.SlabIn q x) (hy : L.SlabIn q' y) {j j' : ℕ}
    (hj : j < btmScRunPages q.sc) (hj' : j' < btmScRunPages q'.sc)
    (e : (chunks x.chunk).memfdOff / 4096 + x.page + j = (chunks y.chunk).memfdOff / 4096 + y.page + j') :
    q = q' ∧ x = y ∧ j = j' := by
  have o1 := hF.off_mod hm hx.holder_ne
  have o2 := hF.off_mod hm hy.holder_ne
  simp only [chunkSize_eq] at o1 o2
  have g1 := hC.slab_page hx
  have g2 := hC.slab_page hy
  have hoff : (chunks x.chunk).memfdOff = (chunks y.chunk).memfdOff := by omega
  exact hC.slab_page_inj hx hy hj hj' (hF.off_inj hm hx.holder_ne hy.holder_ne hoff) (by omega)

/-- Two slots in use with bytes at one physical place, in mesh mode. -/
theorem slot_apart_mesh {pt : ℕ → Frame} {chunks : ℕ → Chunk} {bump : ℕ} {freed : List ℕ}
    (S : L.Sound cfg) (hF : FrameRep cfg pt chunks bump freed L) (hm : cfg.meshMode = true)
    (hs : L.SlotIn q r i s) (hs' : L.SlotIn q' r' i' s') (hv : L.place s ≠ .void)
    (hv' : L.place s' ≠ .void) {b b' : ℕ} (hb : b < btmScToSize q.sc) (hb' : b' < btmScToSize q'.sc)
    (hpt : pt ((s + b) / 4096) = pt ((s' + b') / 4096)) (hoff : (s + b) % 4096 = (s' + b') % 4096) :
    s = s' ∧ b = b' := by
  have p := S.carving.slotPos hs
  have p' := S.carving.slotPos hs'
  obtain ⟨j, hj, hpage, hpos⟩ := p.offset hb
  obtain ⟨j', hj', hpage', hpos'⟩ := p'.offset hb'
  have ht := S.meshed.pool hs.1
  have ht' := S.meshed.pool hs'.1
  rw [hpage, hpage'] at hpt
  have f1 := hF.slab hm hs.1 hj
  have f2 := hF.slab hm hs'.1 hj'
  simp only [pageSize_eq] at f1 f2
  rw [f1, f2] at hpt
  obtain ⟨rfl, htr, hjj⟩ := hF.file_page_inj S.carving hm ht ht' hj hj' (Frame.memfd.inj hpt)
  -- one offset in the slab: one index and one byte
  have e1 := hs.2.2
  have e2 := hs'.2.2
  simp only [slotAddr, pageSize_eq] at e1 e2
  obtain ⟨hi, hbb⟩ := mul_add_inj hb hb' (show i * _ + b = i' * _ + b' by omega)
  subst hi
  exact ⟨S.meshed.apart hv hv' hs hs' htr, hbb⟩

/-- A byte of a large object shows its own anonymous page. -/
theorem LargeOk.frame_byte {pt : ℕ → Frame} {mapped : ℕ → Bool} {b : ℕ} {hd : LargeHdr}
    (h : LargeOk pt mapped b hd) {i : ℕ} (hi : i < hd.mapLen) :
    pt ((b + i) / 4096) = .anon ((b + i) / 4096) := by
  have h1 := h.base_mod
  have h2 := h.len_mod
  simp only [pageSize_eq] at h1 h2
  have := h.frame (j := i / 4096) (by simp only [pageSize_eq]; omega)
  simp only [pageSize_eq] at this
  have e : b / 4096 + i / 4096 = (b + i) / 4096 := by omega
  rwa [e] at this

/-- A byte of a large object is in one of its regions. -/
theorem LargeOk.covers {pt : ℕ → Frame} {mapped : ℕ → Bool} {b : ℕ} {hd : LargeHdr}
    (_h : LargeOk pt mapped b hd) (hl : L.large b = some hd) {i : ℕ} (hi : i < hd.mapLen) :
    L.Covers ((b + i) / chunkSize) (b ||| 1) :=
  .large hl (Nat.div_le_div_right (by omega)) (Nat.div_le_div_right (by omega))

/-- The region of a byte of a slot belongs to the slot's chunk. -/
theorem Ledger.SlotPos.covers (p : Ledger.SlotPos q r s) (hr : L.SlabIn q r) {b : ℕ}
    (hb : b < btmScToSize q.sc) : L.Covers ((s + b) / chunkSize) r.chunk := by
  have h := p.region hb
  simp only [chunkSize_eq]
  have hc : L.Covers ((s + b) / 2097152) ((s + b) / 2097152 * 2097152) :=
    .chunk (by simp only [chunkSize_eq]; rw [h]; exact hr.holder_ne)
  rwa [h] at hc

/-- The bytes of units have distinct physical places. -/
theorem units_apart {m : Mem} {mapped : ℕ → Bool} {larges : ℕ → LargeHdr} {chunks : ℕ → Chunk}
    {bump : ℕ} {freed : List ℕ} (S : L.Sound cfg) (hF : FrameRep cfg m.pt chunks bump freed L)
    (hS : SpaceRep m.pt mapped larges L) : m.Apart L.Unit := by
  intro a n b k i j ha hb hi hj e
  simp only [loc, Prod.mk.injEq] at e
  obtain ⟨hpt, hoff⟩ := e
  cases ha with
  | slot hv hs =>
    have p := S.carving.slotPos hs
    cases hb with
    | slot hv' hs' =>
      cases hm : cfg.meshMode with
      | false =>
        rw [hF.anon hm, hF.anon hm] at hpt
        obtain ⟨hq, hr, hij, hbb⟩ :=
          S.carving.slot_disjoint hs hs' hi hj (eq_of_page_eq (Frame.anon.inj hpt) hoff)
        subst hq hr hij hbb
        exact ⟨hs.2.2.trans hs'.2.2.symm, rfl⟩
      | true => exact slot_apart_mesh S hF hm hs hs' hv hv' hi hj hpt hoff
    | large hl =>
      exfalso
      have hlo := hS.large hl
      rw [hlo.frame_byte hj] at hpt
      cases hm : cfg.meshMode with
      | false =>
        rw [hF.anon hm] at hpt
        have hab := eq_of_page_eq (Frame.anon.inj hpt) hoff
        have c1 := p.covers hs.1 hi
        rw [hab] at c1
        have hw := hS.unique c1 (hlo.covers hl hj)
        rw [or_one_of_even hlo.even] at hw
        have := p.chunk_mod
        have := hlo.even
        omega
      | true =>
        obtain ⟨jp, hjp, hpage, -⟩ := p.offset hi
        have f := hF.slab hm hs.1 hjp
        simp only [pageSize_eq] at f
        rw [hpage, f] at hpt
        cases hpt
  | large hl =>
    have hlo := hS.large hl
    rw [hlo.frame_byte hi] at hpt
    cases hb with
    | slot hv' hs' =>
      exfalso
      have p := S.carving.slotPos hs'
      cases hm : cfg.meshMode with
      | false =>
        rw [hF.anon hm] at hpt
        have hab := eq_of_page_eq (Frame.anon.inj hpt) hoff
        have c1 := p.covers hs'.1 hj
        rw [← hab] at c1
        have hw := hS.unique c1 (hlo.covers hl hi)
        rw [or_one_of_even hlo.even] at hw
        have := p.chunk_mod
        have := hlo.even
        omega
      | true =>
        obtain ⟨jp, hjp, hpage, -⟩ := p.offset hj
        have f := hF.slab hm hs'.1 hjp
        simp only [pageSize_eq] at f
        rw [hpage, f] at hpt
        cases hpt
    | large hl' =>
      have hlo' := hS.large hl'
      rw [hlo'.frame_byte hj] at hpt
      have hab := eq_of_page_eq (Frame.anon.inj hpt) hoff
      have c1 := hlo.covers hl hi
      rw [hab] at c1
      have hw := hS.unique c1 (hlo'.covers hl' hj)
      rw [or_one_of_even hlo.even, or_one_of_even hlo'.even] at hw
      omega

end BtMalloc
