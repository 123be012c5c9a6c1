import BtMalloc.SizeClass

/-!
# Proofs: size classes

What the rest of the development needs from the class tables. The per-class facts are checked on the
36 rows; the lookup table is checked on its 1024 entries.
-/

namespace BtMalloc

@[simp] theorem pageSize_eq : pageSize = 4096 := rfl

@[simp] theorem chunkSize_eq : chunkSize = 2097152 := rfl

@[simp] theorem pagesPerChunk_eq : pagesPerChunk = 512 := rfl

@[simp] theorem smallMaxSize_eq : smallMaxSize = 16384 := rfl

@[simp] theorem numSizeClasses_eq : numSizeClasses = 36 := rfl

@[simp] theorem slabDescSize_eq : slabDescSize = 48 := rfl

@[simp] theorem dataStartPage_eq : dataStartPage = 7 := rfl

/-- A row of the class tables. -/
structure ClassRow (sc : ℕ) : Prop where
  size_ge : 16 ≤ btmScToSize sc
  size_le : btmScToSize sc ≤ 16384
  size_mod : btmScToSize sc % 16 = 0
  pages_pos : 1 ≤ btmScRunPages sc
  pages_le : btmScRunPages sc ≤ 32
  slots_ge : 8 ≤ slabSlots sc
  slots_le : slabSlots sc ≤ 256
  /-- The slots fit in the pages of the slab. -/
  fit : slabSlots sc * btmScToSize sc ≤ btmScRunPages sc * 4096
  cap_ge : 8 ≤ btmCacheMax sc
  cap_le : btmCacheMax sc ≤ 256

theorem classRow {sc : ℕ} (h : sc < 36) : ClassRow sc := by
  have key : ∀ sc < 36, (16 ≤ btmScToSize sc ∧ btmScToSize sc ≤ 16384 ∧ btmScToSize sc % 16 = 0 ∧
      1 ≤ btmScRunPages sc ∧ btmScRunPages sc ≤ 32) ∧
      (8 ≤ slabSlots sc ∧ slabSlots sc ≤ 256 ∧
      slabSlots sc * btmScToSize sc ≤ btmScRunPages sc * 4096 ∧
      8 ≤ btmCacheMax sc ∧ btmCacheMax sc ≤ 256) := by decide +kernel
  obtain ⟨⟨h1, h2, h3, h4, h5⟩, h6, h7, h8, h9, h10⟩ := key sc h
  exact ⟨h1, h2, h3, h4, h5, h6, h7, h8, h9, h10⟩

/-- Every entry of the lookup table is a class that fits the sizes it is looked up for. -/
theorem scLut_fits {j : ℕ} (hj : j < 1024) : btmScLut.getD j 0 < 36 ∧
    16 * (j + 1) ≤ btmScToSize (btmScLut.getD j 0) := by
  have hlen : btmScLut.length = 1024 := by decide +kernel
  have hall : (btmScLut.zipIdx.all fun x =>
      x.1.blt 36 && (16 * (x.2 + 1)).ble (btmScToSize x.1)) = true := by decide +kernel
  have hj' : j < btmScLut.length := by omega
  have hmem : (btmScLut.get ⟨j, hj'⟩, j) ∈ btmScLut.zipIdx := by
    rw [List.mem_zipIdx_iff_getElem?]
    simp
  have := List.all_eq_true.mp hall _ hmem
  simp only [Bool.and_eq_true, Nat.blt_eq, Nat.ble_eq] at this
  have hget : btmScLut.getD j 0 = btmScLut.get ⟨j, hj'⟩ := by
    rw [List.getD_eq_getElem?_getD, List.getElem?_eq_getElem hj']
    rfl
  rw [hget]
  exact this

/-- The lookup gives a class exactly for the sizes 1 to `BTM_SMALL_MAX_SIZE`, and one that fits. -/
theorem btmSizeToSc_some {size sc : ℕ} (hs : size < 2 ^ 64) (h : btmSizeToSc size = some sc) :
    0 < size ∧ size ≤ 16384 ∧ sc < 36 ∧ size ≤ btmScToSize sc := by
  unfold btmSizeToSc at h
  by_cases hc : (size + 2 ^ 64 - 1) % 2 ^ 64 ≥ smallMaxSize
  · rw [if_pos hc] at h
    cases h
  · rw [if_neg hc, Option.some.injEq] at h
    simp only [smallMaxSize_eq, ge_iff_le, not_le] at hc
    have hpos : 0 < size ∧ size ≤ 16384 := by omega
    have hj : (size - 1) >>> 4 < 1024 := by
      rw [Nat.shiftRight_eq_div_pow]
      omega
    obtain ⟨h1, h2⟩ := scLut_fits hj
    rw [h] at h1 h2
    rw [Nat.shiftRight_eq_div_pow] at h2
    exact ⟨hpos.1, hpos.2, h1, by omega⟩

end BtMalloc
