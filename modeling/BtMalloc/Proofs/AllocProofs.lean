import BtMalloc.Api
import BtMalloc.Proofs.SizeClassProofs

/-!
# Proofs: which path a call for new storage takes

A call returns `NULL` at once, gets to `btm_large_alloc`, or is served from the pools.
-/

namespace BtMalloc

open Word

variable {cfg : Config} {k : Kernel} {t ra size alignment : ℕ} {s : Sys} {c : Alloc}

theorem btmSizeToSc_zero : btmSizeToSc 0 = none := by decide +kernel

theorem btmSizeToSc_large (hsize : size < 2 ^ 64) (h : smallMaxSize < size) : btmSizeToSc size = none := by
  cases hc : btmSizeToSc size with
  | none => rfl
  | some sc =>
    have := (btmSizeToSc_some hsize hc).2.1
    rw [smallMaxSize_eq] at h
    omega

theorem btmSizeToSc_small (hpos : 0 < size) (h : size ≤ 16384) : btmSizeToSc size ≠ none := by
  unfold btmSizeToSc
  rw [if_neg (by rw [smallMaxSize_eq]; omega)]
  simp

/-- `btm_realloc(NULL, size)` is `btm_malloc(size)`. -/
theorem btmReallocAt_null : btmReallocAt cfg k t 0 size ra s = btmMallocAt cfg k t size ra s := by
  have hhead : btmReallocHead cfg k t 0 size ra s =
      (btmMallocAt cfg k t size ra s).map fun x => (x.1, none, x.2) := by
    refine (if_pos rfl).trans ?_
    cases btmMallocAt cfg k t size ra s <;> rfl
  rw [btmReallocAt, hhead]
  cases btmMallocAt cfg k t size ra s <;> rfl

/-- `btm_realloc(p, 0)` is `btm_free(p)`. -/
theorem btmReallocHead_free {p : ℕ} (hp : p ≠ 0) : btmReallocHead cfg k t p 0 ra s =
    (btmFreeHead cfg k t p s).map fun x => (0, x.1, x.2) := by
  refine (if_neg hp).trans ((if_pos rfl).trans ?_)
  cases btmFreeHead cfg k t p s <;> rfl

/-- Alignments up to `BTM_ALIGNMENT` are all the same to `btm_large_alloc`. -/
theorem btmLargeAlloc_of_le {h : Heap} (hal : alignment ≤ btmAlignment) :
    btmLargeAlloc k h size alignment = btmLargeAlloc k h size btmAlignment := by
  have e : max alignment btmAlignment = max btmAlignment btmAlignment := by
    rw [max_eq_right hal, max_self]
  have h1 : largeHdr alignment = largeHdr btmAlignment := by rw [largeHdr, e, largeHdr]
  have h2 : largeBalign alignment = largeBalign btmAlignment := by rw [largeBalign, e, largeBalign]
  have h3 : largeTotal size alignment = largeTotal size btmAlignment := by rw [largeTotal, h1, largeTotal]
  unfold btmLargeAlloc
  rw [largeWant, h1, h2, h3, largeWant]

/-- `btm_malloc` of a size that no class takes. -/
theorem btmMallocAt_large (hc : btmSizeToSc size = none) (h0 : size ≠ 0) :
    btmMallocAt cfg k t size ra s = largeAt k size btmAlignment s := by
  rw [btmMallocAt, hc]
  exact if_neg h0

/-- `btm_malloc` of a size that a class takes. -/
theorem btmMallocAt_class {sc : ℕ} (hc : btmSizeToSc size = some sc) : btmMallocAt cfg k t size ra s =
    .ok (((btmTlsGet k t s).map (mallocSmall cfg k t sc ra)).getD (0, s)) := by
  rw [btmMallocAt, hc, mallocClass]
  cases btmTlsGet k t s <;> rfl

theorem btmMallocAt_zero : btmMallocAt cfg k t 0 ra s = .ok (0, s) := by
  rw [btmMallocAt, btmSizeToSc_zero]
  rfl

theorem isPow2_iff {x : ℕ} (h : isPow2 x = true) : ∃ e, x = 2 ^ e := by
  simp only [isPow2, Bool.and_eq_true, bne_iff_ne, beq_iff_eq] at h
  exact (Nat.and_sub_one_eq_zero_iff_isPowerOfTwo h.1).mp h.2

namespace Alloc

/-- What is left to do when `btm_malloc` has returned: `btm_calloc` clears the object. -/
def finish (c : Alloc) (x : ℕ × Sys) : ℕ × Sys :=
  match c with
  | .calloc n size =>
    if x.1 = 0 then (0, x.2)
    else (x.1, x.2.setHeap { x.2.heap with mem := x.2.heap.mem.write x.1 (n * size) fun _ => 0 })
  | _ => x

/-- A request is for some bytes, at an alignment that is a power of two. -/
theorem request_some (hw : c.Words) (h : c.request = some (size, alignment)) :
    c.bytes = size ∧ 0 < size ∧ size < 2 ^ 64 ∧ ∃ e, alignment = 2 ^ e := by
  cases c with
  | malloc n | realloc n =>
    simp only [request, Option.ite_none_left_eq_some, Option.some.injEq, Prod.mk.injEq] at h
    obtain ⟨h0, rfl, rfl⟩ := h
    exact ⟨rfl, by omega, hw, 4, rfl⟩
  | calloc n m =>
    simp only [request, Option.ite_none_left_eq_some, Option.some.injEq, Prod.mk.injEq] at h
    obtain ⟨h0, rfl, rfl⟩ := h
    exact ⟨rfl, by omega, by omega, 4, rfl⟩
  | alignedAlloc al n | posixMemalign al n =>
    simp only [request, Option.ite_none_left_eq_some, Option.some.injEq, Prod.mk.injEq, Bool.or_eq_true,
      Bool.not_eq_true', beq_iff_eq, not_or, Bool.not_eq_false] at h
    obtain ⟨h0, rfl, rfl⟩ := h
    exact ⟨rfl, by omega, hw.2, isPow2_iff (by simp [h0])⟩

theorem request_alignment (h : c.request = some (size, alignment)) : c.alignment = alignment := by
  cases c with
  | malloc n | realloc n | calloc n m | alignedAlloc al n | posixMemalign al n =>
    simp only [request, Option.ite_none_left_eq_some, Option.some.injEq, Prod.mk.injEq] at h
    exact h.2.2

theorem large_some (h : c.large = some (size, alignment)) : c.request = some (size, alignment) ∧
    (btmSizeToSc size = none ∨ btmAlignment < alignment) := by
  obtain ⟨h1, h2⟩ := Option.filter_eq_some_iff.mp h
  simp only [Bool.or_eq_true, Option.isNone_iff_eq_none, Nat.blt_eq] at h2
  exact ⟨h1, h2⟩

theorem large_none (h : c.request = some (size, alignment)) (hl : c.large = none) :
    btmSizeToSc size ≠ none ∧ alignment ≤ btmAlignment := by
  rw [large, h, Option.filter_some] at hl
  simp only [Bool.or_eq_true, Option.isNone_iff_eq_none, Nat.blt_eq,
    reduceCtorEq, imp_false, not_or, not_lt, ite_eq_right_iff] at hl
  exact hl

/-- A call that asks for nothing, or for something it does not serve. -/
theorem run_none (h : c.request = none) : c.run cfg k t ra s = .ok (0, s) := by
  cases c with
  | malloc n =>
    simp only [request, ite_eq_left_iff, reduceCtorEq, imp_false, not_not] at h
    rw [h]
    exact btmMallocAt_zero
  | realloc n =>
    simp only [request, ite_eq_left_iff, reduceCtorEq, imp_false, not_not] at h
    rw [h]
    exact btmReallocAt_null.trans btmMallocAt_zero
  | calloc n m =>
    simp only [request, ite_eq_left_iff, reduceCtorEq, imp_false, not_not] at h
    unfold run btmCallocAt
    rcases h with h | h
    · exact if_pos h
    · simp [h]
  | alignedAlloc al n =>
    simp only [request, ite_eq_left_iff, reduceCtorEq, imp_false, not_not, Bool.or_eq_true, Bool.not_eq_true',
      beq_iff_eq] at h
    unfold run btmAlignedAlloc
    rcases h with (h | h) | h
    · simp [h]
    · simp [h]
    · simp [h]
  | posixMemalign al n =>
    simp only [request, ite_eq_left_iff, reduceCtorEq, imp_false, not_not, Bool.or_eq_true, Bool.not_eq_true',
      beq_iff_eq] at h
    dsimp only [run]
    unfold btmPosixMemalign
    by_cases h2 : (!isPow2 al || al % 8 != 0) = true
    · rw [if_pos h2]
    · rw [if_neg h2, if_pos (h.resolve_left (by simpa using h2))]

/-- A call that asks for something. -/
theorem run_some (hw : c.Words) (h : c.request = some (size, alignment)) :
    c.run cfg k t ra s =
      if alignment ≤ btmAlignment then
        if btmSizeToSc size = none then largeAt k size btmAlignment s
        else (btmMallocAt cfg k t size ra s).map c.finish
      else largeAt k size alignment s := by
  have hpos := (request_some hw h).2.1
  -- `btm_malloc` by itself
  have plain : ∀ {c' : Alloc}, (∀ x, c'.finish x = x) → btmMallocAt cfg k t size ra s =
      if btmSizeToSc size = none then largeAt k size btmAlignment s
      else (btmMallocAt cfg k t size ra s).map c'.finish := by
    intro c' hid
    split
    next hc => exact btmMallocAt_large hc (by omega)
    next =>
      rw [show c'.finish = id from funext hid]
      cases btmMallocAt cfg k t size ra s <;> rfl
  cases c with
  | malloc n =>
    simp only [request, Option.ite_none_left_eq_some, Option.some.injEq, Prod.mk.injEq] at h
    obtain ⟨h0, rfl, rfl⟩ := h
    rw [if_pos (le_refl _)]
    exact plain fun _ => rfl
  | realloc n =>
    simp only [request, Option.ite_none_left_eq_some, Option.some.injEq, Prod.mk.injEq] at h
    obtain ⟨h0, rfl, rfl⟩ := h
    rw [if_pos (le_refl _)]
    exact btmReallocAt_null.trans (plain fun _ => rfl)
  | calloc n m =>
    simp only [request, Option.ite_none_left_eq_some, Option.some.injEq, Prod.mk.injEq, not_or, not_le] at h
    obtain ⟨⟨h1, h2⟩, rfl, rfl⟩ := h
    rw [if_pos (le_refl _)]
    dsimp only [run]
    unfold btmCallocAt
    rw [if_neg (by omega), if_neg h2]
    by_cases hc : smallMaxSize < n * m
    · rw [if_pos hc, if_pos (btmSizeToSc_large h1 hc)]
    · rw [if_neg hc, if_neg (btmSizeToSc_small hpos (by simpa using hc))]
      cases btmMallocAt cfg k t (n * m) ra s with
      | error e => rfl
      | ok x =>
        show _ = Except.ok (finish _ x)
        simp only [finish]
        split <;> rfl
  | alignedAlloc al n =>
    simp only [request, Option.ite_none_left_eq_some, Option.some.injEq, Prod.mk.injEq, Bool.or_eq_true,
      Bool.not_eq_true', beq_iff_eq, bne_iff_ne, not_or, Bool.not_eq_false, ne_eq, not_not] at h
    obtain ⟨⟨⟨h1, h2⟩, h3⟩, rfl, rfl⟩ := h
    dsimp only [run]
    unfold btmAlignedAlloc
    rw [h1, if_neg (by decide), if_neg h2, if_neg (by simp [h3]), ← plain fun _ => rfl]
  | posixMemalign al n =>
    simp only [request, Option.ite_none_left_eq_some, Option.some.injEq, Prod.mk.injEq, Bool.or_eq_true,
      Bool.not_eq_true', beq_iff_eq, bne_iff_ne, not_or, Bool.not_eq_false, ne_eq, not_not] at h
    obtain ⟨⟨⟨h1, h2⟩, h3⟩, rfl, rfl⟩ := h
    dsimp only [run]
    unfold btmPosixMemalign
    rw [if_neg (by simp [h1, h2]), if_neg h3]
    rw [← (@plain (.posixMemalign al n)) fun _ => rfl]
    -- an error number stands for `NULL`
    cases (if al ≤ btmAlignment then btmMallocAt cfg k t n ra s else largeAt k n al s) with
    | error e => rfl
    | ok x =>
      obtain ⟨p, s'⟩ := x
      dsimp only
      by_cases hp : p = 0
      · rw [if_pos hp, hp]
      · rw [if_neg hp]

/-- A call that gets to `btm_large_alloc`. -/
theorem run_large (hw : c.Words) (h : c.large = some (size, alignment)) :
    c.run cfg k t ra s = largeAt k size alignment s := by
  obtain ⟨h1, h2⟩ := large_some h
  rw [run_some hw h1]
  by_cases hal : alignment ≤ btmAlignment
  · rw [if_pos hal, if_pos (h2.resolve_right (by omega)), largeAt, largeAt, btmLargeAlloc_of_le hal]
  · rw [if_neg hal]

/-- A call that is served from the pools. -/
theorem run_small (hw : c.Words) (h : c.request = some (size, alignment)) (hl : c.large = none) :
    c.run cfg k t ra s = (btmMallocAt cfg k t size ra s).map c.finish := by
  obtain ⟨h1, h2⟩ := large_none h hl
  rw [run_some hw h, if_pos h2, if_neg h1]

end Alloc

end BtMalloc
