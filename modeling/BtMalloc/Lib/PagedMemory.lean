import Mathlib.Data.Nat.Basic
import Mathlib.Tactic.Ring
import Mathlib.Logic.Function.Basic

/-!
# Byte memory behind a page table

Virtual addresses are translated page by page to *frames*; the bytes live in the frames. Two virtual
pages may be mapped to the same frame, so a write through one address is seen through every alias.
`P` is the page size and `F` the type of frames, both arbitrary.

The interface is `read`, a range `write`, little-endian words, and the three operations a kernel
offers on a mapping: zeroing a set of frames, and redirecting a run of pages.
-/

/-- A page table and the contents of the frames. -/
structure PagedMemory (P : ℕ) (F : Type*) where
  /-- The frame behind each virtual page. -/
  pt : ℕ → F
  /-- The bytes of each frame. -/
  bytes : F → ℕ → UInt8

namespace PagedMemory

variable {P : ℕ} {F : Type*}

/-- The physical place of a virtual address: its frame and the offset in it. -/
def loc (m : PagedMemory P F) (a : ℕ) : F × ℕ := (m.pt (a / P), a % P)

/-- The byte read at a virtual address. -/
def read (m : PagedMemory P F) (a : ℕ) : UInt8 := m.bytes (m.pt (a / P)) (a % P)

/-- The virtual pages that a range of `n` bytes at `a` can touch. -/
def pagesOf (P a n : ℕ) : List ℕ := List.range' (a / P) ((a + n) / P + 1 - a / P)

/-- Write the `n` bytes `f 0, f 1, ...` at the virtual address `a`. -/
def write [DecidableEq F] (m : PagedMemory P F) (a n : ℕ) (f : ℕ → UInt8) : PagedMemory P F :=
  { m with
    bytes := fun fr off =>
      match (pagesOf P a n).find? (fun p => m.pt p == fr && a.ble (p * P + off) &&
          (p * P + off).blt (a + n)) with
      | some p => f (p * P + off - a)
      | none => m.bytes fr off }

/-- Zero every byte of the frames selected by `S`. -/
def zero (m : PagedMemory P F) (S : F → Bool) : PagedMemory P F :=
  { m with bytes := fun fr off => if S fr then 0 else m.bytes fr off }

/-- Map the `n` virtual pages from page `v` on to the frames `g 0, g 1, ...`. -/
def remap (m : PagedMemory P F) (v n : ℕ) (g : ℕ → F) : PagedMemory P F :=
  { m with pt := fun p => if v.ble p && p.blt (v + n) then g (p - v) else m.pt p }

/-- The little-endian number in the `n` bytes at `a`. -/
def readLE (m : PagedMemory P F) : ℕ → ℕ → ℕ
  | 0, _ => 0
  | n + 1, a => (m.read a).toNat + 256 * readLE m n (a + 1)

/-- Byte `i` of the little-endian number `v`. -/
def leByte (v i : ℕ) : UInt8 := UInt8.ofNat (v / 256 ^ i)

/-- Write the `n` low bytes of `v` at `a`, little-endian. -/
def writeLE [DecidableEq F] (m : PagedMemory P F) (n a v : ℕ) : PagedMemory P F :=
  m.write a n (leByte v)

/-! ## Reading after writing -/

theorem mem_pagesOf {a n i : ℕ} (hi : i < n) : (a + i) / P ∈ pagesOf P a n := by
  unfold pagesOf
  have h1 : a / P ≤ (a + i) / P := Nat.div_le_div_right (by omega)
  have h2 : (a + i) / P ≤ (a + n) / P := Nat.div_le_div_right (by omega)
  rw [List.mem_range'_1]
  omega

section Write

variable [DecidableEq F]

@[simp] theorem write_pt (m : PagedMemory P F) (a n : ℕ) (f : ℕ → UInt8) :
    (m.write a n f).pt = m.pt := rfl

@[simp] theorem writeLE_pt (m : PagedMemory P F) (n a v : ℕ) : (m.writeLE n a v).pt = m.pt := rfl

@[simp] theorem write_loc (m : PagedMemory P F) (a n : ℕ) (f : ℕ → UInt8) (b : ℕ) :
    (m.write a n f).loc b = m.loc b := rfl

@[simp] theorem writeLE_loc (m : PagedMemory P F) (n a v b : ℕ) :
    (m.writeLE n a v).loc b = m.loc b := rfl

/-- A byte of the range reads back what was written, provided no other byte of the range has its
    physical place. -/
theorem read_write_hit [NeZero P] (m : PagedMemory P F) (a n : ℕ) (f : ℕ → UInt8) {i : ℕ} (hi : i < n)
    (hinj : ∀ j < n, m.loc (a + j) = m.loc (a + i) → j = i) :
    (m.write a n f).read (a + i) = f i := by
  have hP : 0 < P := Nat.pos_of_neZero P
  have hsplit : (a + i) / P * P + (a + i) % P = a + i := by
    rw [Nat.mul_comm]
    exact Nat.div_add_mod ..
  set q := (a + i) / P with hq
  set pred : ℕ → Bool := fun p => m.pt p == m.pt q && a.ble (p * P + (a + i) % P) &&
    (p * P + (a + i) % P).blt (a + n) with hpred
  have hqpred : pred q = true := by
    simp only [hpred, beq_self_eq_true, Bool.true_and, Bool.and_eq_true, Nat.ble_eq, Nat.blt_eq]
    omega
  have hfind : ∃ p, (pagesOf P a n).find? pred = some p := by
    have := List.find?_isSome.mpr (⟨q, mem_pagesOf hi, hqpred⟩ : ∃ x ∈ pagesOf P a n, pred x = true)
    exact Option.isSome_iff_exists.mp this
  obtain ⟨p, hp⟩ := hfind
  have hpp := List.find?_some hp
  simp only [hpred, Bool.and_eq_true, beq_iff_eq, Nat.ble_eq, Nat.blt_eq] at hpp
  obtain ⟨⟨hfr, hlo⟩, hhi⟩ := hpp
  -- the page found is the page of `a + i`: its byte at the same offset has the same place
  have hpi : p * P + (a + i) % P = a + i := by
    have hj : a + (p * P + (a + i) % P - a) = (a + i) % P + P * p := by
      rw [Nat.mul_comm P p]
      omega
    have := hinj (p * P + (a + i) % P - a) (by omega) (by
      unfold loc
      rw [hj, Nat.add_mul_div_left _ _ hP, Nat.div_eq_of_lt (Nat.mod_lt _ hP), Nat.zero_add, hfr,
        Nat.add_mul_mod_self_left, Nat.mod_mod])
    omega
  show (match (pagesOf P a n).find? pred with
    | some p => f (p * P + (a + i) % P - a)
    | none => m.bytes (m.pt q) ((a + i) % P)) = f i
  rw [hp]
  simp only [hpi]
  congr 1
  omega

/-- A byte whose physical place the range does not cover is unchanged. -/
theorem read_write_miss [NeZero P] (m : PagedMemory P F) (a n : ℕ) (f : ℕ → UInt8) {b : ℕ}
    (h : ∀ i < n, m.loc (a + i) ≠ m.loc b) : (m.write a n f).read b = m.read b := by
  have hP : 0 < P := Nat.pos_of_neZero P
  have hnone : (pagesOf P a n).find? (fun p => m.pt p == m.pt (b / P) &&
      a.ble (p * P + b % P) && (p * P + b % P).blt (a + n)) = none := by
    rw [List.find?_eq_none]
    intro p _ hp
    simp only [Bool.and_eq_true, beq_iff_eq, Nat.ble_eq, Nat.blt_eq] at hp
    obtain ⟨⟨hfr, hlo⟩, hhi⟩ := hp
    refine h (p * P + b % P - a) (by omega) ?_
    have hj : a + (p * P + b % P - a) = b % P + P * p := by rw [Nat.mul_comm P p]; omega
    unfold loc
    rw [hj, Nat.add_mul_div_left _ _ hP, Nat.div_eq_of_lt (Nat.mod_lt _ hP), Nat.zero_add, hfr,
      Nat.add_mul_mod_self_left, Nat.mod_mod]
  show (match (pagesOf P a n).find? (fun p => m.pt p == m.pt (b / P) &&
      a.ble (p * P + b % P) && (p * P + b % P).blt (a + n)) with
    | some p => f (p * P + b % P - a)
    | none => m.bytes (m.pt (b / P)) (b % P)) = _
  rw [hnone]
  rfl

end Write

/-! ## Words -/

theorem readLE_congr {m m' : PagedMemory P F} {n a : ℕ}
    (h : ∀ i < n, m'.read (a + i) = m.read (a + i)) : m'.readLE n a = m.readLE n a := by
  induction n generalizing a with
  | zero => rfl
  | succ n ih =>
    have h0 := h 0 (by omega)
    rw [Nat.add_zero] at h0
    simp only [readLE, h0]
    rw [ih (fun i hi => ?_)]
    have := h (i + 1) (by omega)
    rwa [show a + (i + 1) = a + 1 + i by omega] at this

/-- Bytes that spell `v` read as `v`. -/
theorem readLE_of_bytes {m : PagedMemory P F} {n a v : ℕ}
    (h : ∀ i < n, m.read (a + i) = leByte v i) : m.readLE n a = v % 256 ^ n := by
  induction n generalizing a v with
  | zero => simp [readLE, Nat.mod_one]
  | succ n ih =>
    have h0 := h 0 (by omega)
    rw [Nat.add_zero] at h0
    have ht : m.readLE n (a + 1) = v / 256 % 256 ^ n := by
      refine ih (fun i hi => ?_)
      have := h (i + 1) (by omega)
      rw [show a + (i + 1) = a + 1 + i by omega] at this
      rw [this, leByte, leByte, Nat.pow_succ, Nat.mul_comm (256 ^ i), Nat.div_div_eq_div_mul]
    simp only [readLE, h0, ht, leByte, Nat.pow_zero, Nat.div_one, UInt8.toNat_ofNat']
    rw [show (256 : ℕ) ^ (n + 1) = 256 * 256 ^ n by ring, Nat.mod_mul]

/-- A word reads back what was written, provided it does not alias itself. -/
theorem readLE_writeLE_hit [DecidableEq F] [NeZero P] (m : PagedMemory P F) (n a v : ℕ)
    (hinj : ∀ i < n, ∀ j < n, m.loc (a + j) = m.loc (a + i) → j = i) :
    (m.writeLE n a v).readLE n a = v % 256 ^ n :=
  readLE_of_bytes (fun i hi => read_write_hit m a n _ hi (hinj i hi))

/-! ## Zeroing and redirecting -/

@[simp] theorem zero_pt (m : PagedMemory P F) (S : F → Bool) : (m.zero S).pt = m.pt := rfl

@[simp] theorem zero_loc (m : PagedMemory P F) (S : F → Bool) (a : ℕ) :
    (m.zero S).loc a = m.loc a := rfl

theorem read_zero (m : PagedMemory P F) (S : F → Bool) (a : ℕ) :
    (m.zero S).read a = if S (m.pt (a / P)) then 0 else m.read a := rfl

theorem remap_pt (m : PagedMemory P F) (v n : ℕ) (g : ℕ → F) (p : ℕ) :
    (m.remap v n g).pt p = if v ≤ p ∧ p < v + n then g (p - v) else m.pt p := by
  simp only [remap, Bool.and_eq_true, Nat.ble_eq, Nat.blt_eq]

/-- Redirecting a run of pages leaves every other address alone. -/
theorem read_remap_outside (m : PagedMemory P F) (v n : ℕ) (g : ℕ → F) {a : ℕ}
    (h : ¬ (v ≤ a / P ∧ a / P < v + n)) : (m.remap v n g).read a = m.read a := by
  show m.bytes ((m.remap v n g).pt (a / P)) (a % P) = _
  rw [remap_pt, if_neg h]
  rfl

end PagedMemory
