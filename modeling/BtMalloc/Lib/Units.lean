import BtMalloc.Lib.PagedMemory

/-!
# Units of paged memory

A unit is a run of bytes that has one owner at a time: `U a n` says that the `n` bytes at `a` are a
unit. Units are `Apart` when no two bytes of units share a physical place; a write inside one unit
then leaves every other unit alone, whatever the page table says. `Keeps U S m m'` is the frame
condition of an operation that may change the units in `S` only.
-/

namespace PagedMemory

variable {P : ℕ} {F : Type*}

/-- No two bytes of units have one physical place. -/
def Apart (m : PagedMemory P F) (U : ℕ → ℕ → Prop) : Prop :=
  ∀ ⦃a n b k i j⦄, U a n → U b k → i < n → j < k → m.loc (a + i) = m.loc (b + j) → a = b ∧ i = j

/-- Units outside `S` read the same. -/
def Keeps (U : ℕ → ℕ → Prop) (S : ℕ → Prop) (m m' : PagedMemory P F) : Prop :=
  ∀ ⦃a n i⦄, U a n → ¬ S a → i < n → m'.read (a + i) = m.read (a + i)

variable {U : ℕ → ℕ → Prop} {S T : ℕ → Prop} {m m' m'' : PagedMemory P F}

theorem Keeps.refl : Keeps U S m m := fun _ _ _ _ _ _ => rfl

theorem Keeps.mono (h : Keeps U S m m') (hs : ∀ {a n}, U a n → S a → T a) : Keeps U T m m' :=
  fun _ _ _ hu ht hi => h hu (fun hsa => ht (hs hu hsa)) hi

theorem Keeps.trans (h : Keeps U S m m') (h' : Keeps U S m' m'') : Keeps U S m m'' :=
  fun _ _ _ hu hs hi => (h' hu hs hi).trans (h hu hs hi)

/-- A word at the start of a kept unit. -/
theorem Keeps.readLE (h : Keeps U S m m') {a n k : ℕ} (hu : U a n) (hs : ¬ S a) (hk : k ≤ n) :
    m'.readLE k a = m.readLE k a :=
  readLE_congr (fun i hi => h hu hs (by omega))

theorem Apart.congr_pt (h : m.Apart U) (hpt : m'.pt = m.pt) : m'.Apart U := by
  intro a n b k i j ha hb hi hj e
  refine h ha hb hi hj ?_
  simpa only [loc, hpt] using e

section Write

variable [DecidableEq F] [NeZero P] {a n o k : ℕ} {f : ℕ → UInt8}

/-- A write inside one unit keeps the others. -/
theorem Apart.write_keeps (h : m.Apart U) (hu : U a n) (ho : o + k ≤ n) :
    Keeps U (fun b => b = a) m (m.write (a + o) k f) := by
  intro b nb i hb hne hi
  refine read_write_miss m _ _ _ (fun j hj e => ?_)
  rw [Nat.add_assoc] at e
  exact hne (h hu hb (by omega) hi e).1.symm

/-- The bytes of the unit outside the written range stay. -/
theorem Apart.write_outside (h : m.Apart U) (hu : U a n) (ho : o + k ≤ n) {i : ℕ} (hi : i < n)
    (hout : i < o ∨ o + k ≤ i) : (m.write (a + o) k f).read (a + i) = m.read (a + i) := by
  refine read_write_miss m _ _ _ (fun j hj e => ?_)
  rw [Nat.add_assoc] at e
  have := (h hu hu (by omega) hi e).2
  omega

/-- The written range reads back. -/
theorem Apart.write_hit (h : m.Apart U) (hu : U a n) (ho : o + k ≤ n) {i : ℕ} (hi : i < k) :
    (m.write (a + o) k f).read (a + o + i) = f i := by
  refine read_write_hit m _ _ _ hi (fun j hj e => ?_)
  rw [Nat.add_assoc, Nat.add_assoc] at e
  have := (h hu hu (by omega) (by omega) e).2
  omega

/-- A word written at the start of a unit reads back. -/
theorem Apart.readLE_writeLE (h : m.Apart U) (hu : U a n) (hk : k ≤ n) (v : ℕ) :
    (m.writeLE k a v).readLE k a = v % 256 ^ k := by
  refine readLE_writeLE_hit m k a v (fun i hi j hj e => ?_)
  exact (h hu hu (by omega) (by omega) e).2

end Write

section Kernel

/-- Zeroing frames behind no kept unit. -/
theorem zero_keeps {Z : F → Bool}
    (hz : ∀ {a n i}, U a n → ¬ S a → i < n → Z (m.pt ((a + i) / P)) = false) :
    Keeps U S m (m.zero Z) := by
  intro a n i hu hs hi
  rw [read_zero, hz hu hs hi]
  simp

end Kernel

end PagedMemory
