import Mathlib.Logic.Function.Basic
import Mathlib.Data.Nat.ModEq

/-!
# Linear probing into a table whose slots are set once

A table of `cap` slots maps slots to keys; `start x` is where the search for key `x` begins. `Placed`
is the invariant of linear probing without deletion: on the way to the slot of a key every slot
belongs to another key. A key therefore has one slot, and a search that has passed all slots shows
that the table is full of other keys.
-/

namespace Probing

variable {K : Type*} {cap : ℕ} {start : K → ℕ} {tbl tbl' : ℕ → Option K} {x : K} {i j n : ℕ}

/-- The slot that the search for `x` looks at after `n` others. -/
def slot (cap : ℕ) (start : K → ℕ) (x : K) (n : ℕ) : ℕ := (start x + n) % cap

/-- The first `n` slots of the search for `x` belong to other keys. -/
def Passed (cap : ℕ) (start : K → ℕ) (tbl : ℕ → Option K) (x : K) (n : ℕ) : Prop :=
  ∀ m < n, ∃ y, y ≠ x ∧ tbl (slot cap start x m) = some y

/-- Every key is where its search finds it. -/
def Placed (cap : ℕ) (start : K → ℕ) (tbl : ℕ → Option K) : Prop :=
  ∀ i < cap, ∀ x, tbl i = some x → ∃ n < cap, slot cap start x n = i ∧ Passed cap start tbl x n

/-- Slots that are set stay as they are. -/
def Extends (tbl tbl' : ℕ → Option K) : Prop := ∀ i x, tbl i = some x → tbl' i = some x

theorem extends_update [DecidableEq ℕ] {o : Option K} (h : tbl i = none) :
    Extends tbl (Function.update tbl i o) := by
  intro j y hj
  have hne : j ≠ i := fun e => by rw [e, h] at hj; cases hj
  rw [Function.update_of_ne hne, hj]

theorem Passed.zero : Passed cap start tbl x 0 := fun _ h => absurd h (Nat.not_lt_zero _)

theorem Passed.succ {y : K} (h : Passed cap start tbl x n) (hy : y ≠ x)
    (ht : tbl (slot cap start x n) = some y) : Passed cap start tbl x (n + 1) := by
  intro m hm
  rcases Nat.lt_succ_iff_lt_or_eq.mp hm with hm | rfl
  · exact h m hm
  · exact ⟨y, hy, ht⟩

theorem Passed.extend (h : Passed cap start tbl x n) (he : Extends tbl tbl') :
    Passed cap start tbl' x n := by
  intro m hm
  obtain ⟨y, hy, ht⟩ := h m hm
  exact ⟨y, hy, he _ _ ht⟩

theorem slot_lt (hc : 0 < cap) : slot cap start x n < cap := Nat.mod_lt _ hc

/-- Every slot is on the way of every search. -/
theorem exists_slot (hc : 0 < cap) (hi : i < cap) : ∃ n < cap, slot cap start x n = i := by
  refine ⟨(i + (cap - start x % cap)) % cap, Nat.mod_lt _ hc, ?_⟩
  have hs := Nat.mod_lt (start x) hc
  rw [slot, Nat.add_mod_mod, Nat.add_mod, Nat.add_mod i]
  have e : start x % cap + (i % cap + (cap - start x % cap) % cap) % cap ≡ i [MOD cap] := by
    have h1 : (i % cap + (cap - start x % cap) % cap) % cap ≡ i + (cap - start x % cap) [MOD cap] := by
      simp [Nat.ModEq]
    refine (h1.add_left _).trans ?_
    have h2 : start x % cap + (i + (cap - start x % cap)) = i + cap := by omega
    rw [h2]
    simp [Nat.ModEq]
  simpa [Nat.ModEq, Nat.mod_eq_of_lt hi] using e

/-- A search that has passed all slots: the table is full of other keys. -/
theorem Passed.full (h : Passed cap start tbl x cap) (hi : i < cap) :
    ∃ y, y ≠ x ∧ tbl i = some y := by
  obtain ⟨n, hn, rfl⟩ := (@exists_slot _ _ start x) (by omega) hi
  exact h n hn

/-- A key has one slot. -/
theorem Placed.unique (h : Placed cap start tbl) (hi : i < cap) (hj : j < cap) (hx : tbl i = some x)
    (hx' : tbl j = some x) : i = j := by
  obtain ⟨n, -, rfl, hn⟩ := h i hi x hx
  obtain ⟨m, -, rfl, hm⟩ := h j hj x hx'
  rcases Nat.lt_trichotomy n m with hlt | rfl | hlt
  · obtain ⟨y, hy, ht⟩ := hm n hlt
    exact absurd (Option.some.inj (ht.symm.trans hx)) hy
  · rfl
  · obtain ⟨y, hy, ht⟩ := hn m hlt
    exact absurd (Option.some.inj (ht.symm.trans hx')) hy

/-- A search that has come to an empty slot: the key is nowhere. -/
theorem Placed.absent (h : Placed cap start tbl) (hp : Passed cap start tbl x n)
    (he : tbl (slot cap start x n) = none) (hi : i < cap) : tbl i ≠ some x := by
  intro hx
  obtain ⟨m, -, rfl, hm⟩ := h i hi x hx
  rcases Nat.lt_trichotomy n m with hlt | rfl | hlt
  · obtain ⟨y, -, ht⟩ := hm n hlt
    rw [he] at ht
    cases ht
  · rw [he] at hx
    cases hx
  · obtain ⟨y, hy, ht⟩ := hp m hlt
    exact hy (Option.some.inj (ht.symm.trans hx))

/-- Setting the empty slot that the search for `x` has come to. -/
theorem Placed.insert (h : Placed cap start tbl) (hn : n < cap) (hp : Passed cap start tbl x n)
    (he : tbl (slot cap start x n) = none) :
    Placed cap start (Function.update tbl (slot cap start x n) (some x)) := by
  have ext := extends_update (o := some x) he
  intro i hi y hy
  by_cases e : i = slot cap start x n
  · rw [e, Function.update_self] at hy
    obtain rfl := Option.some.inj hy
    exact ⟨n, hn, e.symm, hp.extend ext⟩
  · rw [Function.update_of_ne e] at hy
    obtain ⟨m, hm, hs, hq⟩ := h i hi y hy
    exact ⟨m, hm, hs, hq.extend ext⟩

end Probing
