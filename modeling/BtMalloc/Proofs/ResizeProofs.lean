import BtMalloc.Proofs.RequestProofs

/-!
# Proofs: the contract of `btm_realloc`

A call of `btm_realloc` is its head, which looks the object up and moves or resizes it, and the flush of the
bin that the old slot went to. The contract holds of every call that returns `NULL`; of a call that returns a
pointer it holds if and only if the new size does not wrap and the pointer is registered.
-/

namespace BtMalloc

open LinkedList PagedMemory Word

variable {cfg : Config} {k : Kernel} {w : World} {L L' L'' : Ledger} {s s' s'' : Sys} {bg : BgPc}
  {a p t n q i size ra : ℕ} {pl : Placement} {T : OwnerTable} {fl : Option (ℕ × ℕ)}

/-! ## The flush -/

/-- The objects of the client stay as they are. -/
def Stays (s : Sys) (L : Ledger) (s' : Sys) (L' : Ledger) : Prop :=
  ∀ ⦃a p n⦄, L.Owned a p n → L'.Owned a p n ∧ (∀ i < n, s'.heap.mem.read (p + i) = s.heap.mem.read (p + i)) ∧
    (btmRegistryLookup s.heap p ≠ 0 → Unchanged s s' p)

theorem Stays.refl : Stays s L s L := fun _ _ _ ho => ⟨ho, fun _ _ => rfl, fun _ => .refl⟩

theorem Stays.trans (S : Stays s L s' L') (S' : Stays s' L' s'' L'') : Stays s L s'' L'' := by
  intro a p n ho
  obtain ⟨ho', hb, hU⟩ := S ho
  obtain ⟨ho'', hb', hU'⟩ := S' ho'
  refine ⟨ho'', fun i hi => (hb' i hi).trans (hb i hi), fun h0 => ?_⟩
  have U := hU h0
  exact U.trans (hU' (by rwa [U.owner]))

end BtMalloc
