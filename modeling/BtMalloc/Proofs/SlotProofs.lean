import BtMalloc.Proofs.StageProofs

/-!
# Proofs: moving slots

One operation of the ledger moves a slot: off whatever list it is on, and to the front of the list of
its new place. Refills, hits in a bin, frees and flushes are all made of it. It keeps the ledger
sound.
-/

namespace BtMalloc

namespace Ledger

variable {cfg : Config} {L : Ledger} {q : PoolId} {r : SlabRef} {s t b : ℕ} {v : Place}

/-- Slot `s` of slab `r` of pool `q` goes to place `v`. -/
def move (L : Ledger) (q : PoolId) (r : SlabRef) (s : ℕ) (v : Place) : Ledger :=
  { L with
    place := Function.update L.place s v
    freeList := Function.update L.freeList r
      (if v = .free then s :: (L.freeList r).erase s else (L.freeList r).erase s)
    bin := fun t i => if v = .cached t i then s :: (L.bin t i).erase s else (L.bin t i).erase s
    held := Function.update L.held q
      (if v.busy then s :: (L.held q).erase s else (L.held q).erase s) }

/-- A ledger that differs in where slots are is sound when the lists of slots fit and no slot came
    into use. -/
theorem Sound.replace (S : L.Sound cfg) {place : ℕ → Place} {bin : ℕ → ℕ → List ℕ}
    {freeList : SlabRef → List ℕ} {held : PoolId → List ℕ}
    (hv : ∀ s, place s ≠ .void → L.place s ≠ .void)
    (hbin : ∀ t i, Listing (bin t i) fun s => place s = .cached t i)
    (hhome : ∀ {s t i q r j}, place s = .cached t i → L.SlotIn q r j s → i = binIdx q)
    (hfree : ∀ {r}, L.stage r ≠ .uncarved → L.stage r ≠ .retired →
      Listing (freeList r) fun s => place s = .free ∧ ∃ q i, L.SlotIn q r i s)
    (hret : ∀ {s q r i}, L.SlotIn q r i s → L.stage r = .retired → place s ≠ .free)
    (hheld : ∀ q, Listing (held q) fun s => (place s).busy = true ∧ ∃ r i, L.SlotIn q r i s) :
    Sound cfg { L with place := place, bin := bin, freeList := freeList, held := held } := by
  refine ⟨⟨S.carving.valid, S.carving.aligned, S.carving.top_eq, S.carving.carved⟩,
    ⟨S.lists.partials, S.lists.warm, S.lists.cold, S.lists.counted, S.lists.chunks, S.lists.active,
      S.lists.stack, S.lists.queue, S.lists.batch, S.lists.hand⟩,
    ⟨fun hs => S.slots.slot (hv _ hs), hbin, hhome, hfree, hret, hheld⟩,
    ⟨S.meshed.self, S.meshed.pool, ?_, ?_⟩⟩
  · intro r hr hne
    obtain ⟨q, i, s, hs, hvoid⟩ := S.meshed.donated hr hne
    refine ⟨q, i, s, hs, ?_⟩
    by_contra h
    exact hv s h hvoid
  · intro s s' q q' r r' i hs hs'
    exact S.meshed.apart (hv s hs) (hv s' hs')

/-- A free slot on the list of its slab. -/
theorem Sound.free_of_mem (S : L.Sound cfg) (hr : L.SlabIn q r) (h1 : L.stage r ≠ .retired)
    (hs : s ∈ L.freeList r) : L.place s = .free ∧ ∃ i, L.SlotIn q r i s := by
  obtain ⟨hf, q', i, hi⟩ := (S.slots.freeList hr.2 h1).mem_iff.mp hs
  have e := hr.pool_unique hi.1
  subst e
  exact ⟨hf, i, hi⟩

/-- A list of slots that holds those with a property of their place, after one slot moved. -/
theorem listing_move {P : ℕ → Place → Prop} {l : List ℕ} (h : Listing l fun x => P x (L.place x))
    {c : Prop} [Decidable c] (hc : P s v ↔ c) : Listing (if c then s :: l.erase s else l.erase s)
      fun x => P x (Function.update L.place s v x) := by
  have he : Listing (l.erase s) fun x => P x (L.place x) ∧ x ≠ s := h.erase (fun _ => Iff.rfl)
  split
  next hp =>
    refine he.cons (fun e => e.2 rfl) (fun x => ?_)
    by_cases e : x = s
    · subst e
      simp [hc, hp]
    · simp [e]
  next hp =>
    refine he.congr (fun x => ?_)
    by_cases e : x = s
    · subst e
      simp [hc, hp]
    · simp [e]

/-- Moving a slot keeps the ledger sound: a slot out of use stays so, a cached slot is in the bin of
    its pool, and a slot of a retired slab does not become free. -/
theorem Sound.move {j : ℕ} (S : L.Sound cfg) (hs : L.SlotIn q r j s)
    (hv : v ≠ .void → L.place s ≠ .void) (hc : ∀ t i, v = .cached t i → i = binIdx q)
    (hf : L.stage r = .retired → v ≠ .free) : (L.move q r s v).Sound cfg := by
  refine S.replace ?_ (fun t i => ?_) ?_ ?_ ?_ (fun q' => ?_)
  · intro x hx
    by_cases e : x = s
    · subst e
      rw [Function.update_self] at hx
      exact hv hx
    · rwa [Function.update_of_ne e] at hx
  · exact listing_move (P := fun _ p => p = .cached t i) (S.slots.bin t i) Iff.rfl
  · intro x t i q' r' j' hx hslot
    by_cases e : x = s
    · subst e
      rw [Function.update_self] at hx
      obtain ⟨rfl, -⟩ := S.carving.slotIn_inj hs hslot
      exact hc t i hx
    · rw [Function.update_of_ne e] at hx
      exact S.slots.home hx hslot
  · intro x hx hx'
    by_cases e : x = r
    · subst e
      rw [Function.update_self]
      exact listing_move (P := fun y p => p = .free ∧ ∃ q i, L.SlotIn q x i y)
        (S.slots.freeList hx hx') ⟨fun h => h.1, fun h => ⟨h, q, j, hs⟩⟩
    · rw [Function.update_of_ne e]
      refine (S.slots.freeList hx hx').congr (fun y => ?_)
      by_cases e' : y = s
      · subst e'
        have hno : ¬ ∃ q i, L.SlotIn q x i y := by
          rintro ⟨q', i, h'⟩
          exact e (S.carving.slotIn_inj hs h').2.1.symm
        simp [hno]
      · rw [Function.update_of_ne e']
  · intro x q' r' i hslot hret
    by_cases e : x = s
    · subst e
      rw [Function.update_self]
      obtain ⟨-, rfl, -⟩ := S.carving.slotIn_inj hs hslot
      exact hf hret
    · rw [Function.update_of_ne e]
      exact S.slots.retired hslot hret
  · by_cases e : q' = q
    · subst e
      rw [Function.update_self]
      exact listing_move (P := fun y p => p.busy = true ∧ ∃ r i, L.SlotIn q' r i y)
        (S.slots.held q') ⟨fun h => h.1, fun h => ⟨h, r, j, hs⟩⟩
    · rw [Function.update_of_ne e]
      refine (S.slots.held q').congr (fun y => ?_)
      by_cases e' : y = s
      · subst e'
        have hno : ¬ ∃ r i, L.SlotIn q' r i y := by
          rintro ⟨r', i, h'⟩
          exact e (S.carving.slotIn_inj hs h').1.symm
        simp [hno]
      · rw [Function.update_of_ne e']

end Ledger

end BtMalloc
