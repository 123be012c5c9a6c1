import BtMalloc.Proofs.SlotRunProofs

/-!
# Proofs: reclaim never loses data
-/

namespace BtMalloc

open LinkedList PagedMemory Word

variable {cfg : Config} {w w' : World} {L : Ledger} {q : PoolId} {r : SlabRef} {i p : ℕ} {act : Action}
  {pl : Placement}

/-- The slot of a live object is out. -/
theorem WorldRep.live_out (W : WorldRep cfg w L) (hs : L.SlotIn q r i p) (hl : w.live p ≠ none) :
    L.place p = .out := by
  obtain ⟨size, hl⟩ := Option.ne_none_iff_exists'.mp hl
  obtain ⟨a, ho⟩ := W.live hl
  exact (W.sys.owned_slot ho hs).2

/-- What is in use is within a busy unit. -/
theorem WorldRep.busy_of_occupied {m b : ℕ} (W : WorldRep cfg w L) (ho : Occupied cfg w p m) (hb : b < m) :
    ∃ a n i, L.Busy a n ∧ i < n ∧ p + b = a + i := by
  cases ho with
  | live hl =>
    obtain ⟨a, ho⟩ := W.live hl
    obtain ⟨n, o, hc, rfl, hm⟩ := ho.client
    exact ⟨a, n, o + b, hc.busy, by omega, by omega⟩
  | @slot q r i hs hu =>
    have hs := (slotOf_iff W).mp hs
    have hbusy : (L.place p).busy = true := by
      rcases hu with hc | hl
      · obtain ⟨t, j, hp⟩ := (slotCached_iff W).mp hc
        rw [hp]
        rfl
      · rw [W.live_out hs hl]
        rfl
    exact ⟨p, _, b, .slot hbusy hs, hb, rfl⟩

/-- A step takes no page away that something in use is on. -/
theorem WorldRep.pages_clear (W : WorldRep cfg w L) (hA : L.Follows pl) (hok : w.Regular pl act)
    (he : step cfg w act = some w') : PagesClear cfg w w' := by
  obtain ⟨L', D⟩ := world_step W hA hok he
  obtain ⟨X, Y, Z, tbl, n, O⟩ := D.done
  obtain ⟨ev', hev', hclear, -⟩ := O.effect.log
  intro ev hev e hmem pg n hd p m ho b hb
  obtain rfl : ev = ev' := List.append_cancel_right (hev.symm.trans hev')
  obtain ⟨a, n', i, hbusy, hi, e'⟩ := D.rep.busy_of_occupied ho hb
  rw [e']
  exact hclear e hmem pg n hd hbusy hi

/-- Along every run without a compaction in which no size wraps, no page is taken away from what is in use,
    what a thread has cached are slots, every freelist link was there when it was decoded, and objects read
    back what was stored. -/
theorem reclaim_keeps_data {acts : List Action}
    (hr : Transition.Run (step cfg) (World.Regular pl) World.init acts w) :
    Good w.sys.heap.log ∧ ReadsBack w ∧
      (∀ p, SlotCached cfg w p → ∃ q r i, SlotOf w.sys.heap q r i p) ∧
      ∀ act w', w.Regular pl act → step cfg w act = some w' → PagesClear cfg w w' := by
  obtain ⟨L, W, hA, -⟩ := world_run hr
  refine ⟨W.sys.rep.log.good, fun _ _ _ _ => W.shadow, fun p hc => ?_, fun _ _ hok he => W.pages_clear hA hok he⟩
  obtain ⟨t, j, hp⟩ := (slotCached_iff W).mp hc
  obtain ⟨q, r, i, hs⟩ := W.sys.sound.slots.slot (s := p) (by simp [hp])
  exact ⟨q, r, i, (slotOf_iff W).mpr hs⟩

/-- `btm_malloc` of `2 ^ 64 - 1` bytes, which maps one page, and of 20000 bytes; the owner of the second
    object stores 1 in it, and the owner of the first stores 2 inside the size it asked for. -/
def wrappedMalloc : List Action :=
  [.malloc 0 (2 ^ 64 - 1) 4096 { Kernel.plain with large := some 4194304 },
    .malloc 0 20000 4096 { Kernel.plain with large := some 6291456 },
    .write 6291488 0 1, .write 4194336 2097152 2]

def wrappedMallocWorld : World := Transition.finish (step Config.plain) World.init wrappedMalloc

theorem reclaim_loses_wrapped :
    Transition.exec (step Config.plain) World.init wrappedMalloc = some wrappedMallocWorld ∧
      ¬ ReadsBack wrappedMallocWorld := by
  refine ⟨Transition.exec_eq_finish (by decide +kernel), fun h => ?_⟩
  have h1 : wrappedMallocWorld.live 6291488 = some 20000 ∧ wrappedMallocWorld.shadow 6291488 0 = some 1 ∧
      wrappedMallocWorld.sys.heap.mem.read 6291488 = 2 := by decide +kernel
  have h2 := (h 6291488 20000 0 1 h1.1 h1.2.1).2
  rw [Nat.add_zero, h1.2.2] at h2
  cases h2

theorem reclaim_keeps_cold_slab : Good coldSlabWorld.sys.heap.log :=
  (reclaim_keeps_data ((coldSlab_run .aligned).mono fun _ _ h => h.1)).1

end BtMalloc
