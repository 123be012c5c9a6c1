import BtMalloc.Proofs.LinkProofs
import BtMalloc.Proofs.StageProofs

/-!
# Proofs: the loops of `mesh_pair`

`build_occ` reads which slots of a slab are not on its freelist, the copy loop moves the donor's
objects into the recipient's slots of the same index, and the rebuild loop links the slots that are
free in both.
-/

namespace BtMalloc

open LinkedList PagedMemory Word

variable {cfg : Config} {U : ℕ → ℕ → Prop}

/-! ## Occupancy -/

/-- Clearing the bits of a list of indices. -/
theorem foldl_clear {f : ℕ → ℕ} {l : List ℕ} {bm : ℕ → Bool} {i : ℕ} :
    l.foldl (fun bm s => Function.update bm (f s) false) bm i = true ↔
      bm i = true ∧ ∀ s ∈ l, f s ≠ i := by
  induction l generalizing bm with
  | nil => simp
  | cons s l ih =>
    rw [List.foldl_cons, ih]
    by_cases e : f s = i
    · simp [e]
    · simp [e, Ne.symm e]

/-- The index of a slot from its address. -/
theorem slot_index {data z i : ℕ} (hz : 0 < z) : (data + i * z - data) / z = i := by
  rw [Nat.add_sub_cancel_left, Nat.mul_div_cancel _ hz]

/-- The occupied slots are those that are not on the freelist. -/
theorem buildOcc_eq {h : Heap} {r : SlabRef} {n z : ℕ} {l : List ℕ}
    (hc : Chain (flNext cfg h.mem) (ptr (h.slabs r).freeHead) l) (hlen : l.length ≤ listFuel)
    (hn : (h.slabs r).nslots = n) (hz : btmScToSize (h.slabs r).sc = z) (hpos : 0 < z)
    (hl : ∀ s ∈ l, ∃ i, s = btmSlabData h r + i * z) {i : ℕ} :
    buildOcc cfg h r i = true ↔ i < n ∧ btmSlabData h r + i * z ∉ l := by
  unfold buildOcc
  rw [hc.walk_eq hlen, hn, hz]
  rw [foldl_clear, Nat.blt_eq]
  refine and_congr_right fun _ => ⟨fun hall hm => ?_, fun hno s hs e => ?_⟩
  · exact hall _ hm (slot_index hpos)
  · obtain ⟨j, rfl⟩ := hl s hs
    rw [slot_index hpos] at e
    exact hno (e ▸ hs)

/-! ## Copying the donor's objects -/

variable {Rd z : ℕ} {rocc docc : ℕ → Bool}

theorem addr_inj (hz : 0 < z) {d i j : ℕ} (e : d + i * z = d + j * z) : i = j :=
  Nat.eq_of_mul_eq_mul_right hz (Nat.add_left_cancel e)

/-- The copy loop writes the recipient's slots at the donor's occupied indices only. -/
theorem meshCopy_keeps {m : Mem} (hA : m.Apart U) (Dd : ℕ) {n : ℕ}
    (hu : ∀ i < n, docc i = true → U (Rd + i * z) z) :
    (meshCopy Rd Dd z docc n m).pt = m.pt ∧
      Keeps U (fun s => ∃ i < n, docc i = true ∧ s = Rd + i * z) m (meshCopy Rd Dd z docc n m) := by
  induction n with
  | zero => exact ⟨rfl, Keeps.refl⟩
  | succ n ih =>
    obtain ⟨hpt, hk⟩ := ih (fun i hi => hu i (by omega))
    have hk' := hk.mono (T := fun s => ∃ i < n + 1, docc i = true ∧ s = Rd + i * z)
      (fun _ ⟨i, hi, hd, e⟩ => ⟨i, by omega, hd, e⟩)
    unfold meshCopy
    dsimp only
    split
    next hd =>
      have hw := (hA.congr_pt hpt).write_keeps (o := 0) (k := z)
        (f := fun i => (meshCopy Rd Dd z docc n m).read (Dd + n * z + i)) (hu n (by omega) hd)
        (by omega)
      exact ⟨hpt, hk'.trans (hw.mono fun _ e => ⟨n, by omega, hd, e⟩)⟩
    next => exact ⟨hpt, hk'⟩

/-- Every object of the donor is at its index of the recipient afterwards. -/
theorem meshCopy_read {m : Mem} (hA : m.Apart U) (Dd : ℕ) (hz : 0 < z) {n : ℕ}
    (hu : ∀ i < n, docc i = true → U (Rd + i * z) z) {i : ℕ} (hi : i < n) (hd : docc i = true)
    (hs : U (Dd + i * z) z) (hne : ∀ j < n, docc j = true → Dd + i * z ≠ Rd + j * z) {b : ℕ}
    (hb : b < z) :
    (meshCopy Rd Dd z docc n m).read (Rd + i * z + b) = m.read (Dd + i * z + b) := by
  induction n with
  | zero => omega
  | succ n ih =>
    have hu' : ∀ i < n, docc i = true → U (Rd + i * z) z := fun i hi => hu i (by omega)
    obtain ⟨hpt, hk⟩ := meshCopy_keeps hA Dd hu'
    have hsrc : ¬ ∃ j < n, docc j = true ∧ Dd + i * z = Rd + j * z :=
      fun ⟨j, hj, hd', e⟩ => hne j (by omega) hd' e
    unfold meshCopy
    dsimp only
    by_cases hin : i = n
    · subst hin
      rw [if_pos hd]
      have hw := (hA.congr_pt hpt).write_hit (o := 0) (k := z)
        (f := fun c => (meshCopy Rd Dd z docc i m).read (Dd + i * z + c)) (hu i (by omega) hd)
        (by omega) hb
      rw [Nat.add_zero] at hw
      rw [hw]
      exact hk hs hsrc hb
    · have hread := ih hu' (by omega) (fun j hj => hne j (by omega))
      split
      next hn =>
        have hw := (hA.congr_pt hpt).write_keeps (o := 0) (k := z)
          (f := fun c => (meshCopy Rd Dd z docc n m).read (Dd + n * z + c)) (hu n (by omega) hn)
          (by omega)
        rw [← hread]
        exact hw (hu i hi hd) (fun e => hin (addr_inj hz e)) hb
      next => exact hread

/-! ## Rebuilding the recipient's freelist -/

/-- The slots that are free in both slabs. -/
def bothFree (Rd z : ℕ) (rocc docc : ℕ → Bool) (n : ℕ) : List ℕ :=
  ((List.range n).filter fun i => !rocc i && !docc i).map fun i => Rd + i * z

theorem bothFree_succ {n : ℕ} : bothFree Rd z rocc docc (n + 1) =
    bothFree Rd z rocc docc n ++ if !rocc n && !docc n then [Rd + n * z] else [] := by
  unfold bothFree
  rw [List.range_succ, List.filter_append, List.map_append]
  by_cases e : (!rocc n && !docc n) = true <;> simp [e]

theorem mem_bothFree {n s : ℕ} : s ∈ bothFree Rd z rocc docc n ↔
    ∃ i < n, rocc i = false ∧ docc i = false ∧ s = Rd + i * z := by
  simp only [bothFree, List.mem_map, List.mem_filter, List.mem_range, Bool.and_eq_true,
    Bool.not_eq_true']
  constructor
  · rintro ⟨i, ⟨hi, h1, h2⟩, rfl⟩
    exact ⟨i, hi, h1, h2, rfl⟩
  · rintro ⟨i, hi, h1, h2, rfl⟩
    exact ⟨i, ⟨hi, h1, h2⟩, rfl⟩

theorem bothFree_nodup (hz : 0 < z) {n : ℕ} : (bothFree Rd z rocc docc n).Nodup :=
  List.Nodup.map (fun _ _ e => addr_inj hz e) (List.nodup_range.filter _)

/-- The rebuild loop links the slots that are free in both slabs, in address order, in front of the
    list it is given. -/
theorem meshRebuild_spec (hz : 0 < z) {n head c : ℕ} {h : Heap} {rest : List ℕ}
    (hA : h.mem.Apart U) (hcell : ∀ s ∈ bothFree Rd z rocc docc n, Cell U s) (hhead : head < 2 ^ 64)
    (hc : Chain (flNext cfg h.mem) (ptr head) rest)
    (hrest : ∀ s ∈ rest, Cell U s ∧ s ∉ bothFree Rd z rocc docc n) :
    ∃ head' m' log', meshRebuild cfg Rd z rocc docc n head c h =
        (head', c + (bothFree Rd z rocc docc n).length, { h with mem := m', log := log' }) ∧
      m'.pt = h.mem.pt ∧ Keeps U (fun s => s ∈ bothFree Rd z rocc docc n) h.mem m' ∧
      Chain (flNext cfg m') (ptr head') (bothFree Rd z rocc docc n ++ rest) ∧
      LinkLog (fun _ => False) h.log log' ∧ ∀ s ∈ bothFree Rd z rocc docc n, Fresh log' s := by
  induction n generalizing head c h rest with
  | zero => exact ⟨head, h.mem, h.log, rfl, rfl, Keeps.refl, by simpa [bothFree] using hc,
      LinkLog.refl, by simp [bothFree]⟩
  | succ n ih =>
    unfold meshRebuild
    rw [bothFree_succ] at hcell hrest ⊢
    by_cases hn : (!rocc n && !docc n) = true
    · rw [if_pos hn] at hcell hrest
      rw [if_pos hn, if_pos hn]
      have hs : Cell U (Rd + n * z) := hcell _ (by simp)
      have hnew : Rd + n * z ∉ bothFree Rd z rocc docc n := by
        intro hm
        obtain ⟨i, hi, -, -, e⟩ := mem_bothFree.mp hm
        have := addr_inj hz e
        omega
      obtain ⟨hlink, hkeep⟩ : flNext cfg (h.mem.writeLE 8 (Rd + n * z) (flEncode cfg (Rd + n * z) head))
          (Rd + n * z) = ptr head ∧ _ := flSet_spec hA hs hhead
      have hnr : Rd + n * z ∉ rest := fun hm => (hrest _ hm).2 (by simp)
      obtain ⟨head', m', log', he, hpt, hk, hch, hlog, hfr⟩ := @ih (Rd + n * z) (c + 1)
        (btmFlSet cfg h (Rd + n * z) head) ((Rd + n * z) :: rest) (hA.congr_pt rfl)
        (fun s hs => hcell s (by simp [hs])) hs.choose_spec.2.2.2
        (flSet_push hA hs hhead hc (fun x hx => (hrest x hx).1) hnr) (fun x hx => by
          rcases List.mem_cons.mp hx with rfl | hx
          · exact ⟨hs, hnew⟩
          · exact ⟨(hrest x hx).1, fun hm => (hrest x hx).2 (by simp [hm])⟩)
      refine ⟨head', m', log', ?_, hpt, ?_, ?_, ?_, ?_⟩
      · rw [he]
        simp only [List.length_append, List.length_singleton]
        rw [show c + 1 + (bothFree Rd z rocc docc n).length =
          c + ((bothFree Rd z rocc docc n).length + 1) by omega]
        rfl
      · have h1 := hkeep.mono (T := fun s => s ∈ bothFree Rd z rocc docc n ++ [Rd + n * z])
          (fun _ e => by simp [e])
        have h2 := hk.mono (T := fun s => s ∈ bothFree Rd z rocc docc n ++ [Rd + n * z])
          (fun _ e => by simp [e])
        exact h1.trans h2
      · rw [List.append_assoc]
        exact hch
      · exact LinkLog.trans LinkLog.set hlog (fun _ hf => hf.elim)
      · intro s hs'
        rcases List.mem_append.mp hs' with hs' | hs'
        · exact hfr s hs'
        · obtain rfl : s = Rd + n * z := by simpa using hs'
          exact hlog.fresh LinkLog.fresh_set
    · rw [if_neg hn, List.append_nil] at hcell hrest
      rw [if_neg hn, if_neg hn, List.append_nil]
      exact ih hA hcell hhead hc hrest

end BtMalloc
