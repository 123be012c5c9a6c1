import BtMalloc.Proofs.LargeProofs

/-!
# Proofs: `btm_large_realloc`

The object leaves the ledger while its mapping is moved or resized, and comes back where the kernel put
it. Its bytes travel with it.
-/

namespace BtMalloc

open LinkedList PagedMemory Word

variable {cfg : Config} {k : Kernel} {X : ℕ → Prop} {B : ℕ → ℕ → Prop} {h h' : Heap}
  {bins : ℕ → ℕ → Bin} {L : Ledger} {b nb len newLen v n p newsz : ℕ} {hd hd' : LargeHdr}

/-! ## `mremap` -/

/-- A mapping of `len` bytes at `b` that goes to `newLen` bytes at `nb`: to pages that are not mapped, or
    partly to its own. -/
structure Remapping (h : Heap) (b len nb newLen : ℕ) : Prop where
  base_mod : b % 4096 = 0
  len_mod : len % 4096 = 0
  nb_mod : nb % 4096 = 0
  new_mod : newLen % 4096 = 0
  old_le : b + len ≤ 2 ^ 47
  frame : ∀ {i}, i < len → h.mem.pt ((b + i) / 4096) = .anon ((b + i) / 4096)
  /-- The old mapping keeps no page of the new one, unless the object stays where it is. -/
  apart : nb = b ∨ b + len ≤ nb ∨ nb + newLen ≤ b
  fresh : ∀ {p}, inRun (nb / 4096) (newLen / 4096) p → h.mapped p = false ∨ inRun (b / 4096) (len / 4096) p

/-- The memory after `mremap`, before the bytes of a moved object are there. -/
def remapZero (h : Heap) (len nb newLen : ℕ) : Mem :=
  (h.mem.remap (nb / pageSize) (newLen / pageSize) fun i => .anon (nb / pageSize + i)).zero
    (anonIn (nb + min len newLen) (newLen - min len newLen))

/-- The heap with the new mapping and the whole old one, but for the header that travels along. -/
def remapBoth (h : Heap) (b len nb newLen : ℕ) : Heap :=
  { h with
    mem := if nb = b then remapZero h len nb newLen
      else (remapZero h len nb newLen).write nb (min len newLen) fun i => h.mem.read (b + i)
    mapped := fun p => inPages nb newLen p || h.mapped p }

/-- What `mremap` leaves of both: the new mapping. -/
def remapTrim (h : Heap) (b len nb newLen : ℕ) : Heap :=
  if nb ≠ b then h.munmap b len
  else if newLen < len then h.munmap (b + newLen) (len - newLen)
  else h

theorem munmap_larges (larges : ℕ → LargeHdr) : Heap.munmap { h with larges := larges } b len =
    { h.munmap b len with larges := larges } := by
  unfold Heap.munmap
  split <;> rfl

theorem mremap_eq : h.mremap b len nb newLen =
    { remapTrim (remapBoth h b len nb newLen) b len nb newLen with
      larges := Function.update h.larges nb (h.larges b) } := by
  show (if nb ≠ b then Heap.munmap { remapBoth h b len nb newLen with larges := _ } b len
    else if newLen < len then Heap.munmap { remapBoth h b len nb newLen with larges := _ } (b + newLen)
      (len - newLen) else _) = _
  unfold remapTrim
  split
  · exact munmap_larges _
  · split
    · exact munmap_larges _
    · rfl

theorem remapZero_pt (p : ℕ) : (remapZero h len nb newLen).pt p =
    if nb / 4096 ≤ p ∧ p < nb / 4096 + newLen / 4096 then .anon p else h.mem.pt p := by
  show (h.mem.remap (nb / 4096) (newLen / 4096) fun i => .anon (nb / 4096 + i)).pt p = _
  rw [remap_pt]
  split_ifs with hp
  · rw [Nat.add_sub_cancel' hp.1]
  · rfl

theorem remapBoth_pt (p : ℕ) : (remapBoth h b len nb newLen).mem.pt p =
    if nb / 4096 ≤ p ∧ p < nb / 4096 + newLen / 4096 then .anon p else h.mem.pt p := by
  rw [← remapZero_pt]
  unfold remapBoth
  dsimp only
  split <;> rfl

namespace Remapping

variable (M : Remapping h b len nb newLen)
include M

theorem vacant (H : HeapRep cfg h bins L) (S : L.Sound cfg) (V : Vacant L h (b / 4096) (len / 4096)) :
    Vacant L h (nb / 4096) (newLen / 4096) := by
  refine H.vacant_of S (fun {c j} hc hj hr => ?_) (fun {b' hd' j} hb hj hr => ?_)
  · rcases M.fresh hr with e | e
    · exact Bool.false_ne_true (e.symm.trans (H.space.chunk hc hj))
    · exact V.chunk hc hj e
  · rcases M.fresh hr with e | e
    · exact Bool.false_ne_true (e.symm.trans ((H.space.large hb).mapped hj))
    · exact V.large hb hj e

/-- The frame behind a byte of the new mapping. -/
theorem frame_new {i : ℕ} (hi : i < newLen) :
    (remapZero h len nb newLen).pt ((nb + i) / 4096) = .anon ((nb + i) / 4096) := by
  have h1 := M.nb_mod
  have h2 := M.new_mod
  rw [remapZero_pt, if_pos ⟨by omega, by omega⟩]

/-- Two bytes of the new mapping have different places. -/
theorem loc_inj {i j : ℕ} (hi : i < newLen) (hj : j < newLen)
    (e : (remapZero h len nb newLen).loc (nb + j) = (remapZero h len nb newLen).loc (nb + i)) : j = i := by
  simp only [PagedMemory.loc, Prod.mk.injEq] at e
  rw [M.frame_new hi, M.frame_new hj] at e
  have := Frame.anon.inj e.1
  omega

theorem read_same (e : nb = b) {i : ℕ} (h1 : i < min len newLen) :
    (remapZero h len nb newLen).read (nb + i) = h.mem.read (b + i) := by
  have hlm := M.len_mod
  have hbm := M.nb_mod
  have hnm := M.new_mod
  have hf := M.frame_new (i := i) (by omega)
  have hold := M.frame (i := i) (by omega)
  subst e
  have hpt : (h.mem.remap (nb / pageSize) (newLen / pageSize) fun i => .anon (nb / pageSize + i)).pt
      ((nb + i) / 4096) = .anon ((nb + i) / 4096) := hf
  refine (PagedMemory.read_zero ..).trans ((if_neg ?_).trans ?_)
  · rw [pageSize_eq] at *
    rw [hpt]
    simp only [anonIn, inPages_iff]
    omega
  · show (PagedMemory.bytes _ (PagedMemory.pt _ ((nb + i) / 4096)) _) = h.mem.bytes (h.mem.pt ((nb + i) / 4096)) _
    rw [hpt, hold]
    rfl

/-- The object's bytes travel with it. -/
theorem read_new {i : ℕ} (hk : i < min len newLen) :
    (remapBoth h b len nb newLen).mem.read (nb + i) = h.mem.read (b + i) := by
  unfold remapBoth
  dsimp only
  by_cases e : nb = b
  · rw [if_pos e]
    exact M.read_same e hk
  · rw [if_neg e]
    exact read_write_hit _ _ _ _ hk fun j hj e => M.loc_inj (by omega) (by omega) e

/-- Units off the new mapping keep their bytes. -/
theorem keeps (V : Vacant L h (nb / 4096) (newLen / 4096)) :
    Keeps L.Unit (fun _ => False) h.mem (remapBoth h b len nb newLen).mem := by
  intro a m i hu _ hi
  have hno : ¬ (nb / 4096 ≤ (a + i) / 4096 ∧ (a + i) / 4096 < nb / 4096 + newLen / 4096) := V.unit hu hi
  have hbm := M.nb_mod
  have hnm := M.new_mod
  have hz : (remapZero h len nb newLen).read (a + i) = h.mem.read (a + i) := by
    refine (PagedMemory.read_zero ..).trans ((if_neg ?_).trans (read_remap_outside _ _ _ _ hno))
    rw [pageSize_eq, remap_pt, if_neg hno]
    cases hf : h.mem.pt ((a + i) / 4096) with
    | memfd f => simp [anonIn]
    | anon f =>
      simp only [anonIn, inPages_iff]
      intro hc
      exact V.frame hu hi (p := f) ⟨by omega, by omega⟩ hf
  unfold remapBoth
  dsimp only
  split_ifs
  · exact hz
  · rw [read_write_miss _ _ _ _ fun j hj e => ?_]
    · exact hz
    · simp only [PagedMemory.loc, Prod.mk.injEq] at e
      rw [M.frame_new (i := j) (by omega), remapZero_pt, if_neg hno] at e
      exact V.frame hu hi (p := (nb + j) / 4096) ⟨by omega, by omega⟩ e.1.symm

/-- Mapping the new pages. -/
theorem touched (cfg : Config) (V : Vacant L h (nb / 4096) (newLen / 4096)) :
    Touched cfg L (nb / 4096) (newLen / 4096) h (remapBoth h b len nb newLen) := by
  have hnm := M.nb_mod
  have hn := M.new_mod
  refine ⟨rfl, fun {p} hp => ?_, fun _ hall p => ?_, fun {p} hp => ?_, M.keeps V, [], rfl, by simp⟩
  · rw [remapBoth_pt]
    exact if_neg hp
  · rw [remapBoth_pt]
    split
    · rfl
    · exact hall p
  · show (inPages nb newLen p || h.mapped p) = _
    have : inPages nb newLen p = false := by
      rw [Bool.eq_false_iff, ne_eq, inPages_iff]
      exact fun hc => hp ⟨hc.1, by omega⟩
    rw [this, Bool.false_or]

omit M in
/-- The old pages are still vacant then. -/
theorem vacant_old (V : Vacant L h (nb / 4096) (newLen / 4096)) (V' : Vacant L h (b / 4096) (len / 4096)) :
    Vacant L (remapBoth h b len nb newLen) (b / 4096) (len / 4096) := by
  refine ⟨V'.chunk, V'.large, V'.unit, fun {a m i p} hu hi hr => ?_⟩
  have hno : ¬ (nb / 4096 ≤ (a + i) / 4096 ∧ (a + i) / 4096 < nb / 4096 + newLen / 4096) := V.unit hu hi
  rw [remapBoth_pt, if_neg hno]
  exact V'.frame hu hi hr

/-- Unmapping what is left of the old pages spares the new ones. -/
theorem trim (cfg : Config) (L : Ledger) (h' : Heap) : Touched cfg L (b / 4096) (len / 4096) h' (remapTrim h' b len nb newLen) ∧
    Spared (nb / 4096) (newLen / 4096) h'.log (remapTrim h' b len nb newLen).log ∧
    (remapTrim h' b len nb newLen).mem = h'.mem ∧
    ∀ {p}, inRun (nb / 4096) (newLen / 4096) p → (remapTrim h' b len nb newLen).mapped p = h'.mapped p := by
  have hbm := M.base_mod
  have hlm := M.len_mod
  have hnm := M.nb_mod
  have hn := M.new_mod
  have hle := M.old_le
  have hap := M.apart
  -- one unmapping, off the new pages
  have cut : ∀ {a m}, b ≤ a → a + m ≤ b + len → a % 4096 = 0 → m % 4096 = 0 →
      (a + m ≤ nb ∨ nb + newLen ≤ a) →
      Touched cfg L (b / 4096) (len / 4096) h' (h'.munmap a m) ∧
      Spared (nb / 4096) (newLen / 4096) h'.log (h'.munmap a m).log ∧ (h'.munmap a m).mem = h'.mem ∧
      ∀ {p}, inRun (nb / 4096) (newLen / 4096) p → (h'.munmap a m).mapped p = h'.mapped p := by
    intro a m h1 h2 h3 h4 h5
    refine ⟨Touched.refl.munmap (by omega) (by omega) h3 h4, ?_⟩
    unfold Heap.munmap
    rw [if_pos (by omega)]
    refine ⟨⟨[.unmap (a / 4096) (m / 4096)], rfl, fun e he => ?_⟩, rfl, fun {p} hp => ?_⟩
    · obtain rfl := List.mem_singleton.mp he
      exact ⟨_, _, rfl, by omega⟩
    · show (!inPages a m p && h'.mapped p) = _
      have : inPages a m p = false := by
        rw [Bool.eq_false_iff, ne_eq, inPages_iff]
        intro hc
        have := hp.1
        have := hp.2
        omega
      rw [this]
      rfl
  unfold remapTrim
  split_ifs with e hlt
  · exact cut (le_refl _) (le_refl _) hbm hlm (by omega)
  · exact cut (by omega) (by omega) (by omega) (by omega) (by omega)
  · exact ⟨.refl, ⟨[], rfl, by simp⟩, rfl, fun _ => rfl⟩

end Remapping

/-- What a successful `mremap` says about the kernel's answer. -/
theorem mremapResult_some (hr : mremapResult k h b len newLen = some nb) (ho : LargeOk h.mem.pt h.mapped b hd)
    (hlen : len = hd.mapLen) (hm : newLen % 4096 = 0) :
    k.mremap = some nb ∧ 0 < nb ∧ nb + newLen ≤ 2 ^ 47 ∧ Remapping h b len nb newLen := by
  subst hlen
  have hbm : b % 4096 = 0 := ho.base_mod
  have hlm : hd.mapLen % 4096 = 0 := ho.len_mod
  have hpos := ho.base_pos
  have hle := ho.le
  have hlt := ho.off_lt
  have hframe : ∀ {i}, i < hd.mapLen → h.mem.pt ((b + i) / 4096) = .anon ((b + i) / 4096) :=
    fun hi => ho.frame_byte hi
  obtain ⟨hk, hr⟩ := Option.filter_eq_some_iff.mp hr
  rw [Bool.and_eq_true] at hr
  replace hr := hr.2
  split_ifs at hr with e
  · subst e
    simp only [Bool.and_eq_true, Nat.blt_eq, Nat.ble_eq, List.all_eq_true, List.mem_range'_1, Bool.not_eq_true',
      pageSize_eq] at hr
    obtain ⟨⟨-, h2⟩, h3⟩ := hr
    refine ⟨hk, hpos, h2, hbm, hlm, hbm, hm, hle, hframe, Or.inl rfl, fun {p} hp => ?_⟩
    by_cases hin : inRun (nb / 4096) (hd.mapLen / 4096) p
    · exact Or.inr hin
    · obtain ⟨p1, p2⟩ := hp
      unfold inRun at hin
      exact Or.inl (h3 p ⟨by omega, by omega⟩)
  · obtain ⟨h1, h2, h3, h4, h5⟩ := freshRange_spec hr
    refine ⟨hk, h2, h4, hbm, hlm, h1, hm, hle, hframe, ?_, fun hp => Or.inl (h5 hp)⟩
    -- a page in both would be mapped and not mapped
    by_contra hc
    have hfree : ∀ {j}, j < hd.mapLen / 4096 → ¬ inRun (nb / 4096) (newLen / 4096) (b / 4096 + j) :=
      fun hj hp => Bool.false_ne_true ((h5 hp).symm.trans (ho.mapped hj))
    by_cases hb : nb ≤ b
    · exact hfree (j := 0) (by omega) ⟨by omega, by omega⟩
    · exact hfree (j := nb / 4096 - b / 4096) (by omega) ⟨by omega, by omega⟩

/-! ## The header -/

/-- A header that says the same about the mapping. -/
theorem Ledger.covers_setLarge (hl : L.large b = some hd) (e : hd'.mapLen = hd.mapLen) {key w : ℕ} :
    (L.setLarge b (some hd')).Covers key w ↔ L.Covers key w := by
  constructor
  · intro hc
    rcases hc.of_setLarge with ⟨h1, h2, rfl⟩ | hc
    · exact .large hl h1 (e ▸ h2)
    · exact hc
  · intro hc
    cases hc with
    | chunk hh => exact .chunk hh
    | @large b' hd'' hb h1 h2 =>
      by_cases eb : b' = b
      · subst eb
        obtain rfl := Option.some.inj (hl.symm.trans hb)
        exact .large Ledger.setLarge_self h1 (e.symm ▸ h2)
      · exact .large ((Ledger.setLarge_of_ne eb).trans hb) h1 h2

/-- The object of a ledger with another header, and its mapping. -/
theorem Ledger.setLarge_some (hl : L.large b = some hd) {x : ℕ} {hx : LargeHdr}
    (hb : (L.setLarge b (some hd')).large x = some hx) :
    x = b ∧ hx = hd' ∨ x ≠ b ∧ L.large x = some hx := by
  by_cases e : x = b
  · subst e
    rw [Ledger.setLarge_self] at hb
    exact Or.inl ⟨rfl, (Option.some.inj hb).symm⟩
  · rw [Ledger.setLarge_of_ne e] at hb
    exact Or.inr ⟨e, hb⟩

/-- Writing a header that says the same about the mapping. -/
theorem HeapRep.rehead (H : HeapRep cfg h bins L) (hl : L.large b = some hd) (e : hd'.mapLen = hd.mapLen)
    (eo : hd'.userOff = hd.userOff) :
    HeapRep cfg { h with larges := Function.update h.larges b hd' } bins (L.setLarge b (some hd')) := by
  refine ⟨H.desc, H.lists, H.tally, fun q c hc => (H.header q c hc).congr rfl rfl fun _ _ hx => hx,
    H.chunks, H.depot.congr rfl rfl, H.free, H.bins, H.frame.congr rfl rfl rfl fun _ _ hx => hx,
    ⟨H.space.chunk, fun {x hx} hb => ?_, fun {x hx} hb => ?_, fun h1 h2 => ?_⟩, fun key hk hne => ?_,
    ⟨H.log.good, H.log.free, H.log.bin⟩⟩
  · rcases Ledger.setLarge_some hl hb with ⟨rfl, rfl⟩ | ⟨-, hb⟩
    · have ho := H.space.large hl
      exact ⟨ho.base_mod, ho.base_pos, e ▸ ho.len_mod, e ▸ ho.le, eo ▸ ho.off_ge, eo ▸ ho.off_mod,
        e ▸ eo ▸ ho.off_lt, fun hj => ho.mapped (e ▸ hj), fun hj => ho.frame (e ▸ hj)⟩
    · exact H.space.large hb
  · rcases Ledger.setLarge_some hl hb with ⟨rfl, rfl⟩ | ⟨hne, hb⟩
    · exact Function.update_self ..
    · exact (Function.update_of_ne hne ..).trans (H.space.header hb)
  · exact H.space.unique ((Ledger.covers_setLarge hl e).mp h1) ((Ledger.covers_setLarge hl e).mp h2)
  · exact (Ledger.covers_setLarge hl e).mpr (H.owner key hk hne)

theorem rehead_effect (hl : L.large b = some hd) (e : hd'.mapLen = hd.mapLen) :
    Effect k X B h L { h with larges := Function.update h.larges b hd' } (L.setLarge b (some hd')) := by
  refine ⟨fun a n hc _ => ?_, Keeps.refl, ⟨[], rfl, Clear.nil, fun _ _ hc => Or.inl hc⟩, le_refl _,
    fun _ _ _ _ => rfl, fun key _ hN w hw => hN ((Ledger.covers_setLarge hl e).mp hw), .refl, fun _ => Or.inl,
    rfl, rfl⟩
  cases hc with
  | slot ho hs => exact .slot ho hs
  | @large _ hx hx =>
    by_cases eb : a = b
    · subst eb
      obtain rfl := Option.some.inj (hl.symm.trans hx)
      rw [← e]
      exact .large Ledger.setLarge_self
    · exact .large ((Ledger.setLarge_of_ne eb).trans hx)

/-! ## `btm_large_realloc` -/

/-- The ledger with the object at `b` at `nb` instead, under header `hd`. -/
def Ledger.rehouse (L : Ledger) (b nb : ℕ) (hd : LargeHdr) : Ledger := (L.setLarge b none).setLarge nb (some hd)

/-- The object at `b` goes on at `nb`. -/
structure Rehoused (cfg : Config) (k : Kernel) (bins : ℕ → ℕ → Bin) (h : Heap) (L : Ledger) (b : ℕ)
    (hd : LargeHdr) (nb : ℕ) (hd' : LargeHdr) (h' : Heap) : Prop where
  done : Outcome cfg k (fun x => x = b ∨ x = nb) (fun _ _ => False) (fun _ _ => False) h L h' bins
    (L.rehouse b nb hd')
  off : hd'.userOff = hd.userOff
  place : nb = b ∨ k.mremap = some nb ∧ L.large nb = none
  bytes : ∀ i < min hd.mapLen hd'.mapLen, h'.mem.read (nb + i) = h.mem.read (b + i)
  gone : nb ≠ b → ∀ j < hd.mapLen / pageSize, h'.mapped (b / pageSize + j) = false
  chunks : h'.chunks = h.chunks

theorem Ledger.rehouse_self : (L.rehouse b nb hd).large nb = some hd := Ledger.setLarge_self

theorem Ledger.rehouse_same : L.rehouse b b hd = L.setLarge b (some hd) := by
  simp only [Ledger.rehouse, Ledger.setLarge, Function.update_idem]

theorem Ledger.rehouse_moved : L.Moved (L.rehouse b nb hd) (fun x => x = b ∨ x = nb) (fun _ _ => False)
    fun _ _ => False :=
  ⟨fun _ _ _ _ ho _ hs => ⟨ho, hs⟩, fun _ ho _ => ho, fun _ _ _ => rfl, fun _ _ => Or.inl, fun x e => by
    rw [not_or] at e
    rw [Ledger.rehouse, Ledger.setLarge_of_ne e.2, Ledger.setLarge_of_ne e.1]⟩

theorem Ledger.rehouse_tidy : L.Tidy (L.rehouse b nb hd) :=
  ⟨fun U => ⟨U.stage, U.place⟩, id, fun _ _ _ _ hs hv => ⟨hs, hv⟩⟩

/-- Dropping the registry entries, moving or resizing the mapping, and setting the entries again. -/
theorem rehoused_of_touched (hd' : LargeHdr) (H : HeapRep cfg h bins L) (S : L.Sound cfg) (D : L.Settled)
    (hl : L.large b = some hd) {T1 : OwnerTable}
    (hst : Stored k 0 (regionKeys b hd.mapLen) h.owners T1) {h1 h2 : Heap}
    (e1 : h1 = { h with owners := T1, registryGen := h.registryGen + 1 })
    (hE : Effect k (fun x => x = b ∨ x = nb) (L.setLarge b none).Unit h1 (L.setLarge b none) h2 (L.setLarge b none))
    (H2 : HeapRep cfg h2 bins (L.setLarge b none))
    (Sp : Spared (nb / 4096) (hd'.mapLen / 4096) h1.log h2.log)
    (ho : LargeOk h2.mem.pt h2.mapped nb hd') (hn : (L.setLarge b none).Unowned nb hd'.mapLen)
    (hoff : hd'.userOff = hd.userOff) (hpl : nb = b ∨ k.mremap = some nb)
    (hby : ∀ i < min hd.mapLen hd'.mapLen, h2.mem.read (nb + i) = h.mem.read (b + i))
    (hgone : nb ≠ b → ∀ j < hd.mapLen / pageSize, h2.mapped (b / pageSize + j) = false)
    (hch : h2.chunks = h.chunks) {larges : ℕ → LargeHdr} (hself : larges nb = hd')
    (hother : ∀ x, x ≠ nb → larges x = h2.larges x) :
    Rehoused cfg k bins h L b hd nb hd'
      (btmRegistryInsert k { h2 with larges := larges } nb hd'.mapLen (nb ||| 1)) := by
  subst e1
  have hlt := ho.off_lt
  have hbm : nb % 4096 = 0 := ho.base_mod
  have hlm : hd'.mapLen % 4096 = 0 := ho.len_mod
  obtain ⟨T2, e2, hst2⟩ := btmRegistryInsert_spec k { h2 with larges := larges } (nb ||| 1) nb hd'.mapLen
    (by omega) ho.le
  have hnone := hn.none (by omega) H2.space
  have E := ((H.dropLarge_effect (X := fun x => x = b ∨ x = nb) S hl (Or.inl rfl) hst).trans hE).trans
    (H2.addLarge_effect S.setLarge hn ho larges hst2)
  rw [e2]
  refine ⟨⟨S.setLarge.setLarge, D.setLarge.setLarge, H2.addLarge hn ho hst2 hself hother, ?_,
    Ledger.rehouse_moved, Ledger.rehouse_tidy⟩, hoff, ?_, hby, hgone, hch⟩
  · obtain ⟨ev, hev, hU, -⟩ := E.log
    exact E.reclear hev ((Sp.clear (a := nb) (m := hd'.mapLen) hev hU (by omega) (by omega)).mono
      fun hb => hb.of_setLarge)
  · by_cases e : nb = b
    · exact Or.inl e
    · exact Or.inr ⟨hpl.resolve_left e, (Ledger.setLarge_of_ne e).symm.trans hnone⟩

/-- `new_total` of a request that does not wrap. -/
theorem newTotal_spec (hf : hd.userOff + newsz + 4095 < 2 ^ 64) :
    hd.userOff + newsz ≤ newTotal hd newsz ∧ newTotal hd newsz % 4096 = 0 := by
  unfold newTotal
  rw [Nat.mod_eq_of_lt (by omega)]
  obtain ⟨h1, -, h3⟩ := roundUp_spec (v := hd.userOff + newsz) (k := 12) (by omega) (by omega)
  exact ⟨h1, Nat.mod_eq_zero_of_dvd h3⟩

/-- The object's own regions are free once it is gone. -/
theorem HeapRep.unowned_drop (H : HeapRep cfg h bins L) (hl : L.large b = some hd) :
    (L.setLarge b none).Unowned b hd.mapLen :=
  fun _ _ h1 h2 hc => hc.of_drop.2 hd hl H.space ⟨h1, h2⟩

/-- The kernel has no room: everything is as before. -/
theorem rehoused_refused (H : HeapRep cfg h bins L) (S : L.Sound cfg) (D : L.Settled)
    (hl : L.large b = some hd) :
    Rehoused cfg k bins h L b hd b hd
      (btmRegistryInsert k (btmRegistryRemove k h b hd.mapLen) b hd.mapLen (b ||| 1)) := by
  have ho := H.space.large hl
  have hlt := ho.off_lt
  obtain ⟨T1, e1, hst⟩ := btmRegistryRemove_spec k h b hd.mapLen (by omega) ho.le
  have H1 := H.dropLarge hl (h.registryGen + 1) hst
  rw [e1]
  exact rehoused_of_touched hd H S D hl hst rfl Effect.refl H1 ⟨[], rfl, by simp⟩ ho (H.unowned_drop hl) rfl
    (Or.inl rfl) (fun _ _ => rfl) (fun h => absurd rfl h) rfl (H.space.header hl) fun _ _ => rfl

/-- The mapping is moved or resized. -/
theorem rehoused_remap (H : HeapRep cfg h bins L) (S : L.Sound cfg) (D : L.Settled)
    (hl : L.large b = some hd) (hsz : 0 < newsz) (hf : hd.userOff + newsz + 4095 < 2 ^ 64)
    (hr : mremapResult k (btmRegistryRemove k h b hd.mapLen) b hd.mapLen (newTotal hd newsz) = some nb)
    (hn : (L.setLarge b none).Unowned nb (newTotal hd newsz)) :
    Rehoused cfg k bins h L b hd nb ⟨newTotal hd newsz, hd.userOff, newsz⟩
      (btmRegistryInsert k
        { (btmRegistryRemove k h b hd.mapLen).mremap b hd.mapLen nb (newTotal hd newsz) with
          larges := Function.update ((btmRegistryRemove k h b hd.mapLen).mremap b hd.mapLen nb
            (newTotal hd newsz)).larges nb ⟨newTotal hd newsz, hd.userOff, newsz⟩ }
        nb (newTotal hd newsz) (nb ||| 1)) := by
  have ho := H.space.large hl
  have hlt := ho.off_lt
  obtain ⟨hge, hmod⟩ := newTotal_spec hf
  obtain ⟨T1, e1, hst⟩ := btmRegistryRemove_spec k h b hd.mapLen (by omega) ho.le
  have H1 := H.dropLarge hl (h.registryGen + 1) hst
  have V' := H.vacant_drop S hl H1
  rw [e1] at hr ⊢
  generalize eh : ({ h with owners := T1, registryGen := h.registryGen + 1 } : Heap) = h1 at *
  have hm1 : h1.mem = h.mem := by rw [← eh]
  have ho1 : LargeOk h1.mem.pt h1.mapped b hd := by rw [← eh]; exact ho
  generalize newTotal hd newsz = total at *
  obtain ⟨hk, hpos, hle, M⟩ := mremapResult_some hr ho1 rfl hmod
  have V := M.vacant H1 S.setLarge V'
  have T := M.touched cfg V
  have V2 := Remapping.vacant_old V V'
  obtain ⟨T2, Sp, hmem, hmap⟩ := M.trim cfg (L.setLarge b none)
    (remapBoth h1 b hd.mapLen nb total)
  rw [mremap_eq]
  refine rehoused_of_touched ⟨total, hd.userOff, newsz⟩ H S D hl hst eh.symm
    ((T.effect V).trans (T2.effect V2)) (T2.rep V2 (T.rep V H1 S.setLarge) S.setLarge) Sp ?_ hn rfl (Or.inr hk) (fun i hi => ?_) (fun hne j hj => ?_) ?_ (Function.update_self ..) fun x hx => ?_
  · refine ⟨M.nb_mod, hpos, hmod, hle, ho.off_ge, ho.off_mod, by dsimp only; omega, fun {j} hj => ?_,
      fun {j} hj => ?_⟩
    · have hin : inRun (nb / 4096) (total / 4096) (nb / 4096 + j) := ⟨by omega, Nat.add_lt_add_left hj _⟩
      have hnm := M.nb_mod
      refine (hmap hin).trans ?_
      show (inPages nb total _ || _) = true
      have := hin.2
      rw [Bool.or_eq_true]
      refine Or.inl ?_
      rw [inPages_iff]
      omega
    · rw [hmem, pageSize_eq, remapBoth_pt]
      exact if_pos ⟨by omega, Nat.add_lt_add_left hj _⟩
  · rw [hmem, M.read_new hi, hm1]
  · have hbm := M.base_mod
    have hlm := M.len_mod
    rw [pageSize_eq] at hj
    show (remapTrim _ b hd.mapLen nb total).mapped _ = false
    unfold remapTrim Heap.munmap
    rw [if_pos hne, if_pos M.old_le]
    show (!inPages b hd.mapLen (b / pageSize + j) && _) = false
    rw [inPages_iff.mpr ⟨by rw [pageSize_eq]; omega, by rw [pageSize_eq]; omega⟩]
    rfl
  · rw [T2.same, T.same, ← eh]
  · have e2 : (remapTrim (remapBoth h1 b hd.mapLen nb total) b hd.mapLen nb total).larges = h1.larges := by
      rw [T2.same, T.same]
    rw [e2]
    exact (Function.update_of_ne hx ..).trans (Function.update_of_ne hx ..)

/-- What `mremap` answers does not depend on the table. -/
theorem mremapResult_remove {m : ℕ} (ho : LargeOk h.mem.pt h.mapped b hd) :
    mremapResult k (btmRegistryRemove k h b hd.mapLen) b hd.mapLen m = mremapResult k h b hd.mapLen m := by
  have hlt := ho.off_lt
  obtain ⟨T1, e1, -⟩ := btmRegistryRemove_spec k h b hd.mapLen (by omega) ho.le
  rw [e1]
  rfl

/-- `btm_large_realloc` of a live object: the kernel refuses and the object stays, or it is where the call
    says. -/
theorem btmLargeRealloc_spec (H : HeapRep cfg h bins L) (S : L.Sound cfg) (D : L.Settled)
    (hl : L.large b = some hd) (hsz : 0 < newsz)
    (hf : hd.userOff + newsz + (pageSize - 1) < 2 ^ 64 ∨
      newTotal hd newsz ≠ hd.mapLen ∧ remapAnswer k h b newsz = none)
    (hn : ∀ nb, remapAnswer k h b newsz = some nb → (L.setLarge b none).Unowned nb (newTotal hd newsz)) :
    ∃ q h' nb hd', btmLargeRealloc k h b (b + hd.userOff) newsz = .ok (q, h') ∧
      Rehoused cfg k bins h L b hd nb hd' h' ∧
      (q = 0 ∧ nb = b ∧ hd' = hd ∧ newTotal hd newsz ≠ hd.mapLen ∧ remapAnswer k h b newsz = none ∨
        q = nb + hd.userOff ∧ hd.userOff + newsz ≤ hd'.mapLen) := by
  have ho := H.space.large hl
  have hlt := ho.off_lt
  rw [remapAnswer, H.space.header hl] at hf hn ⊢
  unfold btmLargeRealloc
  rw [H.largeHeader hl]
  dsimp only
  by_cases et : newTotal hd newsz = hd.mapLen
  · -- only the header changes
    rw [if_pos et]
    have hf := hf.resolve_right fun hc => hc.1 et
    obtain ⟨hge, -⟩ := newTotal_spec hf
    refine ⟨_, _, b, { hd with reqSize := newsz }, rfl, ⟨⟨S.setLarge.setLarge, D.setLarge.setLarge, ?_, ?_,
      Ledger.rehouse_moved, Ledger.rehouse_tidy⟩, rfl, Or.inl rfl, fun _ _ => rfl, fun h => absurd rfl h, rfl⟩,
      Or.inr ⟨rfl, ?_⟩⟩
    · rw [Ledger.rehouse_same]
      exact H.rehead hl rfl rfl
    · rw [Ledger.rehouse_same]
      exact rehead_effect hl rfl
    · dsimp only
      omega
  · rw [if_neg et] at hf hn ⊢
    rw [mremapResult_remove ho]
    cases hr : mremapResult k h b hd.mapLen (newTotal hd newsz) with
    | none => exact ⟨_, _, b, hd, rfl, rehoused_refused H S D hl, Or.inl ⟨rfl, rfl, rfl, et, if_neg et⟩⟩
    | some nb =>
      have hf := hf.resolve_right fun hc => by simp [hr] at hc
      obtain ⟨hge, hmod⟩ := newTotal_spec hf
      obtain ⟨-, -, hle, -⟩ := mremapResult_some hr ho rfl hmod
      refine ⟨_, _, nb, _, rfl, rehoused_remap H S D hl hsz hf ((mremapResult_remove ho).trans hr) (hn nb hr), Or.inr ⟨?_, hge⟩⟩
      exact Nat.mod_eq_of_lt (by omega)

/-! ## Regions that nobody owns -/

/-- Vacant pages that start at a region are in regions that nobody owns, as long as objects start at
    regions. -/
theorem Vacant.unowned (V : Vacant L h (b / 4096) (len / 4096)) (H : HeapRep cfg h bins L)
    (A : L.Aligned) (hb : b % chunkSize = 0) (hlen : 0 < len)
    (hmod : len % 4096 = 0) : L.Unowned b len := by
  intro key w h1 h2 hc
  rw [chunkSize_eq] at h1 h2 hb
  have hin : inRun (b / 4096) (len / 4096) (key * 512) := ⟨by omega, by omega⟩
  cases hc with
  | chunk hh =>
    have := V.chunk hh (j := 0) (by decide)
    rw [chunkSize_eq, show key * 2097152 / 4096 + 0 = key * 512 by omega] at this
    exact this hin
  | @large b' hd hl h3 h4 =>
    have hlm := (H.space.large hl).len_mod
    have hlt := (H.space.large hl).off_lt
    have hal := A hl
    rw [chunkSize_eq] at h3 h4 hal
    rw [pageSize_eq] at hlm
    have := V.large hl (j := key * 512 - b' / 4096) (by omega)
    rw [show b' / 4096 + (key * 512 - b' / 4096) = key * 512 by omega] at this
    exact this hin

/-- A region with no mapped page has no owner. -/
theorem HeapRep.uncovered {key w : ℕ} (H : HeapRep cfg h bins L)
    (hfree : ∀ j < pagesPerChunk, h.mapped (key * pagesPerChunk + j) = false) : ¬ L.Covers key w := by
  intro hc
  rw [pagesPerChunk_eq] at hfree
  cases hc with
  | chunk hh =>
    have hm := H.space.chunk hh (j := 0) (by decide)
    have e : key * chunkSize / pageSize + 0 = key * 512 + 0 := by
      rw [chunkSize_eq, pageSize_eq]
      omega
    rw [e, hfree 0 (by decide)] at hm
    cases hm
  | @large b hd hl h1 h2 =>
    have ho := H.space.large hl
    have hbm := ho.base_mod
    have hlm := ho.len_mod
    have hlt := ho.off_lt
    rw [chunkSize_eq] at h1 h2
    rw [pageSize_eq] at hbm hlm
    -- the object has a page in the region: the first of the region, or its own first
    obtain ⟨j, i, hj, hi, e⟩ : ∃ j i, j < hd.mapLen / 4096 ∧ i < 512 ∧ b / 4096 + j = key * 512 + i := by
      by_cases hle : b / 4096 ≤ key * 512
      · exact ⟨key * 512 - b / 4096, 0, by omega, by omega, by omega⟩
      · exact ⟨0, b / 4096 - key * 512, by omega, by omega, by omega⟩
    have hm := ho.mapped (j := j) (by rw [pageSize_eq]; exact hj)
    rw [pageSize_eq, e, hfree i hi] at hm
    cases hm

theorem HeapRep.unowned (H : HeapRep cfg h bins L) (hfree : RegionsFree h b len) : L.Unowned b len :=
  fun key _ h1 h2 => H.uncovered (hfree key h1 h2)

/-- The object of a large request is placed in regions that nobody owns: they are free, or all objects start
    at regions. -/
theorem HeapRep.unowned_alloc {e size raw : ℕ} (H : HeapRep cfg h bins L) (S : L.Sound cfg)
    (hf : Fits size (2 ^ e)) (hsz : 0 < size)
    (hres : mmapResult h k.large (largeWant size (2 ^ e)) = some raw)
    (hpl : RegionsFree h (largeBase raw (2 ^ e)) (largeTotal size (2 ^ e)) ∨ L.Aligned) :
    L.Unowned (largeBase raw (2 ^ e)) (largeTotal size (2 ^ e)) := by
  rcases hpl with hfree | A
  · exact H.unowned hfree
  · have Z := hf.sized
    obtain ⟨hmod, hpos, -, hle, hun⟩ := freshRange_spec (Option.filter_eq_some_iff.mp hres).2
    obtain ⟨b1, b2, b3, -, b5⟩ := Z.base hle
    have ht := Z.total_ge
    have htm := Z.total_mod
    rw [largeBase, Z.balign]
    generalize 2 ^ max (max e 4) 21 = al at *
    refine (H.vacant S fun {p} hp => hun ?_).unowned H A (by rwa [chunkSize_eq]) (by omega) htm
    have := hp.1
    have := hp.2
    exact ⟨by omega, by omega⟩

/-- The same for the mapping that `btm_large_realloc` gets. -/
theorem HeapRep.unowned_remap (H : HeapRep cfg h bins L) (S : L.Sound cfg) (D : L.Settled)
    (hl : L.large b = some hd) (hsz : 0 < newsz) (hf : hd.userOff + newsz + (pageSize - 1) < 2 ^ 64)
    (hr : remapAnswer k h b newsz = some nb)
    (hpl : RegionsFree (h.munmap b hd.mapLen) nb (newTotal hd newsz) ∨
      nb % chunkSize = 0 ∧ L.Aligned) :
    (L.setLarge b none).Unowned nb (newTotal hd newsz) := by
  have ho := H.space.large hl
  have hlt := ho.off_lt
  rw [remapAnswer, H.space.header hl] at hr
  obtain ⟨hge, hmod⟩ := newTotal_spec hf
  split_ifs at hr
  obtain ⟨T1, e1, hst⟩ := btmRegistryRemove_spec k h b hd.mapLen (by omega) ho.le
  have H1 := H.dropLarge hl (h.registryGen + 1) hst
  rcases hpl with hfree | ⟨hnb, A⟩
  · obtain ⟨h', he, O, -⟩ := btmLargeFree_spec (k := k) H S D hl
    refine O.rep.unowned fun key h1 h2 j hj => ?_
    rw [btmLargeFree, H.largeHeader hl] at he
    dsimp only at he
    rw [e1] at he
    obtain rfl := Except.ok.inj he
    have := hfree key h1 h2 j hj
    unfold Heap.munmap at this ⊢
    rw [if_pos ho.le] at this ⊢
    exact this
  · obtain ⟨-, -, -, M⟩ := mremapResult_some hr ho rfl hmod
    have M1 : Remapping { h with owners := T1, registryGen := h.registryGen + 1 } b hd.mapLen nb
        (newTotal hd newsz) := ⟨M.base_mod, M.len_mod, M.nb_mod, M.new_mod, M.old_le, M.frame, M.apart, M.fresh⟩
    have V := M1.vacant H1 S.setLarge (H.vacant_drop S hl H1)
    refine V.unowned H1 (fun b' hd' hb => ?_) hnb (by omega) hmod
    by_cases e : b' = b
    · rw [e, Ledger.setLarge_self] at hb
      cases hb
    · exact A ((Ledger.setLarge_of_ne e).symm.trans hb)

end BtMalloc
