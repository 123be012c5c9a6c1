import BtMalloc.Proofs.DepotProofs

/-!
# Proofs: kernel calls on vacant pages

The kernel maps fresh memory where nothing was mapped. As long as a sequence of `mmap` and `munmap`
calls stays within such a run of pages, the heap keeps standing for its ledger.
-/

namespace BtMalloc

open LinkedList PagedMemory Word

variable {cfg : Config} {k : Kernel} {X : ℕ → Prop} {B : ℕ → ℕ → Prop} {h h' : Heap}
  {bins : ℕ → ℕ → Bin} {L : Ledger} {v n : ℕ}

/-- Nothing of the ledger is on the `n` pages from `v` on. -/
structure Vacant (L : Ledger) (h : Heap) (v n : ℕ) : Prop where
  chunk : ∀ {c j}, L.holder c ≠ .none → j < 512 → ¬ inRun v n (c / 4096 + j)
  large : ∀ {b hd j}, L.large b = some hd → j < hd.mapLen / 4096 → ¬ inRun v n (b / 4096 + j)
  unit : ∀ {a m i}, L.Unit a m → i < m → ¬ inRun v n ((a + i) / 4096)
  frame : ∀ {a m i p}, L.Unit a m → i < m → inRun v n p → h.mem.pt ((a + i) / 4096) ≠ .anon p

/-- A byte of a unit is on a page of its chunk or large object. -/
theorem Ledger.Unit.page {a m i : ℕ} (hu : L.Unit a m) (hi : i < m) (H : HeapRep cfg h bins L)
    (S : L.Sound cfg) :
    (∃ c j, L.holder c ≠ .none ∧ j < 512 ∧ (a + i) / 4096 = c / 4096 + j) ∨
      ∃ b hd j, L.large b = some hd ∧ j < hd.mapLen / 4096 ∧ (a + i) / 4096 = b / 4096 + j := by
  cases hu with
  | @slot q r _ _ hv hs =>
    have pos := S.carving.slotPos hs
    have hpg := pos.page hi
    have h1 := pos.page_le
    exact Or.inl ⟨r.chunk, (a + i) / 4096 - r.chunk / 4096, hs.1.holder_ne, by omega, by omega⟩
  | @large _ hd hl =>
    have ho := H.space.large hl
    have h1 := ho.base_mod
    have h2 := ho.len_mod
    simp only [pageSize_eq] at h1 h2
    exact Or.inr ⟨a, hd, i / 4096, hl, by omega, by omega⟩

/-- A unit shows its own anonymous pages or pages of the memfd. -/
theorem HeapRep.unit_frame (H : HeapRep cfg h bins L) (S : L.Sound cfg) {a m i p : ℕ}
    (hu : L.Unit a m) (hi : i < m) (hf : h.mem.pt ((a + i) / 4096) = .anon p) :
    p = (a + i) / 4096 := by
  cases hm : cfg.meshMode with
  | false =>
    rw [H.frame.anon hm] at hf
    exact (Frame.anon.inj hf).symm
  | true =>
    cases hu with
    | slot hv hs =>
      obtain ⟨j, hj, hpage, -⟩ := (S.carving.slotPos hs).offset hi
      have f := H.frame.slab hm hs.1 hj
      simp only [pageSize_eq] at f
      rw [hpage, f] at hf
      cases hf
    | large hl =>
      rw [(H.space.large hl).frame_byte hi] at hf
      exact (Frame.anon.inj hf).symm

/-- Pages that no chunk and no large object has are vacant. -/
theorem HeapRep.vacant_of (H : HeapRep cfg h bins L) (S : L.Sound cfg)
    (hc : ∀ {c j}, L.holder c ≠ .none → j < 512 → ¬ inRun v n (c / 4096 + j))
    (hl : ∀ {b hd j}, L.large b = some hd → j < hd.mapLen / 4096 → ¬ inRun v n (b / 4096 + j)) :
    Vacant L h v n := by
  have hunit : ∀ {a m i}, L.Unit a m → i < m → ¬ inRun v n ((a + i) / 4096) := by
    intro a m i hu hi hr
    rcases hu.page hi H S with ⟨c, j, h1, h2, e⟩ | ⟨b, hd, j, h1, h2, e⟩
    · exact hc h1 h2 (e ▸ hr)
    · exact hl h1 h2 (e ▸ hr)
  refine ⟨hc, hl, hunit, fun {a m i p} hu hi hr hf => ?_⟩
  rw [H.unit_frame S hu hi hf] at hr
  exact hunit hu hi hr

/-- Pages that are not mapped are vacant. -/
theorem HeapRep.vacant (H : HeapRep cfg h bins L) (S : L.Sound cfg)
    (hun : ∀ {p}, inRun v n p → h.mapped p = false) : Vacant L h v n := by
  refine H.vacant_of S (fun {c j} hc hj hr => ?_) (fun {b hd j} hb hj hr => ?_)
  · exact Bool.false_ne_true ((hun hr).symm.trans (H.space.chunk hc hj))
  · exact Bool.false_ne_true ((hun hr).symm.trans ((H.space.large hb).mapped hj))

/-- The kernel only answers with vacant pages. -/
theorem freshRange_spec {raw len : ℕ} (hf : freshRange h raw len = true) :
    raw % 4096 = 0 ∧ 0 < raw ∧ 0 < len ∧ raw + len ≤ 2 ^ 47 ∧
      ∀ {p}, inRun (raw / 4096) (len / 4096) p → h.mapped p = false := by
  simp only [freshRange, pageSize_eq, Bool.and_eq_true, beq_iff_eq, Nat.blt_eq, Nat.ble_eq,
    List.all_eq_true, List.mem_range'_1, Bool.not_eq_true'] at hf
  obtain ⟨⟨⟨⟨h1, h2⟩, h3⟩, h4⟩, h5⟩ := hf
  exact ⟨h1, h2, h3, h4, fun {p} hp => h5 p hp⟩

/-- From `h` to `h'` only the vacant pages were mapped, unmapped or written. -/
structure Touched (cfg : Config) (L : Ledger) (v n : ℕ) (h h' : Heap) : Prop where
  same : h' = { h with mem := h'.mem, mapped := h'.mapped, log := h'.log }
  pt : ∀ {p}, ¬ inRun v n p → h'.mem.pt p = h.mem.pt p
  anon : cfg.meshMode = false → (∀ p, h.mem.pt p = .anon p) → ∀ p, h'.mem.pt p = .anon p
  mapped : ∀ {p}, ¬ inRun v n p → h'.mapped p = h.mapped p
  bytes : Keeps L.Unit (fun _ => False) h.mem h'.mem
  log : ∃ ev, h'.log = ev ++ h.log ∧ ∀ e ∈ ev, ∃ p m, e = .unmap p m ∧ v ≤ p ∧ p + m ≤ v + n

namespace Touched

theorem refl : Touched cfg L v n h h :=
  ⟨rfl, fun _ => rfl, fun _ h => h, fun _ => rfl, Keeps.refl, [], rfl, by simp⟩

/-- `mmap` of anonymous memory. -/
theorem mmapAnon (T : Touched cfg L v n h h') (V : Vacant L h v n) {a m : ℕ}
    (ha : v * 4096 ≤ a) (hm : a + m ≤ (v + n) * 4096) (h1 : a % 4096 = 0) (h2 : m % 4096 = 0) :
    Touched cfg L v n h (h'.mmapAnon a m) := by
  have hin : ∀ {p}, a / 4096 ≤ p ∧ p < a / 4096 + m / 4096 → inRun v n p := by
    rintro p ⟨h3, h4⟩
    constructor <;> omega
  have hpt : ∀ p, (h'.mmapAnon a m).mem.pt p =
      if a / 4096 ≤ p ∧ p < a / 4096 + m / 4096 then .anon p else h'.mem.pt p := by
    intro p
    rw [show (h'.mmapAnon a m).mem.pt p = (h'.mem.remap (a / 4096) (m / 4096)
      fun i => .anon (a / 4096 + i)).pt p from rfl, remap_pt]
    by_cases hp : a / 4096 ≤ p ∧ p < a / 4096 + m / 4096
    · rw [if_pos hp, if_pos hp, Nat.add_sub_cancel' hp.1]
    · rw [if_neg hp, if_neg hp]
  refine ⟨?_, fun {p} hp => ?_, fun hmode hall p => ?_, fun {p} hp => ?_,
    fun b k i hu _ hi => ?_, T.log⟩
  · rw [Heap.mmapAnon, T.same]
  · rw [hpt, if_neg (fun hc => hp (hin hc)), T.pt hp]
  · rw [hpt]
    split
    · rfl
    · exact T.anon hmode hall p
  · show (inPages a m p || h'.mapped p) = _
    have : inPages a m p = false := by
      rw [Bool.eq_false_iff, ne_eq, inPages_iff]
      intro hc
      exact hp (hin (by omega))
    rw [this, Bool.false_or, T.mapped hp]
  · have hno := V.unit hu hi
    have hz : (h'.mmapAnon a m).mem.read (b + i) =
        (h'.mem.remap (a / 4096) (m / 4096) fun i => .anon (a / 4096 + i)).read (b + i) := by
      refine (read_zero ..).trans (if_neg ?_)
      rw [show (h'.mem.remap (a / pageSize) (m / pageSize) fun i => .anon (a / pageSize + i)) =
        h'.mem.remap (a / 4096) (m / 4096) fun i => .anon (a / 4096 + i) from rfl, remap_pt, if_neg (fun hc => hno (hin hc)), T.pt hno]
      cases hf : h.mem.pt ((b + i) / 4096) with
      | memfd f => simp [anonIn]
      | anon f =>
        simp only [anonIn, inPages_iff]
        intro hc
        exact V.frame hu hi (hin (p := f) (by omega)) hf
    rw [hz, read_remap_outside _ _ _ _ (fun hc => hno (hin hc)), T.bytes hu id hi]

/-- `mmap` of the memfd, in mesh mode. -/
theorem mmapMemfd (T : Touched cfg L v n h h') (V : Vacant L h v n) (hmode : cfg.meshMode = true)
    {a m off : ℕ} (ha : v * 4096 ≤ a) (hm : a + m ≤ (v + n) * 4096) (h1 : a % 4096 = 0)
    (h2 : m % 4096 = 0) : Touched cfg L v n h (h'.mmapMemfd a m off) := by
  have hin : ∀ {p}, a / 4096 ≤ p ∧ p < a / 4096 + m / 4096 → inRun v n p := by
    rintro p ⟨h3, h4⟩
    constructor <;> omega
  refine ⟨?_, fun {p} hp => ?_, fun hmode' => ?_, fun {p} hp => ?_, fun b k i hu _ hi => ?_, T.log⟩
  · rw [Heap.mmapMemfd, T.same]
  · rw [show (h'.mmapMemfd a m off).mem.pt p = (h'.mem.remap (a / 4096) (m / 4096)
      fun i => .memfd (off / 4096 + i)).pt p from rfl, remap_pt, if_neg (fun hc => hp (hin hc)),
      T.pt hp]
  · rw [hmode] at hmode'
    cases hmode'
  · show (inPages a m p || h'.mapped p) = _
    have : inPages a m p = false := by
      rw [Bool.eq_false_iff, ne_eq, inPages_iff]
      intro hc
      exact hp (hin (by omega))
    rw [this, Bool.false_or, T.mapped hp]
  · have hno := V.unit hu hi
    exact (read_remap_outside h'.mem (a / 4096) (m / 4096) (fun i => .memfd (off / 4096 + i))
      (fun hc => hno (hin hc))).trans (T.bytes hu id hi)

/-- `munmap`. -/
theorem munmap (T : Touched cfg L v n h h') {a m : ℕ} (ha : v * 4096 ≤ a)
    (hm : a + m ≤ (v + n) * 4096) (h1 : a % 4096 = 0) (h2 : m % 4096 = 0) :
    Touched cfg L v n h (h'.munmap a m) := by
  unfold Heap.munmap
  split
  next =>
    obtain ⟨ev, hev, hall⟩ := T.log
    refine ⟨?_, T.pt, T.anon, fun {p} hp => ?_, T.bytes, .unmap (a / 4096) (m / 4096) :: ev, ?_, ?_⟩
    · simp only [Heap.note]
      rw [T.same]
    · show (!inPages a m p && h'.mapped p) = _
      have : inPages a m p = false := by
        rw [Bool.eq_false_iff, ne_eq, inPages_iff]
        intro hc
        exact hp (by constructor <;> omega)
      rw [this, T.mapped hp]
      rfl
    · show _ :: h'.log = _
      rw [hev]
      rfl
    · intro e he
      rcases List.mem_cons.mp he with rfl | he
      · exact ⟨_, _, rfl, by omega, by omega⟩
      · exact hall e he
  next => exact T

end Touched

/-! ## Trimming a reservation -/

/-- The `len` bytes at `raw` are mapped, and all but the `keep` bytes at `b` unmapped again. -/
def trimTo (h : Heap) (raw len b keep : ℕ) : Heap :=
  let front := b - raw
  let back := len - front - keep
  let h := h.mmapAnon raw len
  let h := if front = 0 then h else h.munmap raw front
  if back = 0 then h else h.munmap (b + keep) back

/-- Nothing but pages off the `n` pages from `v` on was unmapped. -/
def Spared (v n : ℕ) (log log' : List Event) : Prop :=
  ∃ ev, log' = ev ++ log ∧ ∀ e ∈ ev, ∃ p m, e = .unmap p m ∧ (p + m ≤ v ∨ v + n ≤ p)

/-- What lies within the pages that were spared is clear of those unmapped. -/
theorem Spared.clear {log log' ev : List Event} {U : ℕ → ℕ → Prop} (Sp : Spared v n log log')
    (he : log' = ev ++ log) (hU : Clear U ev) {a m : ℕ} (h1 : v * 4096 ≤ a)
    (h2 : a + m ≤ (v + n) * 4096) : Clear (fun x y => U x y ∨ a ≤ x ∧ x + y ≤ a + m) ev := by
  obtain ⟨ev', hev', hall⟩ := Sp
  obtain rfl : ev' = ev := List.append_cancel_right (hev'.symm.trans he)
  intro e hm p n' hd x y i hb hi hr
  rcases hb with hb | ⟨h3, h4⟩
  · exact hU e hm p n' hd hb hi hr
  · obtain ⟨p', m', rfl, hoff⟩ := hall e hm
    obtain ⟨rfl, rfl⟩ : p' = p ∧ m' = n' := by simpa [Event.drops] using hd
    simp only [inRun, pageSize_eq] at hr
    omega

/-- The `n` pages from `v` on are mapped anonymous memory that reads as zero. -/
def Blank (h : Heap) (v n : ℕ) : Prop :=
  ∀ p, inRun v n p → h.mapped p = true ∧ h.mem.pt p = .anon p ∧ ∀ i < 4096, h.mem.read (p * 4096 + i) = 0

theorem blank_mmapAnon {a m : ℕ} (h1 : a % 4096 = 0) (h2 : m % 4096 = 0) :
    Blank (h.mmapAnon a m) (a / 4096) (m / 4096) := by
  rintro p ⟨hp1, hp2⟩
  have hpt : (h.mmapAnon a m).mem.pt p = .anon p := by
    rw [show (h.mmapAnon a m).mem.pt p = (h.mem.remap (a / 4096) (m / 4096)
      fun i => .anon (a / 4096 + i)).pt p from rfl, remap_pt, if_pos ⟨hp1, hp2⟩, Nat.add_sub_cancel' hp1]
  have hin : inPages a m p = true := by
    rw [inPages_iff]
    omega
  refine ⟨?_, hpt, fun i hi => ?_⟩
  · show (inPages a m p || h.mapped p) = true
    rw [hin, Bool.true_or]
  · have e : (p * 4096 + i) / 4096 = p := by omega
    refine (read_zero ..).trans (if_pos ?_)
    rw [e, show (h.mem.remap (a / pageSize) (m / pageSize) fun i => .anon (a / pageSize + i)).pt p =
      (h.mmapAnon a m).mem.pt p from rfl, hpt]
    exact hin

/-- Trimming a part of the reservation off the pages to keep. -/
theorem Touched.trim {w k a m : ℕ} (T : Touched cfg L v n h h') (Sp : Spared w k h.log h'.log)
    (B : Blank h' w k) (ha : v * 4096 ≤ a) (hm : a + m ≤ (v + n) * 4096) (h1 : a % 4096 = 0)
    (h2 : m % 4096 = 0) (h47 : a + m ≤ 2 ^ 47) (hoff : a / 4096 + m / 4096 ≤ w ∨ w + k ≤ a / 4096) :
    Touched cfg L v n h (if m = 0 then h' else h'.munmap a m) ∧
      Spared w k h.log (if m = 0 then h' else h'.munmap a m).log ∧
      Blank (if m = 0 then h' else h'.munmap a m) w k := by
  split_ifs with h0
  · exact ⟨T, Sp, B⟩
  · obtain ⟨ev, hev, hall⟩ := Sp
    have hun : h'.munmap a m = { h' with
        mapped := fun p => !inPages a m p && h'.mapped p
        log := .unmap (a / 4096) (m / 4096) :: h'.log } := by
      unfold Heap.munmap
      rw [if_pos h47]
      rfl
    refine ⟨T.munmap ha hm h1 h2, ⟨.unmap (a / 4096) (m / 4096) :: ev, ?_, ?_⟩, fun p hp => ?_⟩
    · rw [hun, hev]
      rfl
    · intro e he
      rcases List.mem_cons.mp he with rfl | he
      · exact ⟨_, _, rfl, hoff⟩
      · exact hall e he
    · obtain ⟨b1, b2, b3⟩ := B p hp
      rw [hun]
      refine ⟨?_, b2, b3⟩
      have hout : inPages a m p = false := by
        rw [Bool.eq_false_iff, ne_eq, inPages_iff]
        obtain ⟨p1, p2⟩ := hp
        omega
      show (!inPages a m p && h'.mapped p) = true
      rw [hout, b1]
      rfl

/-- Trimming stays in the reservation and off the pages it keeps. -/
theorem trimTo_spec {raw len b keep : ℕ} (V : Vacant L h (raw / 4096) (len / 4096))
    (hr : raw % 4096 = 0) (hl : len % 4096 = 0) (hb : b % 4096 = 0) (hk : keep % 4096 = 0)
    (h1 : raw ≤ b) (h2 : b + keep ≤ raw + len) (hle : raw + len ≤ 2 ^ 47) :
    Touched cfg L (raw / 4096) (len / 4096) h (trimTo h raw len b keep) ∧
      Spared (b / 4096) (keep / 4096) h.log (trimTo h raw len b keep).log ∧
      Blank (trimTo h raw len b keep) (b / 4096) (keep / 4096) := by
  have T1 : Touched cfg L (raw / 4096) (len / 4096) h (h.mmapAnon raw len) :=
    Touched.refl.mmapAnon V (by omega) (by omega) hr hl
  have B1 : Blank (h.mmapAnon raw len) (b / 4096) (keep / 4096) := fun p hp =>
    blank_mmapAnon hr hl p ⟨by have := hp.1; omega, by have := hp.2; omega⟩
  obtain ⟨T2, Sp2, B2⟩ := T1.trim (a := raw) (m := b - raw) ⟨[], rfl, by simp⟩ B1 (by omega) (by omega)
    hr (by omega) (by omega) (Or.inl (by omega))
  have R := T2.trim (a := b + keep) (m := len - (b - raw) - keep) Sp2 B2 (by omega) (by omega)
    (by omega) (by omega) (by omega) (Or.inr (by omega))
  unfold trimTo
  exact R

/-- Unmapping elsewhere spoils no link, and decodes none. -/
theorem fresh_unmaps {ev log : List Event}
    (hev : ∀ e ∈ ev, ∃ p m, e = .unmap p m ∧ v ≤ p ∧ p + m ≤ v + n) :
    (∀ {s}, ¬ inRun v n (s / 4096) → Fresh log s → Fresh (ev ++ log) s) ∧
      (Good log → Good (ev ++ log)) := by
  induction ev with
  | nil => exact ⟨fun _ hf => hf, id⟩
  | cons e ev ih =>
    obtain ⟨h1, h2⟩ := ih (fun e he => hev e (List.mem_cons_of_mem _ he))
    obtain ⟨p, m, rfl, hp, hm⟩ := hev e (List.mem_cons_self ..)
    refine ⟨fun {s} hs hf => ⟨fun hr => hs ?_, h1 hs hf⟩, h2⟩
    simp only [inRun, pageSize_eq] at hr ⊢
    omega

namespace Touched

variable (T : Touched cfg L v n h h') (V : Vacant L h v n) (H : HeapRep cfg h bins L)
include T V H

/-- The pages of mapped chunks are not touched. -/
theorem chunk_page {c j : ℕ} (hc : L.holder c ≠ .none) (hj : j < 512) :
    h'.mem.pt (c / 4096 + j) = h.mem.pt (c / 4096 + j) ∧ h'.mapped (c / 4096 + j) = true := by
  have hmap : h.mapped (c / 4096 + j) = true := H.space.chunk hc hj
  have hno := V.chunk hc hj
  exact ⟨T.pt hno, by rw [T.mapped hno, hmap]⟩

theorem frame {bump : ℕ} {freed : List ℕ} (hF : FrameRep cfg h.mem.pt h.chunks bump freed L)
    (S : L.Sound cfg) : FrameRep cfg h'.mem.pt h.chunks bump freed L := by
  refine ⟨fun hm => T.anon hm (H.frame.anon hm), fun hm q x hx j hj => ?_, fun hm c hc j hj h512 => ?_,
    hF.off_mod, hF.off_inj, hF.off_lt, hF.off_freed, hF.freed_mod, hF.freed_lt, hF.freed_nodup,
    hF.bump_mod⟩
  · obtain ⟨-, h1, h2⟩ := S.carving.slab_page hx
    have e := (T.chunk_page V H hx.holder_ne (j := x.page + j) (by omega)).1
    have := hF.slab hm hx hj
    simp only [pageSize_eq, Nat.add_assoc] at this ⊢
    rw [e, this]
  · have e := (T.chunk_page V H hc h512).1
    have := hF.rest hm hc hj h512
    simp only [pageSize_eq] at this ⊢
    rw [e, this]

theorem space : SpaceRep h'.mem.pt h'.mapped h.larges L := by
  refine ⟨fun hc j hj => (T.chunk_page V H hc hj).2, fun {b hd} hb => ?_, H.space.header,
    H.space.unique⟩
  have ho := H.space.large hb
  have hno : ∀ {j}, j < hd.mapLen / pageSize → ¬ inRun v n (b / pageSize + j) := fun hj => V.large hb hj
  exact ⟨ho.base_mod, ho.base_pos, ho.len_mod, ho.le, ho.off_ge, ho.off_mod, ho.off_lt,
    fun hj => by rw [T.mapped (hno hj), ho.mapped hj], fun hj => by rw [T.pt (hno hj), ho.frame hj]⟩

/-- The heap still stands for its ledger. -/
theorem rep (S : L.Sound cfg) : HeapRep cfg h' bins L := by
  obtain ⟨ev, hev, hall⟩ := T.log
  obtain ⟨hfresh, hgood⟩ := (@fresh_unmaps _ _ _ h.log) hall
  have hF := T.frame V H H.frame S
  have hSp := T.space V H
  have hpage : ∀ {s}, L.place s ≠ .void → ¬ inRun v n (s / 4096) := by
    intro s hs
    obtain ⟨m, hu, hm, -⟩ := S.cell hs
    have := V.unit hu (i := 0) (by omega)
    rwa [Nat.add_zero] at this
  rw [T.same]
  refine ⟨H.desc, H.lists, H.tally, H.header, H.chunks, H.depot, fun q x hx hi => ?_, fun t i => ?_,
    hF, hSp, H.owner, ⟨by rw [hev]; exact hgood H.log.good, fun {q x} hx hi s hs => ?_,
      fun {t i s} hs => ?_⟩⟩
  · refine keeps_chain T.bytes (H.free q x hx hi) (fun s hs => ⟨S.cell ?_, id⟩)
    simp [S.freeList_place hx (Stage.intact_ne_retired hi) hs]
  · have hb := H.bins t i
    refine ⟨keeps_chain T.bytes hb.chain (fun s hs => ⟨S.cell ?_, id⟩), hb.count, hb.pool⟩
    simp [S.bin_place hs]
  · rw [hev]
    refine hfresh (hpage ?_) (H.log.free hx hi hs)
    simp [S.freeList_place hx (Stage.intact_ne_retired hi) hs]
  · rw [hev]
    refine hfresh (hpage ?_) (H.log.bin hs)
    simp [S.bin_place hs]

omit H in
/-- Nobody notices. -/
theorem effect : Effect k X L.Unit h L h' L := by
  obtain ⟨ev, hev, hall⟩ := T.log
  have hr : h'.owners = h.owners := by rw [T.same]
  have hg : h'.registryGen = h.registryGen := by rw [T.same]
  refine ⟨fun a m hc _ => hc, fun a m i hc _ hi => T.bytes hc.unit id hi,
    ⟨ev, hev, fun e he p m hd a k i hu hi hrun => ?_, fun _ _ hc => Or.inl hc⟩, by rw [hg],
    fun _ _ _ _ => by rw [hr], fun _ _ hR => by rwa [hr], hr ▸ .refl,
    fun _ => Or.inl, by rw [T.same], by rw [T.same]⟩
  obtain ⟨p', m', rfl, hp, hm⟩ := hall e he
  obtain ⟨rfl, rfl⟩ : p' = p ∧ m' = m := by simpa [Event.drops] using hd
  refine V.unit hu hi ?_
  simp only [inRun, pageSize_eq] at hrun ⊢
  omega

end Touched

end BtMalloc
