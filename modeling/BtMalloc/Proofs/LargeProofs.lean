import BtMalloc.Conditions
import BtMalloc.Proofs.TouchProofs

/-!
# Proofs: large objects

The arithmetic of `btm_large_alloc` for requests that fit, and what mapping and unmapping a large
object do to the heap.
-/

namespace BtMalloc

open LinkedList PagedMemory Word

variable {cfg : Config} {k : Kernel} {X : ℕ → Prop} {B : ℕ → ℕ → Prop} {h h' : Heap}
  {bins : ℕ → ℕ → Bin} {L : Ledger} {size alignment b raw : ℕ} {hd : LargeHdr}

/-! ## Sizes -/

/-- The sizes of a large object without wrap-around. -/
structure Sized (size alignment e : ℕ) : Prop where
  balign : largeBalign alignment = 2 ^ e
  chunk_le : 21 ≤ e
  lt : e < 64
  hdr_ge : largeHdrSize ≤ largeHdr alignment
  hdr_mod : largeHdr alignment % btmAlignment = 0
  hdr_dvd : alignment ∣ largeHdr alignment
  align_dvd : alignment ∣ 2 ^ e
  total_ge : largeHdr alignment + size ≤ largeTotal size alignment
  total_mod : largeTotal size alignment % 4096 = 0
  want : largeWant size alignment = largeTotal size alignment + 2 ^ e

theorem two_pow_max (a b : ℕ) : max (2 ^ a) (2 ^ b) = 2 ^ max a b :=
  (Monotone.map_max (pow_right_mono₀ (one_le_two (α := ℕ)))).symm

/-- `hdr` for an alignment that is a power of two. -/
theorem largeHdr_spec {a : ℕ} (ha : max a 4 < 64) :
    32 ≤ largeHdr (2 ^ a) ∧ largeHdr (2 ^ a) < 32 + 2 ^ max a 4 ∧ 2 ^ max a 4 ∣ largeHdr (2 ^ a) := by
  have hp : (2 : ℕ) ^ max a 4 ≤ 2 ^ 63 := Nat.pow_le_pow_right (by omega) (by omega)
  have e : largeHdr (2 ^ a) = roundUp 32 (2 ^ max a 4) := by
    rw [← two_pow_max]
    rfl
  rw [e]
  exact roundUp_spec (by omega) (by omega)

theorem largeBalign_spec (a : ℕ) : largeBalign (2 ^ a) = 2 ^ max (max a 4) 21 := by
  rw [← two_pow_max, ← two_pow_max]
  rfl

/-- A request that fits has the sizes it should have. -/
theorem Fits.sized {a : ℕ} (hf : Fits size (2 ^ a)) : Sized size (2 ^ a) (max (max a 4) 21) := by
  have hb := largeBalign_spec a
  unfold Fits at hf
  simp only [pageSize_eq] at hf
  have he : max (max a 4) 21 < 64 := by
    rw [hb] at hf
    exact (Nat.pow_lt_pow_iff_right (a := 2) (by omega)).mp (by omega)
  obtain ⟨h1, -, h3⟩ := largeHdr_spec (a := a) (by omega)
  have h16 : 16 ∣ largeHdr (2 ^ a) := (Nat.pow_dvd_pow 2 (le_max_right a 4)).trans h3
  have hsum : (largeHdr (2 ^ a) + size) % 2 ^ 64 = largeHdr (2 ^ a) + size :=
    Nat.mod_eq_of_lt (by omega)
  obtain ⟨t1, t2, t3⟩ := roundUp_spec (v := largeHdr (2 ^ a) + size) (k := 12) (by omega) (by omega)
  have ht : largeTotal size (2 ^ a) = roundUp (largeHdr (2 ^ a) + size) (2 ^ 12) := by
    unfold largeTotal
    rw [hsum]
    rfl
  have hmod : largeTotal size (2 ^ a) % 4096 = 0 := by
    rw [ht]
    exact Nat.mod_eq_zero_of_dvd t3
  refine ⟨hb, by omega, he, h1, Nat.mod_eq_zero_of_dvd h16,
    (Nat.pow_dvd_pow 2 (le_max_left a 4)).trans h3, Nat.pow_dvd_pow 2 (by omega), by rw [ht]; exact t1,
    hmod, ?_⟩
  unfold largeWant
  rw [← hb]
  exact Nat.mod_eq_of_lt (by omega)

/-- Where the object goes in the reservation. -/
theorem Sized.base {e : ℕ} (Z : Sized size alignment e)
    (hle : raw + largeWant size alignment ≤ 2 ^ 47) :
    raw ≤ roundUp raw (2 ^ e) ∧ roundUp raw (2 ^ e) < raw + 2 ^ e ∧ roundUp raw (2 ^ e) % 2097152 = 0 ∧
      alignment ∣ roundUp raw (2 ^ e) ∧
      roundUp raw (2 ^ e) + largeTotal size alignment ≤ raw + largeWant size alignment := by
  have hw := Z.want
  have hp : 0 < 2 ^ e := Nat.two_pow_pos e
  obtain ⟨h1, h2, h3⟩ := roundUp_spec (v := raw) (k := e) (by have := Z.lt; omega) (by omega)
  refine ⟨h1, h2, Nat.mod_eq_zero_of_dvd ?_, Z.align_dvd.trans h3, by omega⟩
  exact (Nat.pow_dvd_pow 2 Z.chunk_le).trans h3

/-- The heap in which the reservation is trimmed and the header of the object is written. -/
def placed (h : Heap) (raw size alignment b : ℕ) : Heap :=
  let t := trimTo h raw (largeWant size alignment) b (largeTotal size alignment)
  { t with
    larges := Function.update t.larges b ⟨largeTotal size alignment, largeHdr alignment, size⟩ }

/-- `btm_large_alloc` of a request that fits, when the kernel has room. -/
theorem Sized.alloc_eq {e : ℕ} (Z : Sized size alignment e)
    (hres : mmapResult h k.large (largeWant size alignment) = some raw)
    (hmap : (placed h raw size alignment (roundUp raw (2 ^ e))).mapped
      (roundUp raw (2 ^ e) / pageSize) = true) :
    btmLargeAlloc k h size alignment = .ok (roundUp raw (2 ^ e) + largeHdr alignment,
      btmRegistryInsert k (placed h raw size alignment (roundUp raw (2 ^ e))) (roundUp raw (2 ^ e))
        (largeTotal size alignment) (roundUp raw (2 ^ e) ||| 1)) := by
  obtain ⟨hmod, hpos, -, hle, -⟩ := freshRange_spec (Option.filter_eq_some_iff.mp hres).2
  obtain ⟨b1, b2, b3, -, b5⟩ := Z.base hle
  have hw := Z.want
  have ht := Z.total_ge
  have hg := Z.hdr_ge
  have hb := Z.balign
  simp only [show largeHdrSize = 32 from rfl] at hg
  unfold btmLargeAlloc
  dsimp only
  rw [hres, hb]
  dsimp only
  unfold placed trimTo at hmap ⊢
  dsimp only at hmap ⊢
  generalize roundUp raw (2 ^ e) = b at *
  generalize largeTotal size alignment = total at *
  generalize largeWant size alignment = want at *
  have e1 : (b + 2 ^ 64 - raw) % 2 ^ 64 = b - raw := by omega
  have e2 : (want + 2 * 2 ^ 64 - (b - raw) - total) % 2 ^ 64 = want - (b - raw) - total := by omega
  have e3 : (b + total) % 2 ^ 64 = b + total := by omega
  have e4 : (b + largeHdr alignment) % 2 ^ 64 = b + largeHdr alignment := by omega
  rw [e1, e2, e3, e4, if_pos hmap]

/-! ## The ledger -/

/-- The ledger with a large object more or less. -/
def Ledger.setLarge (L : Ledger) (b : ℕ) (v : Option LargeHdr) : Ledger :=
  { L with large := Function.update L.large b v }

theorem Ledger.setLarge_self {v : Option LargeHdr} : (L.setLarge b v).large b = v :=
  Function.update_self ..

theorem Ledger.setLarge_of_ne {v : Option LargeHdr} {b' : ℕ} (e : b' ≠ b) :
    (L.setLarge b v).large b' = L.large b' := Function.update_of_ne e ..

theorem Ledger.Sound.setLarge (S : L.Sound cfg) {v : Option LargeHdr} : (L.setLarge b v).Sound cfg :=
  ⟨⟨S.carving.valid, S.carving.aligned, S.carving.top_eq, S.carving.carved⟩,
    ⟨S.lists.partials, S.lists.warm, S.lists.cold, S.lists.counted, S.lists.chunks, S.lists.active,
      S.lists.stack, S.lists.queue, S.lists.batch, S.lists.hand⟩,
    ⟨S.slots.slot, S.slots.bin, S.slots.home, S.slots.freeList, S.slots.retired, S.slots.held⟩,
    ⟨S.meshed.self, S.meshed.pool, S.meshed.donated, S.meshed.apart⟩⟩

theorem Ledger.Settled.setLarge (T : L.Settled) {v : Option LargeHdr} : (L.setLarge b v).Settled :=
  ⟨T.slab, T.chunk, T.warm⟩

theorem Ledger.setLarge_tidy {v : Option LargeHdr} : L.Tidy (L.setLarge b v) :=
  ⟨fun U => ⟨U.stage, U.place⟩, id, fun _ _ _ _ hs hv => ⟨hs, hv⟩⟩

theorem Ledger.setLarge_moved {v : Option LargeHdr} {Y : ℕ → ℕ → Prop} {Z : ℕ → PoolId → Prop} :
    L.Moved (L.setLarge b v) (fun x => x = b) Y Z :=
  ⟨fun _ _ _ _ ho _ hs => ⟨ho, hs⟩, fun _ ho _ => ho, fun _ _ _ => rfl, fun _ _ => Or.inl,
    fun _ e => Ledger.setLarge_of_ne e⟩

/-- Nothing owns a region of the `len` bytes at `b`. -/
def Ledger.Unowned (L : Ledger) (b len : ℕ) : Prop :=
  ∀ ⦃key w⦄, b / chunkSize ≤ key → key ≤ (b + len - 1) / chunkSize → ¬ L.Covers key w

/-- Who covers a region once there is a large object at `b`. -/
theorem Ledger.Covers.of_setLarge {key w : ℕ} (hc : (L.setLarge b (some hd)).Covers key w) :
    (b / chunkSize ≤ key ∧ key ≤ (b + hd.mapLen - 1) / chunkSize ∧ w = b ||| 1) ∨ L.Covers key w := by
  cases hc with
  | chunk hh => exact Or.inr (.chunk hh)
  | @large b' hd' hb h1 h2 =>
    by_cases e : b' = b
    · subst e
      rw [Ledger.setLarge_self] at hb
      obtain rfl : hd = hd' := Option.some.inj hb
      exact Or.inl ⟨h1, h2, rfl⟩
    · rw [Ledger.setLarge_of_ne e] at hb
      exact Or.inr (.large hb h1 h2)

theorem Ledger.Covers.setLarge {key w : ℕ} (hc : L.Covers key w) (hn : L.large b = none) :
    (L.setLarge b (some hd)).Covers key w := by
  cases hc with
  | chunk hh => exact .chunk hh
  | @large b' hd' hb h1 h2 =>
    have e : b' ≠ b := fun e => by rw [e, hn] at hb; cases hb
    exact .large ((Ledger.setLarge_of_ne e).trans hb) h1 h2

/-- A large object that goes was the only owner of its regions. -/
theorem Ledger.Covers.of_drop {key w : ℕ} (hc : (L.setLarge b none).Covers key w) :
    L.Covers key w ∧ ∀ hd, L.large b = some hd → ∀ {pt : ℕ → Frame} {mapped : ℕ → Bool}
      {larges : ℕ → LargeHdr}, SpaceRep pt mapped larges L →
      ¬ (b / chunkSize ≤ key ∧ key ≤ (b + hd.mapLen - 1) / chunkSize) := by
  cases hc with
  | chunk hh =>
    refine ⟨.chunk hh, fun hd hb pt mapped larges Sp hk => ?_⟩
    have := Sp.unique (.chunk hh) (.large hb hk.1 hk.2)
    have he := (Sp.large hb).even
    rw [or_one_of_even he] at this
    simp only [chunkSize_eq] at this
    omega
  | @large b' hd' hb' h1 h2 =>
    have e : b' ≠ b := by
      rintro rfl
      rw [Ledger.setLarge_self] at hb'
      cases hb'
    have hb'' : L.large b' = some hd' := (Ledger.setLarge_of_ne e).symm.trans hb'
    refine ⟨.large hb'' h1 h2, fun hd hb pt mapped larges Sp hk => ?_⟩
    have := Sp.unique (.large hb'' h1 h2) (.large hb hk.1 hk.2)
    rw [or_one_of_even (Sp.large hb).even, or_one_of_even (Sp.large hb'').even] at this
    omega

theorem Ledger.Covers.drop {key w : ℕ} (hc : L.Covers key w) (hl : L.large b = some hd)
    (hk : ¬ (b / chunkSize ≤ key ∧ key ≤ (b + hd.mapLen - 1) / chunkSize)) :
    (L.setLarge b none).Covers key w := by
  cases hc with
  | chunk hh => exact .chunk hh
  | @large b' hd' hb h1 h2 =>
    have e : b' ≠ b := by
      rintro rfl
      obtain rfl : hd = hd' := Option.some.inj (hl.symm.trans hb)
      exact hk ⟨h1, h2⟩
    exact .large ((Ledger.setLarge_of_ne e).trans hb) h1 h2

/-! ## Adding an object -/

/-- There is no object at the base of a range that nobody owns. -/
theorem Ledger.Unowned.none {len : ℕ} (hn : L.Unowned b len) (hlen : 0 < len)
    (Sp : SpaceRep h.mem.pt h.mapped h.larges L) : L.large b = none := by
  cases hb : L.large b with
  | none => rfl
  | some hd =>
    have := (Sp.large hb).off_lt
    exact absurd (.large hb (le_refl _) (Nat.div_le_div_right (by omega)))
      (hn (le_refl _) (Nat.div_le_div_right (by omega)))

/-- The regions of a mapping that fits in the address space. -/
theorem mem_regionKeys_iff (b len key : ℕ) (hlen : 0 < len) (hle : b + len ≤ 2 ^ 47) :
    key ∈ regionKeys b len ↔ b / chunkSize ≤ key ∧ key ≤ (b + len - 1) / chunkSize := by
  rw [chunkSize_eq]
  exact mem_regionKeys hlen hle

theorem HeapRep.addLarge (H : HeapRep cfg h bins L) (hn : L.Unowned b hd.mapLen)
    (ho : LargeOk h.mem.pt h.mapped b hd) {T' : OwnerTable} {larges' : ℕ → LargeHdr}
    (hst : Stored k (b ||| 1) (regionKeys b hd.mapLen) h.owners T') (hself : larges' b = hd)
    (hother : ∀ x, x ≠ b → larges' x = h.larges x) :
    HeapRep cfg { h with larges := larges', owners := T' } bins (L.setLarge b (some hd)) := by
  have hlt := ho.off_lt
  have hnone := hn.none (by omega) H.space
  have hkeys := fun {key} => mem_regionKeys_iff b hd.mapLen key (by omega) ho.le
  refine ⟨H.desc, H.lists, H.tally, fun q c hc => (H.header q c hc).congr rfl rfl fun _ _ hx => hx,
    H.chunks, H.depot.congr rfl rfl, H.free, H.bins, H.frame.congr rfl rfl rfl fun _ _ hx => hx,
    ⟨H.space.chunk, fun {x hd'} hx => ?_, fun {x hd'} hx => ?_, fun {key w w'} h1 h2 => ?_⟩,
    fun key hk hne => ?_, ⟨H.log.good, H.log.free, H.log.bin⟩⟩
  · by_cases e : x = b
    · subst e
      rw [Ledger.setLarge_self] at hx
      rwa [← Option.some.inj hx]
    · rw [Ledger.setLarge_of_ne e] at hx
      exact H.space.large hx
  · by_cases e : x = b
    · subst e
      rw [Ledger.setLarge_self] at hx
      rw [← Option.some.inj hx]
      exact hself
    · rw [Ledger.setLarge_of_ne e] at hx
      exact (hother x e).trans (H.space.header hx)
  · rcases h1.of_setLarge with ⟨a1, a2, rfl⟩ | h1
    · rcases h2.of_setLarge with ⟨-, -, rfl⟩ | h2
      · rfl
      · exact absurd h2 (hn a1 a2)
    · rcases h2.of_setLarge with ⟨a1, a2, rfl⟩ | h2
      · exact absurd h1 (hn a1 a2)
      · exact H.space.unique h1 h2
  · show (L.setLarge b (some hd)).Covers key (ownerAt T' key)
    by_cases hm : key ∈ regionKeys b hd.mapLen
    · obtain ⟨a1, a2⟩ := hkeys.mp hm
      rcases hst.set hm with e | e
      · rw [e]
        exact .large Ledger.setLarge_self a1 a2
      · exact absurd e hne
    · have e := hst.other hk hm
      rw [e]
      exact (H.owner key hk (by rwa [← e])).setLarge hnone

theorem HeapRep.addLarge_effect (H : HeapRep cfg h bins L) (S : L.Sound cfg) (hn : L.Unowned b hd.mapLen)
    (ho : LargeOk h.mem.pt h.mapped b hd) {T' : OwnerTable} (larges' : ℕ → LargeHdr)
    (hst : Stored k (b ||| 1) (regionKeys b hd.mapLen) h.owners T') :
    Effect k X B h L { h with larges := larges', owners := T' } (L.setLarge b (some hd)) := by
  have hlt := ho.off_lt
  have hnone := hn.none (by omega) H.space
  have hkeys := fun {key} => mem_regionKeys_iff b hd.mapLen key (by omega) ho.le
  refine ⟨fun a n hc _ => ?_, Keeps.refl, ⟨[], rfl, Clear.nil, fun _ _ hc => Or.inl hc⟩, le_refl _,
    fun _ key hk hne => ?_, fun key hl hN w hw => ?_, hst.grows, fun _ => Or.inl, rfl, rfl⟩
  · cases hc with
    | slot ho hs => exact .slot ho hs
    | large hl =>
      refine .large ((Ledger.setLarge_of_ne fun e => ?_).trans hl)
      rw [e, hnone] at hl
      cases hl
  · refine hst.other hk fun hm => ?_
    obtain ⟨a1, a2⟩ := hkeys.mp hm
    exact hn a1 a2 (H.owner key hk hne)
  · rcases hw.of_setLarge with ⟨a1, a2, rfl⟩ | hw
    · exact hst.backed (hkeys.mpr ⟨a1, a2⟩) hl
    · rw [hst.other (hw.key_lt S H.space) fun hm => hn (hkeys.mp hm).1 (hkeys.mp hm).2 hw]
      exact hN hw

/-! ## Dropping an object -/

/-- The registry forgets an object. -/
theorem HeapRep.dropLarge (H : HeapRep cfg h bins L) (hl : L.large b = some hd)
    {T' : OwnerTable} (gen : ℕ)
    (hst : Stored k 0 (regionKeys b hd.mapLen) h.owners T') :
    HeapRep cfg { h with owners := T', registryGen := gen } bins (L.setLarge b none) := by
  have ho := H.space.large hl
  have hlt := ho.off_lt
  have hkeys := fun {key} => mem_regionKeys_iff b hd.mapLen key (by omega) ho.le
  have hsub : ∀ {x hd'}, (L.setLarge b none).large x = some hd' → L.large x = some hd' := by
    intro x hd' hx
    by_cases e : x = b
    · subst e
      rw [Ledger.setLarge_self] at hx
      cases hx
    · rwa [Ledger.setLarge_of_ne e] at hx
  refine ⟨H.desc, H.lists, H.tally, fun q c hc => (H.header q c hc).congr rfl rfl fun _ _ hx => hx,
    H.chunks, H.depot.congr rfl rfl, H.free, H.bins, H.frame.congr rfl rfl rfl fun _ _ hx => hx,
    ⟨H.space.chunk, fun hx => H.space.large (hsub hx), fun hx => H.space.header (hsub hx),
      fun h1 h2 => H.space.unique h1.of_drop.1 h2.of_drop.1⟩,
    fun key hk hne => ?_, ⟨H.log.good, H.log.free, H.log.bin⟩⟩
  show (L.setLarge b none).Covers key (ownerAt T' key)
  have hm : key ∉ regionKeys b hd.mapLen := fun hm => (hst.set hm).elim hne hne
  have e := hst.other hk hm
  rw [e]
  exact (H.owner key hk (by rwa [← e])).drop hl fun hk' => hm (hkeys.mpr hk')

theorem HeapRep.dropLarge_effect (H : HeapRep cfg h bins L) (S : L.Sound cfg) (hl : L.large b = some hd)
    (hX : X b) {T' : OwnerTable}
    (hst : Stored k 0 (regionKeys b hd.mapLen) h.owners T') :
    Effect k X B h L { h with owners := T', registryGen := h.registryGen + 1 }
      (L.setLarge b none) := by
  have ho := H.space.large hl
  have hlt := ho.off_lt
  have hkeys := fun {key} => mem_regionKeys_iff b hd.mapLen key (by omega) ho.le
  refine ⟨fun a n hc hx => ?_, Keeps.refl, ⟨[], rfl, Clear.nil, fun _ _ hc => Or.inl hc⟩, Nat.le_succ _,
    fun hg => absurd hg (Nat.succ_ne_self _), fun key _ hN w hw => ?_, hst.grows, fun _ => Or.inl, rfl,
    rfl⟩
  · cases hc with
    | slot ho hs => exact .slot ho hs
    | large hl =>
      exact .large ((Ledger.setLarge_of_ne fun e => hx (by rwa [e])).trans hl)
  · obtain ⟨hw', hno⟩ := hw.of_drop
    rw [hst.other (hw'.key_lt S H.space) fun hm => hno hd hl H.space (hkeys.mp hm)]
    exact hN hw'

/-! ## `btm_large_alloc` -/

/-- A large object is mapped at `b`, and reads as zero. -/
structure Placed (cfg : Config) (k : Kernel) (bins : ℕ → ℕ → Bin) (h : Heap) (L : Ledger) (b : ℕ)
    (hd : LargeHdr) (h' : Heap) : Prop where
  none : L.large b = none
  done : Outcome cfg k (fun x => x = b) (fun _ _ => False) (fun _ _ => False) h L h' bins
    (L.setLarge b (some hd))
  zero : ∀ i < hd.mapLen, h'.mem.read (b + i) = 0
  chunks : h'.chunks = h.chunks

/-- A busy unit is one of before or the new object. -/
theorem Ledger.Busy.of_setLarge {a n : ℕ} (hb : (L.setLarge b (some hd)).Busy a n) :
    L.Unit a n ∨ b ≤ a ∧ a + n ≤ b + hd.mapLen := by
  cases hb with
  | slot hp hs =>
    exact Or.inl (Ledger.Busy.unit (.slot hp hs : L.Busy a _))
  | large hl =>
    by_cases e : a = b
    · subst e
      rw [Ledger.setLarge_self] at hl
      obtain rfl := Option.some.inj hl
      exact Or.inr ⟨le_refl _, le_refl _⟩
    · rw [Ledger.setLarge_of_ne e] at hl
      exact Or.inl (.large hl)

/-- Registering an object on blank pages of a trimmed reservation. -/
theorem placed_of_touched {v n : ℕ} (H : HeapRep cfg h bins L) (S : L.Sound cfg) (D : L.Settled)
    (V : Vacant L h v n) (T : Touched cfg L v n h h')
    (Sp : Spared (b / 4096) (hd.mapLen / 4096) h.log h'.log)
    (Bl : Blank h' (b / 4096) (hd.mapLen / 4096)) (hn : L.Unowned b hd.mapLen)
    (ho : LargeOk h'.mem.pt h'.mapped b hd) :
    Placed cfg k bins h L b hd (btmRegistryInsert k
      { h' with larges := Function.update h'.larges b hd } b hd.mapLen (b ||| 1)) := by
  have hlt := ho.off_lt
  have hbm : b % 4096 = 0 := ho.base_mod
  have hlm : hd.mapLen % 4096 = 0 := ho.len_mod
  obtain ⟨l1, e1, hst⟩ := btmRegistryInsert_spec k ({ h' with larges := Function.update h'.larges b hd }) (b ||| 1) b hd.mapLen (by omega) ho.le
  have H' := T.rep V H S
  have hE : Effect k (fun x => x = b) L.Unit h L _ _ := (T.effect V).trans
    (H'.addLarge_effect S hn ho (Function.update h'.larges b hd) hst)
  rw [e1]
  refine ⟨hn.none (by omega) H.space, ⟨S.setLarge, D.setLarge,
    H'.addLarge hn ho hst (by simp) fun x e => by simp [e], ?_, Ledger.setLarge_moved,
    Ledger.setLarge_tidy⟩, fun i hi => ?_, by rw [T.same]⟩
  · obtain ⟨ev, hev, hU, -⟩ := hE.log
    exact hE.reclear hev ((Sp.clear (a := b) (m := hd.mapLen) hev hU (by omega) (by omega)).mono
      fun hb => hb.of_setLarge)
  · have := (Bl ((b + i) / 4096) ⟨by omega, by omega⟩).2.2 (i % 4096) (by omega)
    rwa [show (b + i) / 4096 * 4096 + i % 4096 = b + i by omega] at this

/-- `btm_large_alloc` of a request that fits: the kernel has no room, or the object is placed. -/
theorem btmLargeAlloc_spec {a : ℕ} (H : HeapRep cfg h bins L) (S : L.Sound cfg) (D : L.Settled)
    (hf : Fits size (2 ^ a)) (hsize : 0 < size) :
    (btmLargeAlloc k h size (2 ^ a) = .ok (0, h) ∧
      mmapResult h k.large (largeWant size (2 ^ a)) = none) ∨
    ∃ raw b h', mmapResult h k.large (largeWant size (2 ^ a)) = some raw ∧
      b = largeBase raw (2 ^ a) ∧ btmLargeAlloc k h size (2 ^ a) = .ok (b + largeHdr (2 ^ a), h') ∧
      b % 2097152 = 0 ∧ 2 ^ a ∣ b ∧ largeHdr (2 ^ a) + size ≤ largeTotal size (2 ^ a) ∧
      (∀ {p}, inRun (b / 4096) (largeTotal size (2 ^ a) / 4096) p → h.mapped p = false) ∧
      (L.Unowned b (largeTotal size (2 ^ a)) →
        Placed cfg k bins h L b ⟨largeTotal size (2 ^ a), largeHdr (2 ^ a), size⟩ h') := by
  have Z := hf.sized
  generalize max (max a 4) 21 = e at Z
  have hbal := Z.balign
  cases hres : mmapResult h k.large (largeWant size (2 ^ a)) with
  | none =>
    refine Or.inl ⟨?_, rfl⟩
    unfold btmLargeAlloc
    dsimp only
    rw [hres]
  | some raw =>
    obtain ⟨hmod, hpos, -, hle, hun⟩ := freshRange_spec (Option.filter_eq_some_iff.mp hres).2
    obtain ⟨b1, b2, b3, b4, b5⟩ := Z.base hle
    have ht := Z.total_ge
    have htm := Z.total_mod
    have hg := Z.hdr_ge
    have hw := Z.want
    have hwm : largeWant size (2 ^ a) % 4096 = 0 := by
      have : 2 ^ 12 ∣ 2 ^ e := Nat.pow_dvd_pow 2 (by have := Z.chunk_le; omega)
      omega
    have V := H.vacant S hun
    obtain ⟨T, Sp, Bl⟩ := (@trimTo_spec cfg) V hmod hwm (by omega) htm b1 b5 hle
    have hmap : (placed h raw size (2 ^ a) (roundUp raw (2 ^ e))).mapped
        (roundUp raw (2 ^ e) / pageSize) = true :=
      (Bl _ ⟨le_refl _, by omega⟩).1
    refine Or.inr ⟨raw, _, _, rfl, by rw [largeBase, hbal], Z.alloc_eq hres hmap, b3, b4, ht,
      fun hp => ?_, fun hn => ?_⟩
    · have := hp.1
      have := hp.2
      exact hun ⟨by omega, by omega⟩
    · refine placed_of_touched H S D V T Sp Bl hn ⟨?_, by omega, htm, by dsimp only; omega, hg, Z.hdr_mod,
        by dsimp only; omega, fun hj => (Bl _ ⟨Nat.le_add_right .., by simp only [pageSize_eq] at hj ⊢; omega⟩).1,
        fun hj => (Bl _ ⟨Nat.le_add_right .., by simp only [pageSize_eq] at hj ⊢; omega⟩).2.1⟩
      simp only [pageSize_eq]
      omega

/-! ## `btm_large_free` -/

/-- The pages of an object that goes are vacant. -/
theorem HeapRep.vacant_drop (H : HeapRep cfg h bins L) (S : L.Sound cfg) (hl : L.large b = some hd)
    (H' : HeapRep cfg h' bins (L.setLarge b none)) :
    Vacant (L.setLarge b none) h' (b / 4096) (hd.mapLen / 4096) := by
  have ho := H.space.large hl
  have hbm : b % 4096 = 0 := ho.base_mod
  have hlm : hd.mapLen % 4096 = 0 := ho.len_mod
  have hlt := ho.off_lt
  have key : ∀ {p w}, inRun (b / 4096) (hd.mapLen / 4096) p →
      ¬ (L.setLarge b none).Covers (p / 512) w := by
    intro p w hp hc
    have := hp.1
    have := hp.2
    refine hc.of_drop.2 hd hl H.space ?_
    simp only [chunkSize_eq]
    omega
  refine H'.vacant_of S.setLarge (fun {c j} hc hj hr => ?_) (fun {b' hd' j} hb hj hr => ?_)
  · have hm : c % 2097152 = 0 := (S.setLarge.carving.aligned hc).1
    refine key (w := c) hr ?_
    have e : (c / 4096 + j) / 512 * chunkSize = c := by
      rw [chunkSize_eq]
      omega
    have hcov : (L.setLarge b none).Covers ((c / 4096 + j) / 512) ((c / 4096 + j) / 512 * chunkSize) :=
      .chunk (by rwa [e])
    rwa [e] at hcov
  · have ho' := H'.space.large hb
    have hm : b' % 4096 = 0 := ho'.base_mod
    have hm' : hd'.mapLen % 4096 = 0 := ho'.len_mod
    refine key hr (.large hb ?_ ?_)
    all_goals
      simp only [chunkSize_eq]
      omega

/-- The header of a live object can be read. -/
theorem HeapRep.largeHeader (H : HeapRep cfg h bins L) (hl : L.large b = some hd) :
    largeHeader h b = .ok hd := by
  have ho := H.space.large hl
  have hlm : hd.mapLen % 4096 = 0 := ho.len_mod
  have hlt := ho.off_lt
  have hm := ho.mapped (j := 0) (by rw [pageSize_eq]; omega)
  rw [BtMalloc.largeHeader, if_pos (by rwa [Nat.add_zero] at hm), H.space.header hl]

/-- `btm_large_free` of a live object. -/
theorem btmLargeFree_spec (H : HeapRep cfg h bins L) (S : L.Sound cfg) (D : L.Settled)
    (hl : L.large b = some hd) :
    ∃ h', btmLargeFree k h b = .ok h' ∧
      Outcome cfg k (fun x => x = b) (fun _ _ => False) (fun _ _ => False) h L h' bins (L.setLarge b none) ∧
      h'.chunks = h.chunks := by
  have ho := H.space.large hl
  have hbm : b % 4096 = 0 := ho.base_mod
  have hlm : hd.mapLen % 4096 = 0 := ho.len_mod
  have hlt := ho.off_lt
  obtain ⟨l1, e1, hst⟩ := btmRegistryRemove_spec k h b hd.mapLen
    (by omega) ho.le
  have H1 := H.dropLarge hl (h.registryGen + 1) hst
  have V := H.vacant_drop S hl H1
  have T0 : Touched cfg (L.setLarge b none) (b / 4096) (hd.mapLen / 4096)
    { h with owners := l1, registryGen := h.registryGen + 1 }
    { h with owners := l1, registryGen := h.registryGen + 1 } := .refl
  have T := T0.munmap (a := b) (m := hd.mapLen) (by omega) (by omega) hbm hlm
  unfold btmLargeFree
  rw [H.largeHeader hl]
  dsimp only
  rw [e1]
  refine ⟨_, rfl, ⟨S.setLarge, D.setLarge, T.rep V H1 S.setLarge, ?_, Ledger.setLarge_moved,
    Ledger.setLarge_tidy⟩, by rw [T.same]⟩
  exact (H.dropLarge_effect (X := fun x => x = b) S hl rfl hst).trans
    ((T.effect V).mono fun hb => hb.unit)

end BtMalloc
