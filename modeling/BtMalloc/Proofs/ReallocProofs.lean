import BtMalloc.Proofs.LargeReallocProofs
import BtMalloc.Proofs.SysProofs

/-!
# Proofs: calls for new storage, and `btm_realloc`

Every allocating entry point hands out one unit or none. `btm_realloc` leaves the object where it is, or
moves it: then it hands out a unit, copies, and gives the old unit up.
-/

namespace BtMalloc

open LinkedList PagedMemory Word

variable {cfg : Config} {k : Kernel} {X X' : ℕ → Prop} {Y Y' : ℕ → ℕ → Prop} {Z Z' : ℕ → PoolId → Prop}
  {h h' h'' : Heap} {s s' s'' : Sys} {bg bg' : BgPc} {L L' L'' : Ledger} {t a p q n size alignment ra : ℕ} {c : Alloc}

/-! ## Operations one after the other -/

theorem Outcome.mono {bins : ℕ → ℕ → Bin} (O : Outcome cfg k X Y Z h L h' bins L') (hX : ∀ {x}, X x → X' x)
    (hY : ∀ {t i}, Y t i → Y' t i) (hZ : ∀ {c q}, Z c q → Z' c q) :
    Outcome cfg k X' Y' Z' h L h' bins L' :=
  ⟨O.sound, O.settled, O.rep, O.effect.weaken hX, O.moved.mono hX hY hZ, O.tidy⟩

theorem SysRep.outcome (R : SysRep cfg s bg L) : Outcome cfg k X Y Z s.heap L s.heap s.bins L :=
  ⟨R.sound, R.settled, R.rep, Effect.refl, .refl, .refl⟩

/-- A second operation that brings no unit into use. -/
theorem Outcome.trans {bins bins' : ℕ → ℕ → Bin} (O : Outcome cfg k X Y Z h L h' bins L')
    (O' : Outcome cfg k X Y Z h' L' h'' bins' L'') (hb : ∀ ⦃x n⦄, L''.Busy x n → L'.Busy x n) :
    Outcome cfg k X Y Z h L h'' bins' L'' :=
  ⟨O'.sound, O'.settled, O'.rep, (O.effect.mono fun h => hb h).trans O'.effect, O.moved.trans O'.moved,
    O.tidy.trans O'.tidy⟩

/-! ## Objects of the client -/

theorem Ledger.Owned.moved (ho : L.Owned a p n) (M : L.Moved L' X Y Z) (hx : ¬ X a) :
    L'.Owned a p n := by
  cases ho with
  | slot h1 h2 h3 =>
    obtain ⟨h4, h5⟩ := M.stay h1 hx h2
    exact .slot h4 h5 h3
  | large h1 h2 => exact .large ((M.large hx).trans h1) h2

/-- The client has at least nothing of a slot handed out. -/
theorem Ledger.SlotIn.owned {q : PoolId} {r : SlabRef} {i : ℕ} (hs : L.SlotIn q r i p)
    (ho : L.place p = .out) : L.Owned p p 0 := .slot ho hs (Nat.zero_le _)

/-- The bytes of an object are in its unit. -/
theorem Ledger.Owned.client (ho : L.Owned a p n) : ∃ m o, L.Client a m ∧ p = a + o ∧ o + n ≤ m := by
  cases ho with
  | slot h1 h2 h3 => exact ⟨_, 0, .slot h1 h2, rfl, by omega⟩
  | large h1 h2 => exact ⟨_, _, .large h1, rfl, h2⟩

/-- A unit holds one object. -/
theorem Ledger.Owned.inj {p' n' : ℕ} {pt : ℕ → Frame} {mapped : ℕ → Bool} {larges : ℕ → LargeHdr}
    (ho : L.Owned a p n) (ho' : L.Owned a p' n') (S : L.Sound cfg) (Sp : SpaceRep pt mapped larges L) :
    p = p' := by
  cases ho with
  | slot h1 h2 _ =>
    cases ho' with
    | slot => rfl
    | large h3 _ => exact absurd rfl (Sp.large_ne_slot S h3 h2)
  | large h1 _ =>
    cases ho' with
    | slot h3 h4 _ => exact absurd rfl (Sp.large_ne_slot S h1 h4)
    | large h3 _ =>
      rw [h1, Option.some.injEq] at h3
      rw [h3]

/-- An operation on other units leaves the bytes of an object alone. -/
theorem Effect.read {B : ℕ → ℕ → Prop} (E : Effect k X B h L h' L') (ho : L.Owned a p n) (hx : ¬ X a) {i : ℕ}
    (hi : i < n) : h'.mem.read (p + i) = h.mem.read (p + i) := by
  obtain ⟨m, o, hc, rfl, hm⟩ := ho.client
  have := E.bytes hc hx (i := o + i) (by omega)
  rwa [← Nat.add_assoc] at this

theorem SysRep.owned_large {b u : ℕ} {hd : LargeHdr} (R : SysRep cfg s bg L) (hl : L.large b = some hd)
    (ho : L.Owned b p u) : p = b + hd.userOff ∧ hd.userOff + u ≤ hd.mapLen := by
  cases ho with
  | slot h1 h2 _ => exact absurd rfl (R.rep.space.large_ne_slot R.sound hl h2)
  | large h1 h2 =>
    obtain rfl := Option.some.inj (hl.symm.trans h1)
    exact ⟨rfl, h2⟩

/-- The client has no more of a slot than its class. -/
theorem SysRep.owned_le {q : PoolId} {r : SlabRef} {i : ℕ} (R : SysRep cfg s bg L) (hs : L.SlotIn q r i p)
    (ho : L.Owned a p n) : n ≤ btmScToSize q.sc := by
  obtain ⟨e, -⟩ := R.owned_slot ho hs
  cases ho with
  | slot _ h2 h3 =>
    obtain ⟨rfl, -, -⟩ := R.sound.carving.slotIn_inj hs h2
    exact h3
  | large h1 _ =>
    have := (R.rep.space.large h1).off_ge
    simp only [show largeHdrSize = 32 from rfl] at this
    omega

/-! ## Objects that the table knows -/

theorem SysRep.lookup_word (R : SysRep cfg s bg L) (ho : L.Owned a p n) (h0 : btmRegistryLookup s.heap p ≠ 0) :
    (∃ q r i, L.SlotIn q r i p ∧ a = p ∧ btmRegistryLookup s.heap p = r.chunk) ∨
      ∃ hd, L.large a = some hd ∧ p = a + hd.userOff ∧ btmRegistryLookup s.heap p = a ||| 1 := by
  cases ho with
  | slot _ hs _ => exact Or.inl ⟨_, _, _, hs, rfl, (R.lookup (R.slot_at hs)).resolve_left h0⟩
  | large hl _ => exact Or.inr ⟨_, hl, rfl, (R.lookup (R.large_at hl)).resolve_left h0⟩

/-- An object that stays in its unit keeps its owner word. -/
theorem SysRep.lookup_same {n' : ℕ} (R : SysRep cfg s bg L) (R' : SysRep cfg s' bg' L') (ho : L.Owned a p n)
    (ho' : L'.Owned a p n') (h0 : btmRegistryLookup s.heap p ≠ 0) (h0' : btmRegistryLookup s'.heap p ≠ 0) :
    btmRegistryLookup s'.heap p = btmRegistryLookup s.heap p := by
  have hchunk : ∀ {q : PoolId} {r : SlabRef} {i : ℕ} {L0 : Ledger} {s0 : Sys} {bg0 : BgPc}, SysRep cfg s0 bg0 L0 →
      L0.SlotIn q r i p → r.chunk = p / chunkSize * chunkSize := by
    intro q r i L0 s0 bg0 R0 hs
    have pos := R0.sound.carving.slotPos hs
    have h1 := pos.chunk_mod
    have h2 := pos.region pos.size_pos
    rw [chunkSize_eq]
    omega
  rcases R.lookup_word ho h0 with ⟨q, r, i, hs, e, h1⟩ | ⟨hd, hl, e, h1⟩
  · rcases R'.lookup_word ho' h0' with ⟨q', r', i', hs', -, h2⟩ | ⟨hd', hl', e', -⟩
    · rw [h1, h2, hchunk R hs, hchunk R' hs']
    · have := (R'.rep.space.large hl').off_ge
      simp only [show largeHdrSize = 32 from rfl] at this
      omega
  · rcases R'.lookup_word ho' h0' with ⟨q', r', i', hs', e', -⟩ | ⟨hd', hl', -, h2⟩
    · have := (R.rep.space.large hl).off_ge
      simp only [show largeHdrSize = 32 from rfl] at this
      omega
    · rw [h1, h2]

/-- `btm_malloc_usable_size` of an object is what its unit has room for. -/
theorem SysRep.usable (R : SysRep cfg s bg L) (ho : L.Owned a p n) (h0 : btmRegistryLookup s.heap p ≠ 0) :
    ∃ u, L.Owned a p u ∧ (∀ ⦃m⦄, L.Owned a p m → m ≤ u) ∧ ∀ t, btmMallocUsableSize t p s = .ok u := by
  obtain ⟨v, ha, -, -⟩ := R.owner_word ho
  have hpos := ha.pos
  have hlt := ha.lt
  have hres : ∀ t, (btmResolveOwner t p s).1 = btmRegistryLookup s.heap p := fun t =>
    (btmResolveOwner_spec t R (by omega)).1
  cases ho with
  | @slot q r i _ _ hout hs hle =>
    have pos := R.sound.carving.slotPos hs
    have hm := pos.chunk_mod
    have hlook := (R.lookup (R.slot_at hs)).resolve_left h0
    refine ⟨btmScToSize q.sc, .slot hout hs (le_refl _), fun m hm => R.owned_le hs hm, fun t => ?_⟩
    rw [btmMallocUsableSize, if_neg (by omega), hres t]
    dsimp only
    rw [if_neg h0, hlook, if_pos (by rw [Nat.and_one_is_mod]; omega), (R.rep.header q r.chunk hs.1.1).sc]
  | @large _ _ hd hl hle =>
    have ok := R.rep.space.large hl
    have hev := ok.even
    have hend := ok.le
    have hoff := ok.off_lt
    have hlook := (R.lookup (R.large_at hl)).resolve_left h0
    refine ⟨hd.mapLen - hd.userOff, .large hl (by omega), fun m hm => ?_, fun t => ?_⟩
    · have := (R.owned_large hl hm).2
      omega
    · rw [btmMallocUsableSize, if_neg (by omega), hres t]
      dsimp only
      rw [if_neg h0, hlook, or_one_of_even hev, if_neg (by rw [Nat.and_one_is_mod]; omega), btmLargeUsableSize,
        Nat.add_sub_cancel, R.rep.largeHeader hl]
      dsimp only
      congr 1
      omega

/-- An object that the table knows is known as long as it is there. -/
theorem Effect.lookup_ne_zero {B : ℕ → ℕ → Prop} {a' n' : ℕ} (E : Effect k X B h L s'.heap L')
    (hT : h.owners = s.heap.owners) (R : SysRep cfg s bg L) (R' : SysRep cfg s' bg' L') (ho : L.Owned a p n)
    (ho' : L'.Owned a' p n') (h0 : btmRegistryLookup s.heap p ≠ 0) : btmRegistryLookup s'.heap p ≠ 0 := by
  obtain ⟨w, ha, hw, -⟩ := R.owner_word ho
  obtain ⟨w', ha', hw', -⟩ := R'.owner_word ho'
  have hlt := ha.lt
  rw [btmRegistryLookup_eq] at h0 ⊢
  have hc := R.rep.owner (p / chunkSize) (by rw [chunkSize_eq]; omega) h0
  have hn : Named s'.heap.owners L' (p / chunkSize) := E.named (.of_owner (by rwa [hT])) fun v hv => by
    rw [hT]
    exact R.rep.space.unique hc hv
  rw [hn ha'.covers]
  exact hw'

/-- The client got no more of an object that is not in `X`. -/
theorem Ledger.Owned.of_moved {m : ℕ} (ho : L.Owned a p n) (R' : SysRep cfg s' bg' L') (M : L.Moved L' X Y Z)
    (hx : ¬ X a) (ho' : L'.Owned a p m) : L.Owned a p m := by
  cases ho with
  | slot h1 h2 _ => exact .slot h1 h2 (R'.owned_le (M.stay h1 hx h2).2 ho')
  | large h1 _ => exact .large h1 (R'.owned_large ((M.large hx).trans h1) ho').2

theorem Unchanged.refl : Unchanged s s p := ⟨rfl, fun _ => rfl, fun _ _ _ _ _ => rfl⟩

theorem Unchanged.trans (U : Unchanged s s' p) (U' : Unchanged s' s'' p) : Unchanged s s'' p :=
  ⟨U'.owner.trans U.owner, fun t => (U'.usable t).trans (U.usable t), fun t n i hn hi =>
    (U'.bytes t n i ((U.usable t).trans hn) hi).trans (U.bytes t n i hn hi)⟩

/-- An object that keeps its unit, its bytes and its place in the table is what it was. -/
theorem SysRep.unchanged (R : SysRep cfg s bg L) (R' : SysRep cfg s' bg' L') (ho : L.Owned a p n)
    (h0 : btmRegistryLookup s.heap p ≠ 0) (h0' : btmRegistryLookup s'.heap p ≠ 0)
    (hiff : ∀ ⦃m⦄, L'.Owned a p m ↔ L.Owned a p m)
    (hbytes : ∀ ⦃m⦄, L.Owned a p m → ∀ i < m, s'.heap.mem.read (p + i) = s.heap.mem.read (p + i)) :
    Unchanged s s' p := by
  obtain ⟨u, hou, hmax, hu⟩ := R.usable ho h0
  obtain ⟨u', hou', hmax', hu'⟩ := R'.usable (hiff.mpr ho) h0'
  have h1 := hmax' (hiff.mpr hou)
  have h2 := hmax (hiff.mp hou')
  obtain rfl : u' = u := by omega
  refine ⟨R.lookup_same R' ho (hiff.mpr ho) h0 h0', fun t => (hu' t).trans (hu t).symm, fun t m i hm hi => ?_⟩
  obtain rfl : m = u' := Except.ok.inj (hm.symm.trans (hu t))
  exact hbytes hou i hi

/-- An operation on other units leaves an object as it is. -/
theorem Outcome.unchanged (O : Outcome cfg k X Y Z h L s'.heap s'.bins L') (hm : h.mem = s.heap.mem)
    (hT : h.owners = s.heap.owners) (R : SysRep cfg s bg L) (R' : SysRep cfg s' bg' L') (ho : L.Owned a p n)
    (hx : ¬ X a) (h0 : btmRegistryLookup s.heap p ≠ 0) : Unchanged s s' p := by
  refine R.unchanged R' ho h0 (O.effect.lookup_ne_zero hT R R' ho (ho.moved O.moved hx) h0)
    (fun _ => ⟨ho.of_moved R' O.moved hx, fun h => h.moved O.moved hx⟩) fun m h i hi => ?_
  rw [← hm]
  exact O.effect.read h hx hi

/-- Looking up an owner leaves an object as it is. -/
theorem Resolved.unchanged (V : Resolved s s') (R : SysRep cfg s bg L) (R' : SysRep cfg s' bg L) (ho : L.Owned a p n)
    (h0 : btmRegistryLookup s.heap p ≠ 0) : Unchanged s s' p := by
  have O := R.outcome (k := Kernel.plain) (X := fun _ => False) (Y := fun _ _ => False) (Z := fun _ _ => False)
  rw [← V.bins] at O
  exact Outcome.unchanged (by rw [V.heap]; exact O) rfl rfl R R' ho id h0

/-! ## Storing into an object -/

/-- The heap with `m` bytes at `p + o` written. -/
def Heap.store (h : Heap) (p m : ℕ) (f : ℕ → UInt8) : Heap := { h with mem := h.mem.write p m f }

/-- Writing into an object of the client. -/
theorem Outcome.store {bins : ℕ → ℕ → Bin} {o m : ℕ} {f : ℕ → UInt8}
    (O : Outcome cfg k X Y Z h L h' bins L') (ho : L'.Owned a p n) (hX : X a) (hle : o + m ≤ n) :
    Outcome cfg k X Y Z h L (h'.store (p + o) m f) bins L' := by
  obtain ⟨len, x, hc, rfl, hm⟩ := ho.client
  have hk := (O.rep.apart O.sound).write_keeps hc.unit (o := x + o) (k := m) (f := f) (by omega)
  rw [← Nat.add_assoc] at hk
  exact O.scribble hc hX rfl hk

theorem SysRep.store {o m : ℕ} {f : ℕ → UInt8} (R : SysRep cfg s bg L) (ho : L.Owned a p n) (hle : o + m ≤ n) :
    SysRep cfg (s.setHeap (s.heap.store (p + o) m f)) bg L := by
  have O := (R.outcome (k := Kernel.plain) (X := fun x => x = a) (Y := fun _ _ => False)
    (Z := fun _ _ => False)).store (f := f) ho rfl hle
  exact ⟨O.sound, O.settled, O.rep, R.bg, R.thread, fun t i => ⟨(R.rcache t i).gen, (R.rcache t i).owner⟩⟩

theorem SysRep.store_hit {o m i : ℕ} {f : ℕ → UInt8} (R : SysRep cfg s bg L) (ho : L.Owned a p n)
    (hle : o + m ≤ n) (hi : i < m) : (s.heap.store (p + o) m f).mem.read (p + o + i) = f i := by
  obtain ⟨len, x, hc, rfl, hm⟩ := ho.client
  have := (R.rep.apart R.sound).write_hit hc.unit (o := x + o) (k := m) (f := f) (by omega) (i := i) hi
  rwa [← Nat.add_assoc] at this

/-! ## Calls for new storage -/

theorem MallocDone.store {m : ℕ} {f : ℕ → UInt8} (D : MallocDone cfg k t s bg L size a p s' L') (hp : p ≠ 0)
    (hle : m ≤ size) : MallocDone cfg k t s bg L size a p (s'.setHeap (s'.heap.store p m f)) L' := by
  obtain ⟨Y, Z, tbl, n, O⟩ := D.done
  obtain ⟨-, hown⟩ := D.given.resolve_left fun h => hp h.1
  have O' := O.store (o := 0) (m := m) (f := f) hown rfl (by omega)
  have R' := D.rep.store (o := 0) (m := m) (f := f) hown (by omega)
  rw [Nat.add_zero] at O' R'
  exact ⟨⟨Y, Z, tbl, n, O'⟩, R', D.vacates, D.given, D.bin, D.aligned, D.pc⟩

/-- A large request goes to regions that nobody owns. -/
def Ledger.Takes (L : Ledger) (k : Kernel) (h : Heap) (size alignment : ℕ) : Prop :=
  ∀ raw, mmapResult h k.large (largeWant size alignment) = some raw →
    L.Unowned (largeBase raw alignment) (largeTotal size alignment)

theorem SysRep.owned_mod (R : SysRep cfg s bg L) (ho : L.Owned a p n) : btmAlignment ∣ p := by
  cases ho with
  | slot _ hs _ => exact Nat.dvd_of_mod_eq_zero (R.sound.carving.slotPos hs).mod
  | large hl _ =>
    have ok := R.rep.space.large hl
    have hb : btmAlignment ∣ a := (show btmAlignment ∣ pageSize by decide).trans (Nat.dvd_of_mod_eq_zero ok.base_mod)
    exact Nat.dvd_add hb (Nat.dvd_of_mod_eq_zero ok.off_mod)

theorem MallocDone.mod (D : MallocDone cfg k t s bg L size a p s' L') (hp : p ≠ 0) : btmAlignment ∣ p :=
  D.rep.owned_mod (D.given.resolve_left fun h => hp h.1).2

/-- What is left of `btm_calloc` when `btm_malloc` has returned. -/
theorem Alloc.finish_done {x : ℕ × Sys} (D : MallocDone cfg k t s bg L c.bytes a x.1 x.2 L') :
    MallocDone cfg k t s bg L c.bytes a (c.finish x).1 (c.finish x).2 L' ∧ (c.finish x).1 = x.1 ∧
      ((c.finish x).1 ≠ 0 → c.zeroed = true → ∀ i < c.bytes, (c.finish x).2.heap.mem.read (x.1 + i) = 0) := by
  cases c with
  | calloc m n =>
    unfold Alloc.finish
    dsimp only
    split_ifs with hp
    · exact ⟨hp ▸ D, hp.symm, fun h => absurd rfl h⟩
    · refine ⟨D.store hp (le_refl _), rfl, fun _ _ i hi => ?_⟩
      have := D.rep.store_hit (o := 0) (f := fun _ => 0) (D.given.resolve_left fun h => hp h.1).2
        (Nat.le_of_eq (Nat.zero_add _)) hi
      rwa [Nat.add_zero] at this
  | malloc n | realloc n | alignedAlloc al n | posixMemalign al n => exact ⟨D, rfl, fun _ h => by cases h⟩

/-- Every call for new storage that fits or that the kernel refuses. -/
theorem Alloc.run_spec (k : Kernel) (ra : ℕ) (R : SysRep cfg s bg L) (hpc : (s.threads t).pc = .idle)
    (hw : c.Words) (hf : c.Fit k s.heap)
    (hun : ∀ size alignment, c.large = some (size, alignment) → L.Takes k s.heap size alignment) :
    ∃ a p s' L', c.run cfg k t ra s = .ok (p, s') ∧ MallocDone cfg k t s bg L c.bytes a p s' L' ∧
      (p ≠ 0 → max btmAlignment c.alignment ∣ p ∧ (c.zeroed = true → ∀ i < c.bytes, s'.heap.mem.read (p + i) = 0)) := by
  cases hr : c.request with
  | none => exact ⟨0, 0, s, L, run_none hr, .refl R, fun h => absurd rfl h⟩
  | some x =>
    obtain ⟨size, alignment⟩ := x
    obtain ⟨hb, hpos, hlt, e, rfl⟩ := request_some hw hr
    have hal := request_alignment hr
    rw [hb]
    cases hl : c.large with
    | some y =>
      obtain ⟨size', al'⟩ := y
      obtain ⟨rfl, rfl⟩ : size = size' ∧ 2 ^ e = al' := by
        have := (large_some hl).1
        rw [hr] at this
        exact ⟨congrArg Prod.fst (Option.some.inj this), congrArg Prod.snd (Option.some.inj this)⟩
      obtain ⟨b, p, s', L', he, D, hp⟩ := largeAt_done t R hpos (hf _ _ hl) (hun _ _ hl)
      refine ⟨b, p, s', L', (run_large hw hl).trans he, D, fun h0 => ⟨?_, fun _ => (hp h0).2⟩⟩
      rw [hal]
      rcases Nat.le_total btmAlignment (2 ^ e) with h | h
      · rw [max_eq_right h]
        exact (hp h0).1
      · rw [max_eq_left h]
        exact D.mod h0
    | none =>
      obtain ⟨hc, hle⟩ := large_none hr hl
      obtain ⟨a, p, s', L', he, D, -⟩ := btmMallocAt_spec k ra R hpc hlt (fun h => absurd h hc)
        fun h => absurd h hc
      rw [← hb] at D
      obtain ⟨D', e1, hz⟩ := finish_done (c := c) (x := (p, s')) D
      refine ⟨a, p, (c.finish (p, s')).2, L', ?_, ?_, fun h0 => ⟨?_, ?_⟩⟩
      · rw [run_small hw hr hl, he]
        exact congrArg Except.ok (Prod.ext e1 rfl)
      · rw [e1, hb] at D'
        exact D'
      · rw [hal, max_eq_left hle]
        exact D.mod h0
      · rw [← hb]
        exact hz (e1.trans_ne h0)

/-! ## `btm_realloc` -/

/-- The object at `p`, in the unit at `a`, goes on as `n` bytes at `q`, in the unit at `a'`. -/
structure Resized (cfg : Config) (k : Kernel) (s : Sys) (bg : BgPc) (L : Ledger) (t a p a' q n : ℕ)
    (fl : Option (ℕ × ℕ)) (s' : Sys) (L' : Ledger) : Prop where
  done : ∃ Y Z tbl m, Outcome cfg k (fun x => x = a ∨ x = a') Y Z (s.heap.reintern tbl m) L s'.heap s'.bins L'
  rep : SysRep cfg s' bg L'
  own : L'.Owned a' q n
  new : a' = a ∨ L.Vacates a'
  /-- The old storage is kept, or was given up. -/
  back : a' = a ∧ q = p ∨ L'.Vacates a ∧ ∃ s1, Unchanged s s1 p ∧ GaveBack cfg k t s1.heap p s'
  bytes : ∀ ⦃u⦄, L.Owned a p u → ∀ i < min u n, s'.heap.mem.read (q + i) = s.heap.mem.read (p + i)
  place : ∀ ⦃b hd⦄, L'.large b = some hd → L.large b ≠ none ∨ b % chunkSize = 0 ∨ k.mremap = some b
  pc : ∀ t, (s'.threads t).pc = (s.threads t).pc
  flush : fl ≠ none → (s'.threads t).tls = true

/-- What the rest of a call did after the owner was looked up is what the call did. -/
theorem Resized.resolved {s1 : Sys} {a' : ℕ} {fl : Option (ℕ × ℕ)}
    (D : Resized cfg k s1 bg L t a p a' q n fl s' L') (V : Resolved s s1)
    (hU : a' = a ∧ q = p ∨ Unchanged s s1 p) : Resized cfg k s bg L t a p a' q n fl s' L' := by
  have hd := D.done
  have hb := D.bytes
  rw [V.heap] at hd hb
  refine ⟨hd, D.rep, D.own, D.new, ?_, hb, D.place, fun t' => (D.pc t').trans (V.pc t'), D.flush⟩
  rcases hU with e | U
  · exact Or.inl e
  · rcases D.back with e | ⟨hv, s2, U', hgave⟩
    · exact Or.inl e
    · exact Or.inr ⟨hv, s2, U.trans U', hgave⟩

/-- The object stays as it is. -/
theorem Resized.stay (R : SysRep cfg s bg L) (ho : L.Owned a p n) : Resized cfg k s bg L t a p a p n none s L :=
  ⟨⟨fun _ _ => False, fun _ _ => False, s.heap.internTbl, s.heap.internNext, R.outcome⟩, R, ho, Or.inl rfl,
    Or.inl ⟨rfl, rfl⟩, fun _ _ _ _ => rfl, fun _ _ hl => Or.inl (by simp [hl]), fun _ => rfl, fun h => absurd rfl h⟩

/-- There is no unit at 0. -/
theorem SysRep.client_zero (R : SysRep cfg s bg L) : ¬ L.Client 0 n := by
  intro hc
  cases hc with
  | slot h1 h2 => exact R.vacates_zero (h2.owned h1)
  | large hl => exact absurd (R.rep.space.large hl).base_pos (lt_irrefl 0)

/-- A call for new storage that got nothing concerns no unit. -/
theorem MallocDone.refused (R : SysRep cfg s bg L) (D : MallocDone cfg k t s bg L size a 0 s' L') :
    ∃ Y Z tbl m, Outcome cfg k X Y Z (s.heap.reintern tbl m) L s'.heap s'.bins L' := by
  obtain ⟨Y, Z, tbl, m, O⟩ := D.done
  obtain ⟨-, rfl⟩ := D.given.resolve_right fun h => h.1 rfl
  have hz : ∀ {L0 : Ledger} {s0 : Sys}, SysRep cfg s0 bg L0 → L0.place 0 = .out → False := by
    intro L0 s0 R0 ho
    obtain ⟨q, r, i, hs⟩ := R0.sound.slots.slot (s := 0) (by simp [ho])
    exact R0.client_zero (.slot ho hs)
  have hl : ∀ {L0 : Ledger} {s0 : Sys}, SysRep cfg s0 bg L0 → L0.large 0 = none := by
    intro L0 s0 R0
    cases hl : L0.large 0 with
    | none => rfl
    | some hd => exact absurd (.large hl) (R0.client_zero (n := hd.mapLen))
  have E := O.effect
  have M := O.moved
  refine ⟨Y, Z, tbl, m, O.sound, O.settled, O.rep,
    ⟨fun x n hc _ => E.client hc fun e => R.client_zero (e ▸ hc),
      fun x n i hc _ hi => E.bytes hc (fun e => R.client_zero (e ▸ hc)) hi, E.log, E.gen, E.owner, E.named, E.leaves,
      E.fresh, E.intern⟩,
    ⟨fun q r i x ho _ hs => M.stay ho (fun e => hz R (e ▸ ho)) hs,
      fun x ho _ => M.back ho fun e => hz D.rep (e ▸ ho), M.bin, M.own, fun b _ => ?_⟩, O.tidy⟩
  by_cases e : b = 0
  · rw [e, hl R, hl D.rep]
  · exact M.large e

/-- `btm_realloc` that gets no new storage leaves the object alone. -/
theorem Resized.refused (R : SysRep cfg s bg L) (D : MallocDone cfg k t s bg L size q 0 s' L')
    (ho : L.Owned a p n) :
    Resized cfg k s bg L t a p a p n none s' L' ∧ ∀ m, L'.Owned a p m → L.Owned a p m := by
  obtain ⟨Y, Z, tbl, m, O⟩ := D.refused (X := fun _ => False) R
  refine ⟨⟨⟨Y, Z, tbl, m, O.mono False.elim id id⟩, D.rep, ho.moved O.moved id, Or.inl rfl, Or.inl ⟨rfl, rfl⟩,
    fun u hu i hi => O.effect.read hu id (by omega), fun b hd hl => Or.inl ?_, D.pc, fun h => absurd rfl h⟩,
    fun _ => ho.of_moved D.rep O.moved id⟩
  rw [← O.moved.large id, hl]
  simp

/-- The object moves: a unit was handed out, the bytes were copied, and the old unit was given up. -/
theorem Resized.move {a' n0 : ℕ} {fl : Option (ℕ × ℕ)} {s1 s3 : Sys} {L1 L3 : Ledger}
    (R : SysRep cfg s bg L) (ho : L.Owned a p n) (hlook : btmRegistryLookup s.heap p ≠ 0)
    (D : MallocDone cfg k t s bg L size a' q s1 L1) (hq : q ≠ 0) (hn0 : n0 ≤ size)
    (hcopy : ∀ u, L.Owned a p u → min u size ≤ n0)
    (F : FreeDone cfg k (s1.setHeap (s1.heap.memcpy q p n0)) bg L1 t a p fl s3 L3) :
    Resized cfg k s bg L t a p a' q size fl s3 L3 := by
  have hne : a' ≠ a := fun e => D.vacates (e ▸ ho)
  have D2 : MallocDone cfg k t s bg L size a' q (s1.setHeap (s1.heap.memcpy q p n0)) L1 := D.store hq hn0
  obtain ⟨Y, Z, tbl, m, O⟩ := D2.done
  have U := O.unchanged rfl rfl R D2.rep ho (Ne.symm hne) hlook
  obtain ⟨hv, hgave⟩ := F.back.resolve_right fun h => hlook (U.owner.symm.trans h.1)
  obtain ⟨-, hown⟩ := D2.given.resolve_left fun h => hq h.1
  obtain ⟨Y', O'⟩ := F.done
  refine ⟨⟨fun t i => Y t i ∨ Y' t i, Z, tbl, m, (O.mono Or.inr Or.inl id).trans (O'.mono Or.inl Or.inr False.elim)
    F.busy⟩, F.rep, hown.moved O'.moved hne, Or.inr D.vacates, Or.inr ⟨hv, _, U, hgave⟩, fun u hu i hi => ?_,
    fun b hd hl => ?_, fun t' => (F.pc t').trans (D2.pc t'), F.flush⟩
  · obtain ⟨Y1, Z1, tbl1, m1, O1⟩ := D.done
    have hi' := hcopy u hu
    have hhit := D.rep.store_hit (o := 0) (m := n0) (i := i) (f := fun i => s1.heap.mem.read (p + i)) hown
      (by omega) (by omega)
    rw [Nat.add_zero] at hhit
    calc s3.heap.mem.read (q + i)
        = (s1.heap.memcpy q p n0).mem.read (q + i) := O'.effect.read hown hne (by omega)
      _ = s1.heap.mem.read (p + i) := hhit
      _ = s.heap.mem.read (p + i) := O1.effect.read hu (Ne.symm hne) (by omega)
  · by_cases e : b = a
    · subst e
      have := (F.rep.rep.space.large hl).off_lt
      have ho3 : L3.Owned b (b + hd.userOff) 0 := .large hl (by omega)
      exact absurd ho3 fun h => hv h
    · rw [O'.moved.large e] at hl
      by_cases e' : b = a'
      · subst e'
        exact Or.inr (Or.inl (D.aligned hl))
      · rw [O.moved.large e'] at hl
        exact Or.inl (by simp [hl])

/-- A mapping that was moved or resized, or left alone. -/
theorem Rehoused.resized {b nb : ℕ} {hd hd' : LargeHdr} (R : SysRep cfg s bg L)
    (H : Rehoused cfg k s.bins s.heap L b hd nb hd' h') (hl : L.large b = some hd)
    (hlook : btmRegistryLookup s.heap (b + hd.userOff) = b ||| 1) (hle : hd.userOff + n ≤ hd'.mapLen) :
    Resized cfg k s bg L t b (b + hd.userOff) nb (nb + hd.userOff) n none (s.setHeap h') (L.rehouse b nb hd') := by
  have hnb : (L.rehouse b nb hd').large nb = some hd' := Ledger.rehouse_self
  refine ⟨⟨_, _, s.heap.internTbl, s.heap.internNext, H.done⟩, R.next H.done ⟨rfl, rfl, fun c _ => ?_⟩
    (fun t => (R.thread t).congr fun _ => rfl) R.rcache, ?_, ?_, ?_, fun u hu i hi => ?_, fun x hx hb => ?_,
    fun _ => rfl, fun h => absurd rfl h⟩
  · show (h'.chunks c).next = _
    rw [H.chunks]
  · rw [← H.off]
    exact .large hnb (by rw [H.off]; exact hle)
  · rcases H.place with e | ⟨-, hnone⟩
    · exact Or.inl e
    · refine Or.inr fun p' n' ho => ?_
      cases ho with
      | slot h1 h2 _ => exact H.done.rep.space.large_ne_slot H.done.sound hnb h2 rfl
      | large h1 _ =>
        rw [hnone] at h1
        cases h1
  · by_cases e : nb = b
    · exact Or.inl ⟨e, by rw [e]⟩
    · refine Or.inr ⟨fun p' n' ho => ?_, s, .refl, .unmap b hlook (by rw [R.rep.space.header hl]) fun j hj => ?_⟩
      · cases ho with
        | slot h1 h2 _ => exact R.rep.space.large_ne_slot R.sound hl h2 rfl
        | large h1 _ =>
          rw [Ledger.rehouse, Ledger.setLarge_of_ne (Ne.symm e), Ledger.setLarge_self] at h1
          cases h1
      · rw [R.rep.space.header hl] at hj
        exact H.gone e j hj
  · have hu := (R.owned_large hl hu).2
    have := H.bytes (hd.userOff + i) (by omega)
    rwa [← Nat.add_assoc, ← Nat.add_assoc] at this
  · by_cases e1 : x = nb
    · subst e1
      rcases H.place with rfl | ⟨hm, -⟩
      · exact Or.inl (by simp [hl])
      · exact Or.inr (Or.inr hm)
    · rw [Ledger.rehouse, Ledger.setLarge_of_ne e1] at hb
      by_cases e2 : x = b
      · rw [e2, Ledger.setLarge_self] at hb
        cases hb
      · rw [Ledger.setLarge_of_ne e2] at hb
        exact Or.inl (by simp [hb])

/-- How `btm_realloc` of the object at `p` ended: with `NULL` and the object as it was, or with the object at
    `q`. -/
def Reallocated (cfg : Config) (k : Kernel) (s : Sys) (bg : BgPc) (L : Ledger) (t ra a p size q : ℕ)
    (fl : Option (ℕ × ℕ)) (s' : Sys) (L' : Ledger) : Prop :=
  q = 0 ∧ fl = none ∧ (btmRegistryLookup s.heap p = 0 ∨ ResizeRefused cfg k t ra s p size) ∧
      (∀ n, L.Owned a p n → Resized cfg k s bg L t a p a p n none s' L') ∧ (∀ n, L'.Owned a p n → L.Owned a p n) ∨
    q ≠ 0 ∧ ∃ a', Resized cfg k s bg L t a p a' q size fl s' L'

theorem ResizeRefused.resolved {s1 : Sys} (h : ResizeRefused cfg k t ra s1 p size) (V : Resolved s s1) :
    ResizeRefused cfg k t ra s p size := by
  cases h with
  | remap h1 h2 h3 h4 =>
    rw [V.heap] at h1 h3 h4
    exact .remap h1 h2 h3 h4
  | malloc V' he => exact .malloc (V.trans V') he

theorem Reallocated.resolved {s1 : Sys} {fl : Option (ℕ × ℕ)}
    (D : Reallocated cfg k s1 bg L t ra a p size q fl s' L') (V : Resolved s s1) (U : Unchanged s s1 p) :
    Reallocated cfg k s bg L t ra a p size q fl s' L' := by
  rcases D with ⟨h1, h2, h3, h4, h5⟩ | ⟨h1, a', h3⟩
  · rw [V.heap] at h3
    exact Or.inl ⟨h1, h2, h3.imp_right fun h => h.resolved V, fun n hn => (h4 n hn).resolved V (Or.inl ⟨rfl, rfl⟩), h5⟩
  · exact Or.inr ⟨h1, a', h3.resolved V (Or.inr U)⟩

/-- An object that stayed where it was is what it was. -/
theorem SysRep.unchanged_of_stay (R : SysRep cfg s bg L) (ho : L.Owned a p n) (h0 : btmRegistryLookup s.heap p ≠ 0)
    (hstay : ∀ n, L.Owned a p n → Resized cfg k s bg L t a p a p n none s' L')
    (hback : ∀ n, L'.Owned a p n → L.Owned a p n) : Unchanged s s' p := by
  have D := hstay n ho
  obtain ⟨Y, Z, tbl, m, O⟩ := D.done
  exact R.unchanged D.rep ho h0 (O.effect.lookup_ne_zero rfl R D.rep ho D.own h0)
    (fun m => ⟨hback m, fun h => (hstay m h).own⟩) fun m h i hi => (hstay m h).bytes h i (by omega)

/-- A slot's second word is what it was. -/
theorem canarySet_congr (hr : ∀ i < 16, h'.mem.read (p + i) = h.mem.read (p + i)) :
    canarySet cfg h' p = canarySet cfg h p := by
  have e : h'.mem.readLE 8 (p + 8) = h.mem.readLE 8 (p + 8) := readLE_congr fun i hi => by
    rw [Nat.add_assoc]
    exact hr (8 + i) (by omega)
  rw [canarySet, canarySet, e]

/-- `btm_realloc` of a slot whose chunk was found, or a report of a double free. -/
theorem reallocSmall_spec {q : PoolId} {r : SlabRef} {i : ℕ} (k : Kernel) (ra : ℕ) (R : SysRep cfg s bg L)
    (hpc : (s.threads t).pc = .idle) (hout : L.place p = .out) (hs : L.SlotIn q r i p) (hsize : size < 2 ^ 64)
    (hlook : btmRegistryLookup s.heap p = r.chunk) (hreq : Requests k s.heap size)
    (hun : btmSizeToSc size = none → L.Takes k s.heap size btmAlignment) :
    (∃ q' fl s' L', reallocSmall cfg k t p size ra r.chunk s = .ok (q', fl, s') ∧
        Reallocated cfg k s bg L t ra p p size q' fl s' L') ∨
      reallocSmall cfg k t p size ra r.chunk s = .error .doubleFree ∧ canarySet cfg s.heap p = true := by
  have hsc := (R.rep.header q r.chunk hs.1.1).sc
  have pos := R.sound.carving.slotPos hs
  have hcp := pos.chunk_pos
  have ha := R.slot_at hs
  have ho : L.Owned p p (btmScToSize q.sc) := .slot hout hs (le_refl _)
  unfold reallocSmall
  dsimp only
  rw [hsc]
  by_cases hc : btmSizeToSc size = some q.sc
  · rw [if_pos hc]
    exact Or.inl ⟨_, _, _, L, rfl, Or.inr ⟨by have := ha.pos; omega, p,
      .stay R (.slot hout hs (btmSizeToSc_some hsize hc).2.2.2)⟩⟩
  · rw [if_neg hc]
    obtain ⟨a', np, s1, L1, he, D, -⟩ := btmMallocAt_spec k ra R hpc hsize hreq fun h _ => hun h
    rw [he]
    dsimp only
    unfold reallocMove
    by_cases hnp : np = 0
    · rw [if_pos hnp]
      subst hnp
      exact Or.inl ⟨_, _, _, L1, rfl, Or.inl ⟨rfl, rfl, Or.inr (.malloc .refl he), fun n hn => (Resized.refused R D hn).1, (Resized.refused R D ho).2⟩⟩
    · rw [if_neg hnp]
      have D2 : MallocDone cfg k t s bg L size a' np (s1.setHeap (s1.heap.memcpy np p (min (btmScToSize q.sc) size)))
        L1 := D.store hnp (min_le_right _ _)
      have hne : p ≠ a' := fun e => D.vacates (e ▸ ho)
      obtain ⟨Y, Z, tbl, m, O⟩ := D2.done
      have ho1 := ho.moved O.moved hne
      rcases btmFreeHead_spec k D2.rep ((D2.pc t).trans hpc) ho1 with ⟨fl, s3, L3, hf, F⟩ | ⟨hf, hcan⟩
      · rw [hf]
        exact Or.inl ⟨_, _, _, L3, rfl, Or.inr ⟨hnp, a', .move R ho (by omega) D hnp (min_le_right _ _)
          (fun u hu => min_le_min_right _ (R.owned_le hs hu)) F⟩⟩
      · rw [hf]
        have hge := pos.row.size_ge
        have e : canarySet cfg (s1.heap.memcpy np p (min (btmScToSize q.sc) size)) p = canarySet cfg s.heap p :=
          canarySet_congr fun i hi => O.effect.read ho hne (by omega)
        exact Or.inr ⟨rfl, e.symm.trans hcan⟩

/-- `btm_realloc` of a large object that was found. -/
theorem reallocLarge_spec {b : ℕ} {hd : LargeHdr} (k : Kernel) (ra : ℕ) (R : SysRep cfg s bg L)
    (hpc : (s.threads t).pc = .idle) (hl : L.large b = some hd) (hpos : 0 < size) (hsize : size < 2 ^ 64)
    (hlook : btmRegistryLookup s.heap (b + hd.userOff) = b ||| 1)
    (hf : smallMaxSize < size → hd.userOff + size + (pageSize - 1) < 2 ^ 64 ∨
      newTotal hd size ≠ hd.mapLen ∧ remapAnswer k s.heap b size = none)
    (hn : smallMaxSize < size → ∀ nb, remapAnswer k s.heap b size = some nb →
      (L.setLarge b none).Unowned nb (newTotal hd size)) :
    ∃ q' fl s' L', reallocLarge cfg k t (b + hd.userOff) size ra b s = .ok (q', fl, s') ∧
      Reallocated cfg k s bg L t ra b (b + hd.userOff) size q' fl s' L' := by
  have ok := R.rep.space.large hl
  have hlt := ok.off_lt
  have hle := ok.le
  have ho : L.Owned b (b + hd.userOff) (hd.mapLen - hd.userOff) := .large hl (by omega)
  have husable : btmLargeUsableSize s.heap b (b + hd.userOff) = .ok (hd.mapLen - hd.userOff) := by
    rw [btmLargeUsableSize, R.rep.largeHeader hl]
    dsimp only
    congr 1
    omega
  unfold reallocLarge
  rw [husable]
  dsimp only
  by_cases hc : size ≤ smallMaxSize
  · rw [if_pos hc]
    have hsc := btmSizeToSc_small hpos (by rwa [smallMaxSize_eq] at hc)
    obtain ⟨a', np, s1, L1, he, D, -⟩ := btmMallocAt_spec k ra R hpc hsize (fun h => absurd h hsc)
      fun h => absurd h hsc
    rw [he]
    dsimp only
    by_cases hnp : np = 0
    · rw [if_pos hnp]
      subst hnp
      exact ⟨_, _, _, L1, rfl, Or.inl ⟨rfl, rfl, Or.inr (.malloc .refl he), fun n hn => (Resized.refused R D hn).1, (Resized.refused R D ho).2⟩⟩
    · rw [if_neg hnp]
      have D2 : MallocDone cfg k t s bg L size a' np
        (s1.setHeap (s1.heap.memcpy np (b + hd.userOff) (min (hd.mapLen - hd.userOff) size))) L1 :=
        D.store hnp (min_le_right _ _)
      have hne : b ≠ a' := fun e => D.vacates (e ▸ ho)
      obtain ⟨Y, Z, tbl, m, O⟩ := D2.done
      have ho1 := ho.moved O.moved hne
      have hl1 : L1.large b = some hd := (O.moved.large hne).trans hl
      have hlook0 : btmRegistryLookup s.heap (b + hd.userOff) ≠ 0 := by
        rw [hlook, or_one_of_even ok.even]
        omega
      have hlook2 := O.effect.lookup_ne_zero rfl R D2.rep ho ho1 hlook0
      have hlook1 : btmRegistryLookup s1.heap (b + hd.userOff) ≠ 0 := hlook2
      obtain ⟨h3, L3, hfree, F⟩ := largeFree_done k t D2.rep hl1
        ((D2.rep.lookup (D2.rep.large_at hl1)).resolve_left hlook1)
      replace hfree : btmLargeFree k (s1.heap.memcpy np (b + hd.userOff) (min (hd.mapLen - hd.userOff) size)) b =
        .ok h3 := hfree
      rw [hfree]
      exact ⟨_, _, _, L3, rfl, Or.inr ⟨hnp, a', .move R ho hlook0 D hnp (min_le_right _ _)
        (fun u hu => min_le_min_right _ (by have := (R.owned_large hl hu).2; omega)) F⟩⟩
  · rw [if_neg hc]
    obtain ⟨q', h', nb, hd', he, H, hq⟩ := btmLargeRealloc_spec (k := k) R.rep R.sound R.settled hl hpos
      (hf (by omega)) (hn (by omega))
    rw [he]
    refine ⟨_, _, _, L.rehouse b nb hd', rfl, ?_⟩
    rcases hq with ⟨rfl, rfl, rfl, hne, hr⟩ | ⟨rfl, hfit⟩
    · refine Or.inl ⟨rfl, rfl, Or.inr (.remap (b := nb) ?_ (by omega) ?_ hr), fun n hn =>
        H.resized R hl hlook (R.owned_large hl hn).2, fun n hn => ?_⟩
      · rw [largeOwner, hlook, or_one_of_even ok.even, if_pos (by have := ok.even; omega), Nat.add_sub_cancel]
      · rwa [R.rep.space.header hl]
      · have D := H.resized (t := t) R hl hlook (show hd'.userOff + 0 ≤ hd'.mapLen by omega)
        exact .large hl (D.rep.owned_large Ledger.rehouse_self hn).2
    · refine Or.inr ⟨?_, nb, H.resized R hl hlook hfit⟩
      have := (H.done.rep.space.large Ledger.rehouse_self).base_pos
      omega

/-- The regions for what `btm_realloc` of the object at `p`, in the unit at `a`, may get. -/
structure Ledger.Retakes (L : Ledger) (k : Kernel) (h : Heap) (a p size : ℕ) : Prop where
  move : largeOwner h p = none → btmRegistryLookup h p ≠ 0 → btmSizeToSc size = none →
    L.Takes k h size btmAlignment
  grow : largeOwner h p = some a → smallMaxSize < size → ∀ hd nb, L.large a = some hd →
    remapAnswer k h a size = some nb → (L.setLarge a none).Unowned nb (newTotal hd size)

/-- `btm_realloc` of an object of the client to a positive size. -/
theorem btmReallocHead_spec (k : Kernel) (ra : ℕ) (R : SysRep cfg s bg L) (hpc : (s.threads t).pc = .idle)
    (hown : L.Owned a p n) (hpos : 0 < size) (hsize : size < 2 ^ 64) (hf : Resizes k s.heap p size)
    (hun : L.Retakes k s.heap a p size) :
    (∃ q fl s' L', btmReallocHead cfg k t p size ra s = .ok (q, fl, s') ∧
        Reallocated cfg k s bg L t ra a p size q fl s' L') ∨
      btmReallocHead cfg k t p size ra s = .error .doubleFree ∧ canarySet cfg s.heap p = true := by
  obtain ⟨w, ha, hw0, -⟩ := R.owner_word hown
  have hlt := ha.lt
  have hp := ha.pos
  unfold btmReallocHead
  rw [if_neg (by omega), if_neg (by omega)]
  obtain ⟨e1, R1, V⟩ := btmResolveOwner_spec (p := p) t R (by omega)
  generalize btmResolveOwner t p s = x at e1 R1 V
  obtain ⟨o, s1⟩ := x
  dsimp only at e1 R1 V ⊢
  have hpc1 : (s1.threads t).pc = .idle := (V.pc t).trans hpc
  rcases R.lookup ha with h0 | h0
  · -- the table does not know the object
    rw [e1, if_pos h0]
    exact Or.inl ⟨_, _, _, L, rfl, Or.inl ⟨rfl, rfl, Or.inl h0, fun n hn => (Resized.stay R1 hn).resolved V (Or.inl ⟨rfl, rfl⟩), fun _ => id⟩⟩
  · have h0' : btmRegistryLookup s1.heap p = w := by rw [V.heap, h0]
    have U := V.unchanged R R1 hown (by rwa [h0])
    rw [h0] at e1
    subst e1
    rw [if_neg hw0]
    cases hown with
    | @slot q r i _ _ h1 h2 h3 =>
      have pos := R.sound.carving.slotPos h2
      have hw : o = r.chunk := R.rep.space.unique ha.covers (R.slot_at h2).covers
      subst hw
      have hm := pos.chunk_mod
      rw [if_pos (by rw [Nat.and_one_is_mod]; omega)]
      have hlo : largeOwner s.heap a = none := by
        rw [largeOwner, if_neg (by rw [h0]; omega)]
      rcases reallocSmall_spec k ra R1 hpc1 h1 h2 hsize h0' (by rw [V.heap]; exact hf.move hlo (by rwa [h0]))
        (by rw [V.heap]; exact hun.move hlo (by rwa [h0])) with ⟨q', fl, s', L', he, D⟩ | ⟨he, hcan⟩
      · exact Or.inl ⟨q', fl, s', L', he, D.resolved V U⟩
      · exact Or.inr ⟨he, by rwa [← V.heap]⟩
    | @large _ _ hd hl hle =>
      have hw : o = a ||| 1 := R.rep.space.unique ha.covers (R.large_at hl).covers
      have hev := (R.rep.space.large hl).even
      have hhd := R.rep.space.header hl
      have hlo : largeOwner s.heap (a + hd.userOff) = some a := by
        rw [largeOwner, h0, hw, or_one_of_even hev, if_pos (by omega), Nat.add_sub_cancel]
      have hgrow := hf.grow a hlo
      rw [hhd, ← V.heap] at hgrow
      obtain ⟨q', fl, s', L', he, D⟩ := reallocLarge_spec k ra R1 hpc1 hl hpos hsize (h0'.trans hw) hgrow
        fun hlarge nb hnb => hun.grow hlo hlarge hd nb hl (by rwa [V.heap] at hnb)
      rw [or_one_of_even hev] at hw
      subst hw
      rw [if_neg (by rw [Nat.and_one_is_mod]; omega), Nat.add_sub_cancel]
      exact Or.inl ⟨q', fl, s', L', he, D.resolved V U⟩

/-! ## Placements -/

/-- With the kernel keeping to placement `pl`, objects start at regions or need not. -/
def Ledger.Follows (L : Ledger) (pl : Placement) : Prop := pl = .aligned → L.Aligned

variable {pl : Placement}

theorem SysRep.takes {e : ℕ} (R : SysRep cfg s bg L) (hA : L.Follows pl) (hpos : 0 < size)
    (hf : Fits size (2 ^ e) ∨ mmapResult s.heap k.large (largeWant size (2 ^ e)) = none)
    (hpl : pl = .spaced → Spaced k s.heap size (2 ^ e)) : L.Takes k s.heap size (2 ^ e) := by
  intro raw hres
  refine R.rep.unowned_alloc R.sound (hf.resolve_right (by simp [hres])) hpos hres ?_
  cases pl with
  | aligned => exact Or.inr (hA rfl)
  | spaced => exact Or.inl (hpl rfl raw hres)

theorem SysRep.takes_alloc (R : SysRep cfg s bg L) (hA : L.Follows pl) (hw : c.Words) (hf : c.Fit k s.heap)
    (hpl : pl = .spaced → ∀ size alignment, c.large = some (size, alignment) → Spaced k s.heap size alignment)
    (size alignment : ℕ) (hc : c.large = some (size, alignment)) : L.Takes k s.heap size alignment := by
  obtain ⟨-, hpos, -, e, rfl⟩ := Alloc.request_some hw (Alloc.large_some hc).1
  exact R.takes hA hpos (hf _ _ hc) fun h => hpl h _ _ hc

theorem SysRep.retakes (R : SysRep cfg s bg L) (hA : L.Follows pl) (hpos : 0 < size) (hf : Resizes k s.heap p size)
    (h1 : pl = .aligned → k.RemapsAligned) (h2 : pl = .spaced → Respaced k s.heap p size) :
    L.Retakes k s.heap a p size := by
  refine ⟨fun hlo h0 hc => ?_, fun hlo hlarge hd nb hl hr => ?_⟩
  · exact R.takes (e := 4) hA hpos (hf.move hlo h0 hc (by omega)) fun h => (h2 h).move hc
  · have hhd := R.rep.space.header hl
    have hgrow := hf.grow a hlo hlarge
    rw [hhd] at hgrow
    have hfit := hgrow.resolve_right (by simp [hr])
    refine R.rep.unowned_remap R.sound R.settled hl hpos hfit hr ?_
    cases pl with
    | aligned =>
      rw [remapAnswer, hhd] at hr
      split_ifs at hr
      obtain ⟨hk, -⟩ := mremapResult_some hr (R.rep.space.large hl) rfl (newTotal_spec hfit).2
      exact Or.inr ⟨h1 rfl nb hk, hA rfl⟩
    | spaced =>
      have := (h2 rfl).grow a nb hlo hr
      rw [hhd] at this
      exact Or.inl this

end BtMalloc
