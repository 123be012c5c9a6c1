import BtMalloc.Proofs.PoolProofs
import BtMalloc.Slots

/-!
# Proofs: slots are conserved along every run
-/

namespace BtMalloc

open LinkedList PagedMemory Word

variable {cfg : Config} {k : Kernel} {w w' : World} {L L' : Ledger} {q q' : PoolId} {r r' : SlabRef}
  {i i' j t p p' : ℕ} {act : Action} {pl : Placement}

/-! ## What the client has -/

/-- Every owner stays named while the tables can be mapped. -/
theorem Effect.allNamed {X : ℕ → Prop} {B : ℕ → ℕ → Prop} {h h' : Heap} (E : Effect k X B h L h' L')
    (hk : ∀ i, k.leaf i = true) (N : AllNamed h.owners L) : AllNamed h'.owners L' :=
  ⟨E.leaves.mapped.mpr N.mapped, fun _ hkey => E.named (N.mapped.ready hk hkey) (N.named hkey)⟩

/-- Along runs in which the tables can be mapped, the client knows everything it was given. -/
theorem tame_run {acts : List Action} (hr : Transition.Run (step cfg) (World.Tame pl) World.init acts w) :
    ∃ L, WorldRep cfg w L ∧ L.Follows pl ∧ L.Plain ∧ AllNamed w.sys.heap.owners L ∧ w.Kept L := by
  refine hr.invariant
    (fun w => ∃ L, WorldRep cfg w L ∧ L.Follows pl ∧ L.Plain ∧ AllNamed w.sys.heap.owners L ∧ w.Kept L) ?_
    ⟨_, worldRep_init, Ledger.empty_follows, ⟨Ledger.empty_unmeshed, Ledger.empty_ready⟩, allNamed_empty trivial, ?_⟩
  · rintro w act w' ⟨L, W, hA, P, N, K⟩ ⟨hok, hleaf⟩ he
    obtain ⟨L', D⟩ := world_step W hA hok he
    obtain ⟨X, Y, Z, tbl, n, O⟩ := D.done
    exact ⟨L', D.rep, D.follows hA hok.places, ⟨O.tidy.unmeshed P.unmeshed, O.tidy.ready P.ready⟩,
      O.effect.allNamed hleaf N, D.kept N K⟩
  · intro a p n ho
    cases ho with
    | slot h => cases h
    | large h => cases h

/-! ## Slots of the ledger -/

theorem slotOf_iff (W : WorldRep cfg w L) : SlotOf w.sys.heap q r i p ↔ L.SlotIn q r i p := by
  have hc := carved_iff (q := q) (r := r) W.sys.rep W.sys.sound
  constructor
  · rintro ⟨h1, h2, h3⟩
    have hr := hc.mp h1
    rw [(W.sys.rep.desc q r hr).nslots] at h2
    exact ⟨hr, h2, h3⟩
  · rintro ⟨h1, h2, h3⟩
    exact ⟨hc.mpr h1, by rwa [(W.sys.rep.desc q r h1).nslots], h3⟩

/-- No list of slots is longer than the address space. -/
theorem Ledger.Sound.slots_length_le (S : L.Sound cfg) {l : List ℕ} (hl : l.Nodup)
    (hs : ∀ p ∈ l, L.place p ≠ .void) : l.length ≤ listFuel := by
  have hsub : l ⊆ List.range (2 ^ 47) := by
    intro p hp
    obtain ⟨q, r, i, hpi⟩ := S.slots.slot (hs p hp)
    have pos := S.carving.slotPos hpi
    have h1 := pos.hi
    have h2 := pos.page_le
    have h3 := pos.chunk_le
    have h4 := pos.size_pos
    rw [List.mem_range]
    omega
  have := (hl.subperm hsub).length_le
  rw [List.length_range] at this
  unfold listFuel
  omega

theorem cachedSlots_eq (W : WorldRep cfg w L) : cachedSlots cfg w.sys t i = L.bin t i := by
  refine (W.sys.rep.bins t i).chain.walk_eq ?_
  refine W.sys.sound.slots_length_le (W.sys.sound.slots.bin t i).nodup fun p hp => ?_
  simp [W.sys.sound.bin_place hp]

theorem freeSlots_eq (W : WorldRep cfg w L) (hr : L.SlabIn q r) (hi : (L.stage r).intact = true) :
    freeSlots cfg w.sys.heap r = L.freeList r := by
  have hst := Stage.intact_ne_retired hi
  refine (W.sys.rep.free q r hr hi).walk_eq ?_
  refine W.sys.sound.slots_length_le (W.sys.sound.slots.freeList hr.2 hst).nodup fun p hp => ?_
  simp [W.sys.sound.freeList_place hr hst hp]

/-- A slab without pages is on the cold list, and every other slab has its freelist. -/
theorem decommitted_iff (W : WorldRep cfg w L) (hr : L.SlabIn q r) :
    (w.sys.heap.slabs r).decommitted = true ↔ L.stage r = .cold := by
  rw [(W.sys.rep.desc q r hr).decommitted, decide_eq_true_eq]

theorem intact_of_ne_cold (hr : L.SlabIn q r) (h1 : L.stage r ≠ .retired) (hc : L.stage r ≠ .cold) :
    (L.stage r).intact = true := by
  have h2 := hr.2
  revert h1 h2 hc
  cases L.stage r <;> simp [Stage.intact]

theorem slotCached_iff (W : WorldRep cfg w L) : SlotCached cfg w p ↔ ∃ t i, L.place p = .cached t i := by
  simp only [SlotCached, cachedSlots_eq W, (W.sys.sound.slots.bin _ _).mem_iff]

theorem slotFree_iff (W : WorldRep cfg w L) (hst : L.stage r ≠ .retired) (hs : L.SlotIn q r i p) :
    SlotFree cfg w r p ↔ L.place p = .free := by
  have hr := hs.1
  have hmem := (W.sys.sound.slots.freeList hr.2 hst).mem_iff (a := p)
  unfold SlotFree
  rw [decommitted_iff W hr]
  by_cases hc : L.stage r = .cold
  · have hset := W.sys.settled.slab hr
    unfold Ledger.SlabSettled at hset
    rw [hc] at hset
    exact iff_of_true (Or.inl hc) (W.sys.sound.all_free hr hst hset hs)
  · rw [or_iff_right hc, freeSlots_eq W hr (intact_of_ne_cold hr hst hc), hmem]
    exact ⟨fun h => h.1, fun h => ⟨h, q, i, hs⟩⟩

/-- The client has a slot exactly if the slot is out. -/
theorem live_iff (W : WorldRep cfg w L) (K : w.Kept L) (hs : L.SlotIn q r i p) :
    w.live p ≠ none ↔ L.place p = .out := by
  constructor
  · intro hl
    obtain ⟨size, hl⟩ := Option.ne_none_iff_exists'.mp hl
    obtain ⟨a, ho⟩ := W.live hl
    rcases W.sys.owned_slot ho hs with ⟨-, h⟩
    exact h
  · intro hp
    have := K (.slot hp hs (Nat.zero_le _))
    exact Option.isSome_iff_ne_none.mp this

/-- The storage of an object of the client. -/
theorem WorldRep.extent {a n : ℕ} (W : WorldRep cfg w L) (ho : L.Owned a p n) : Extent w.sys.heap p n := by
  cases ho with
  | slot _ hs hle => exact .slot ((slotOf_iff W).mpr hs) hle
  | large hl hle =>
    have ok := W.sys.rep.space.large hl
    have hhd := W.sys.rep.space.header hl
    refine .large ok.base_mod ?_ ?_ ?_ fun j hj => ?_
    · rw [hhd]
    · rw [hhd]
      exact ok.off_ge
    · rw [hhd]
      exact hle
    · rw [hhd] at hj
      exact ok.mapped hj

theorem conserved (W : WorldRep cfg w L) (P : L.Plain) (K : w.Kept L) : Conserved cfg w := by
  have T := W.sys.settled
  constructor
  case place =>
    intro q r i p hs
    have hs := (slotOf_iff W).mp hs
    rw [slotFree_iff W (P.unmeshed.stage r) hs, slotCached_iff W]
    have hl := live_iff W K hs
    have hv := P.unmeshed.place hs
    cases hp : L.place p with
    | void => exact absurd hp hv
    | free =>
      refine Or.inl ⟨rfl, by simp, ?_⟩
      rw [hp] at hl
      simpa using hl
    | cached t j =>
      refine Or.inr (Or.inl ⟨by simp, ⟨t, j, rfl⟩, ?_⟩)
      rw [hp] at hl
      simpa using hl
    | out => exact Or.inr (Or.inr ⟨by simp, by simp, hl.mpr hp⟩)
  case live =>
    intro p size hl
    obtain ⟨a, ho⟩ := W.live hl
    exact W.extent ho
  case free =>
    intro q r hr hde
    have hr' := (carved_iff W.sys.rep W.sys.sound).mp hr
    have hst := P.unmeshed.stage r
    have hcold : L.stage r ≠ .cold := fun h => by
      rw [(decommitted_iff W hr').mpr h] at hde
      cases hde
    rw [freeSlots_eq W hr' (intact_of_ne_cold hr' hst hcold)]
    refine ⟨(W.sys.sound.slots.freeList hr'.2 hst).nodup, ((W.sys.rep.desc q r hr').freeCount hst).symm,
      fun p hp => ?_⟩
    obtain ⟨-, j, hj⟩ := W.sys.sound.free_of_mem hr' hst hp
    exact ⟨j, (slotOf_iff W).mpr hj⟩
  case cold =>
    intro q r hr hde
    exact (poolInv_of_rep W.sys.rep W.sys.sound T P).decommitted hr hde
  case bin =>
    intro t i
    rw [cachedSlots_eq W]
    refine ⟨(W.sys.sound.slots.bin t i).nodup, (W.sys.rep.bins t i).count.symm, fun p hp => ⟨?_, fun t' i' hp' => ?_⟩⟩
    · have hplace := W.sys.sound.bin_place hp
      obtain ⟨q, r, j, hs⟩ := W.sys.sound.slots.slot (s := p) (by simp [hplace])
      exact ⟨q, r, j, (slotOf_iff W).mpr hs, W.sys.sound.slots.home hplace hs⟩
    · rw [cachedSlots_eq W] at hp'
      have h1 := W.sys.sound.bin_place hp
      rw [W.sys.sound.bin_place hp', Place.cached.injEq] at h1
      exact h1
  case outstanding =>
    intro q
    refine ⟨L.held q, (W.sys.sound.slots.held q).congr fun p => ?_, W.sys.rep.tally q⟩
    simp only [slotOf_iff W]
    constructor
    · rintro ⟨⟨r, i, hs⟩, h⟩
      refine ⟨?_, r, i, hs⟩
      rw [slotCached_iff W, live_iff W K hs] at h
      rcases h with ⟨t, j, h⟩ | h <;> rw [h] <;> rfl
    · rintro ⟨hb, r, i, hs⟩
      refine ⟨⟨r, i, hs⟩, ?_⟩
      rw [slotCached_iff W, live_iff W K hs]
      revert hb
      cases L.place p with
      | void => simp [Place.busy]
      | free => simp [Place.busy]
      | cached t j => exact fun _ => Or.inl ⟨t, j, rfl⟩
      | out => exact fun _ => Or.inr rfl
  case disjoint =>
    intro q r i p q' r' i' p' hs hs' hne
    have hs := (slotOf_iff W).mp hs
    have hs' := (slotOf_iff W).mp hs'
    by_contra hno
    rw [not_or, not_le, not_le] at hno
    have h1 := (W.sys.sound.carving.slotPos hs).size_pos
    have h2 := (W.sys.sound.carving.slotPos hs').size_pos
    rcases Nat.le_total p p' with hle | hle
    · obtain ⟨rfl, rfl, rfl, -⟩ := W.sys.sound.carving.slot_disjoint hs hs' (by omega) (by omega)
        (show p + (p' - p) = p' + 0 by omega)
      exact hne (hs.2.2.trans hs'.2.2.symm)
    · obtain ⟨rfl, rfl, rfl, -⟩ := W.sys.sound.carving.slot_disjoint hs hs' (by omega) (by omega)
        (show p + 0 = p' + (p - p') by omega)
      exact hne (hs.2.2.trans hs'.2.2.symm)

/-- An object of the client is in no bin. -/
theorem SysRep.owned_uncached {s : Sys} {bg : BgPc} {a n : ℕ} (R : SysRep cfg s bg L) (ho : L.Owned a p n) :
    L.place p ≠ .cached t i := by
  intro hp
  obtain ⟨q, r, j, hs⟩ := R.sound.slots.slot (s := p) (by simp [hp])
  rw [(R.owned_slot ho hs).2] at hp
  cases hp

theorem WorldRep.handed {a size : ℕ} {s' : Sys} (W : WorldRep cfg w L)
    (D : MallocDone cfg k t w.sys w.bg L size a p s' L') (hp : p ≠ 0) : Handed cfg t w p s' := by
  obtain ⟨-, hown⟩ := D.given.resolve_left fun h => hp h.1
  have W' : WorldRep cfg ((w.setSys s').give p size) L' := W.given D
  have es : ((w.setSys s').give p size).sys = s' := by
    unfold World.give
    split <;> rfl
  have hno : ∀ t' i, p ∉ L'.bin t' i := fun t' i hm => D.rep.owned_uncached hown (D.rep.sound.bin_place hm)
  refine ⟨W.given_fresh D hp, fun t' i hm => ?_, fun t' i hm => ?_⟩
  · rw [← es, cachedSlots_eq W'] at hm
    exact hno t' i hm
  · by_contra hne
    rw [cachedSlots_eq W, ← D.bin hne] at hm
    exact hno t' i hm

/-- Slots are conserved along every run, and no call for new storage returns a slot that is live or cached. A
    slab without pages has no freelist; its slots are free all the same. -/
theorem slots_conserved {acts : List Action}
    (hr : Transition.Run (step cfg) (World.Tame pl) World.init acts w) :
    Conserved cfg w ∧ ∀ t c ra k p s', (w.sys.threads t).pc = .idle → c.Words →
      w.Regular pl (.alloc t c ra k) → c.run cfg k t ra w.sys = .ok (p, s') → p ≠ 0 → Handed cfg t w p s' := by
  obtain ⟨L, W, hA, P, -, K⟩ := tame_run hr
  refine ⟨conserved W P K, fun t c ra k p s' hpc hw hok he hp => ?_⟩
  obtain ⟨a, p', s1, L', he', D, -⟩ := Alloc.run_spec k ra W.sys hpc hw hok.fitting
    (W.sys.takes_alloc hA hw hok.fitting hok.places)
  rw [he'] at he
  cases he
  exact W.handed D hp

/-! ## A run -/

/-- What a single thread does in a run whose kernel answers are all the same. -/
inductive Call where
  | malloc (size : ℕ)
  | free (p : ℕ)
  | flush

def Call.action (k : Kernel) : Call → Action
  | .malloc size => .malloc 0 size 4096 k
  | .free p => .free 0 p k
  | .flush => .flush 0 k

/-- The request has a size class. -/
def Call.small : Call → Bool
  | .malloc size => (btmSizeToSc size).isSome
  | .free _ | .flush => true

theorem Call.tame {c : Call} (hc : c.small = true) (hk : ∀ i, k.leaf i = true) : w.Tame pl (c.action k) := by
  cases c with
  | malloc size =>
    have hsc : btmSizeToSc size ≠ none := by
      rw [Call.small] at hc
      exact Option.isSome_iff_ne_none.mp hc
    have hl : (Alloc.malloc size).large = none := by
      cases hl : (Alloc.malloc size).large with
      | none => rfl
      | some x =>
        obtain ⟨n, al⟩ := x
        obtain ⟨hr, hlarge⟩ := Alloc.large_some hl
        simp only [Alloc.request, Option.ite_none_left_eq_some, Option.some.injEq, Prod.mk.injEq] at hr
        obtain ⟨-, rfl, rfl⟩ := hr
        exact absurd (hlarge.resolve_right (lt_irrefl _)) hsc
    exact ⟨⟨fun _ _ h => by simp [hl] at h, fun _ _ _ h => by simp [hl] at h, fun _ => by simp [Call.action]⟩, hk⟩
  | free p => exact ⟨⟨trivial, trivial, fun _ => by simp [Call.action]⟩, hk⟩
  | flush => exact ⟨⟨trivial, trivial, fun _ => by simp [Call.action]⟩, hk⟩

/-- Small calls make a run. -/
theorem calls_run {cs : List Call} (hs : cs.all Call.small = true) (hk : ∀ i, k.leaf i = true)
    (he : (Transition.exec (step cfg) World.init (cs.map (Call.action k))).isSome = true) :
    Transition.Run (step cfg) (World.Tame pl) World.init (cs.map (Call.action k))
      (Transition.finish (step cfg) World.init (cs.map (Call.action k))) := by
  refine Transition.run_of_forall (Transition.exec_eq_finish he) fun act ha w => ?_
  obtain ⟨c, hc, rfl⟩ := List.mem_map.mp ha
  exact Call.tame (List.all_eq_true.mp hs c hc) hk

/-- Four slabs of class 35, three of which are given back whole. The chunk is at 4 MiB. -/
def coldSlab : List Call :=
  let slot (i j : ℕ) := 4194304 + (7 + 32 * i) * 4096 + j * 16384
  let free (i : ℕ) (l : List ℕ) : List Call := l.map fun j => .free (slot i j)
  let flush : List Call := List.replicate 6 .flush
  List.replicate 32 (.malloc 16384) ++ free 0 [0, 1, 2, 3] ++ free 1 [0, 1, 2, 3, 4] ++ flush ++
    free 1 [5, 6, 7] ++ free 2 [0, 1] ++ flush ++ free 2 [2, 3, 4, 5, 6] ++ flush ++ free 2 [7] ++
    free 3 [0, 1, 2, 3] ++ flush ++ free 3 [4, 5, 6, 7] ++ free 0 [4] ++ flush

/-- The state it leads to. -/
def coldSlabWorld : World :=
  Transition.finish (step Config.plain) World.init (coldSlab.map (Call.action (Kernel.grant 4194304)))

set_option maxRecDepth 100000 in
theorem coldSlab_run (pl : Placement) : Transition.Run (step Config.plain) (World.Tame pl) World.init
    (coldSlab.map (Call.action (Kernel.grant 4194304))) coldSlabWorld :=
  calls_run (by decide +kernel) (fun _ => rfl) (by decide +kernel)

set_option maxRecDepth 100000 in
/-- The third slab that is given back loses its pages: eight slots are free, and its freelist ends after
    the first. -/
theorem slots_conserved_cold_slab :
    Transition.Run (step Config.plain) (World.Tame .aligned) World.init
        (coldSlab.map (Call.action (Kernel.grant 4194304))) coldSlabWorld ∧
      Carved coldSlabWorld.sys.heap ⟨0, 35⟩ ⟨4194304, 103⟩ ∧
      (coldSlabWorld.sys.heap.slabs ⟨4194304, 103⟩).freeCount = 8 ∧
      (freeSlots Config.plain coldSlabWorld.sys.heap ⟨4194304, 103⟩).length = 1 :=
  ⟨coldSlab_run .aligned, by decide +kernel⟩

theorem slots_conserved_cold_run : Conserved Config.plain coldSlabWorld := (slots_conserved (coldSlab_run .aligned)).1

end BtMalloc
