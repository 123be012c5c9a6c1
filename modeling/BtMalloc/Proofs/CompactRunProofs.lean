import BtMalloc.Compaction
import BtMalloc.Proofs.PageoutProofs
import BtMalloc.Proofs.SlotRunProofs

/-!
# Proofs: runs with compactions

One mesh after the other keeps the representation, as long as no donor has lent its pages, and so does a
whole call of `btm_compact`.
-/

namespace BtMalloc

open LinkedList PagedMemory Word

variable {cfg : Config} {k : Kernel} {h h0 : Heap} {bins : ℕ → ℕ → Bin} {L L0 L' : Ledger} {q : PoolId}
  {R D r x : SlabRef} {T : SlabRef → Prop} {ok : Bool}

/-! ## The ledger after a mesh -/

namespace Ledger

/-- What no mesh touches. -/
structure SameFrame (L L' : Ledger) : Prop where
  holder : L'.holder = L.holder
  top : L'.top = L.top
  bin : L'.bin = L.bin
  warm : L'.warm = L.warm
  counted : L'.counted = L.counted
  batch : L'.batch = L.batch
  hand : L'.hand = L.hand
  large : L'.large = L.large

theorem SameFrame.refl : L.SameFrame L := ⟨rfl, rfl, rfl, rfl, rfl, rfl, rfl, rfl⟩

theorem SameFrame.trans {L'' : Ledger} (h1 : L.SameFrame L') (h2 : L'.SameFrame L'') : L.SameFrame L'' :=
  ⟨h2.holder.trans h1.holder, h2.top.trans h1.top, h2.bin.trans h1.bin, h2.warm.trans h1.warm,
    h2.counted.trans h1.counted, h2.batch.trans h1.batch, h2.hand.trans h1.hand, h2.large.trans h1.large⟩

theorem mesh_sameFrame : L.SameFrame (L.mesh q R D ok) := by
  cases ok <;> exact ⟨rfl, rfl, rfl, rfl, rfl, rfl, rfl, rfl⟩

theorem mesh_stage_of_ne (hx : x ≠ D) : (L.mesh q R D ok).stage x = L.stage x := by
  cases ok <;>
  · show Function.update (Function.update L.stage D _) D _ x = _
    rw [Function.update_of_ne hx, Function.update_of_ne hx]

theorem mesh_stage_self : (L.mesh q R D ok).stage D = .retired := by
  cases ok <;> exact Function.update_self ..

theorem mesh_freeList_of_ne (hx : x ≠ R) : (L.mesh q R D ok).freeList x = L.freeList x := by
  cases ok <;> exact Function.update_of_ne hx ..

theorem mesh_freeList_self : (L.mesh q R D ok).freeList R = L.meshFree q R D := by
  cases ok <;> exact Function.update_self ..

theorem mesh_target : (L.mesh q R D ok).target x = if ok = true ∧ x = D then R else L.target x := by
  cases ok with
  | false => simp [mesh, unpair, retire, delist, cede]
  | true =>
    show Function.update L.target D R x = _
    by_cases e : x = D
    · subst e
      simp
    · rw [Function.update_of_ne e]
      simp [e]

theorem Meshable.mesh_slab (M : L.Meshable q R D) {q' : PoolId} : (L.mesh q R D ok).SlabIn q' x ↔ L.SlabIn q' x := by
  unfold SlabIn
  rw [mesh_sameFrame.holder]
  refine and_congr_right fun _ => ?_
  by_cases e : x = D
  · subst e
    exact iff_of_true (by simp [mesh_stage_self]) M.dIn.2
  · rw [mesh_stage_of_ne e]

end Ledger

/-! ## The heap after a mesh -/

/-- What no mesh touches. -/
structure Heap.SameFrame (h h' : Heap) : Prop where
  chunks : h'.chunks = h.chunks
  owners : h'.owners = h.owners
  registryGen : h'.registryGen = h.registryGen

theorem Heap.SameFrame.refl : h.SameFrame h := ⟨rfl, rfl, rfl⟩

theorem Heap.SameFrame.trans {h' h'' : Heap} (h1 : h.SameFrame h') (h2 : h'.SameFrame h'') : h.SameFrame h'' :=
  ⟨h2.chunks.trans h1.chunks, h2.owners.trans h1.owners, h2.registryGen.trans h1.registryGen⟩

theorem meshRebuild_sameFrame {Rd slot n head cnt : ℕ} {rocc docc : ℕ → Bool} :
    h.SameFrame (meshRebuild cfg Rd slot rocc docc n head cnt h).2.2 := by
  induction n generalizing head cnt h with
  | zero => exact .refl
  | succ n ih =>
    rw [meshRebuild]
    split
    · have h1 : h.SameFrame (btmFlSet cfg h (Rd + n * slot) head) := ⟨rfl, rfl, rfl⟩
      exact h1.trans ih
    · exact ih

theorem partialRemove_sameFrame : h.SameFrame (partialRemove h q r) := by
  unfold partialRemove
  cases (h.slabs r).prev <;> cases (h.slabs r).next <;> exact ⟨rfl, rfl, rfl⟩

theorem meshPair_sameFrame {rocc docc : ℕ → Bool} : h.SameFrame (meshPair cfg k h q R D rocc docc).2 := by
  have h1 : h.SameFrame (meshGather cfg h R D rocc docc) := by
    unfold meshGather
    have h2 := @meshRebuild_sameFrame cfg
      { h with
        mem := meshCopy (btmSlabData h R) (btmSlabData h D) (btmScToSize (h.slabs R).sc) docc
          (h.slabs D).nslots h.mem }
      (btmSlabData h R) (btmScToSize (h.slabs R).sc) (h.slabs R).nslots 0 0 rocc docc
    exact ⟨h2.chunks, h2.owners, h2.registryGen⟩
  have h2 : ∀ g : Heap, g.SameFrame (btmMeshRemap k g D R).2 := by
    intro g
    unfold btmMeshRemap
    dsimp only
    split <;> exact ⟨rfl, rfl, rfl⟩
  have h3 : ∀ g : Heap, g.SameFrame (meshRetire g q D) := by
    intro g
    have h4 := partialRemove_sameFrame (h := g) (q := q) (r := D)
    exact ⟨h4.chunks, h4.owners, h4.registryGen⟩
  rw [meshPair_eq]
  exact (h1.trans (h2 _)).trans (h3 _)

/-! ## A sequence of meshes -/

/-- Meshes of pairs of slabs in `T` took heap `h0` and ledger `L0` to `h` and `L`. -/
structure MeshRun (cfg : Config) (bins : ℕ → ℕ → Bin) (h0 : Heap) (L0 : Ledger) (T : SlabRef → Prop) (h : Heap)
    (L : Ledger) : Prop where
  sound : L.Sound cfg
  settled : L.Settled
  rep : HeapRep cfg h bins L
  bytes : Keeps L0.Busy (fun _ => False) h0.mem h.mem
  voids : L0.Voids L
  frame : L0.SameFrame L
  heap : h0.SameFrame h
  slab : ∀ {q x}, L.SlabIn q x ↔ L0.SlabIn q x
  /-- The slabs outside `T` are as before. -/
  stage : ∀ {x}, ¬ T x → L.stage x = L0.stage x
  freeList : ∀ {x}, ¬ T x → L.freeList x = L0.freeList x
  unshown : ∀ {x}, ¬ T x → L0.Unshown x → L.Unshown x

theorem MeshRun.refl (H : HeapRep cfg h bins L) (S : L.Sound cfg) (hT : L.Settled) :
    MeshRun cfg bins h L (fun _ => False) h L :=
  ⟨S, hT, H, Keeps.refl, fun _ => Or.inl rfl, .refl, .refl, Iff.rfl, fun _ => rfl, fun _ => rfl, fun _ => id⟩

/-- A candidate of a compaction: it is on the partial list of its pool, in use, and its bitmap is right. -/
structure Candidate (L : Ledger) (q : PoolId) (x : SlabRef × (ℕ → Bool)) : Prop where
  listed : L.holder x.1.chunk = .pool q ∧ L.stage x.1 = .listed
  used : (L.freeList x.1).length < slabSlots q.sc
  occ : ∀ i < slabSlots q.sc, x.2 i = L.occupied q x.1 i

theorem Ledger.Busy.voids {a n : ℕ} (hb : L.Busy a n) (V : L.Voids L') (F : L.SameFrame L')
    (hslab : ∀ {q x}, L'.SlabIn q x ↔ L.SlabIn q x) : L'.Busy a n := by
  cases hb with
  | slot h1 h2 => exact .slot (by rw [V.busy]; exact h1) ⟨hslab.mpr h2.1, h2.2⟩
  | large h1 => exact .large (by rw [F.large]; exact h1)

/-- A mesh settles its slabs again. -/
theorem Ledger.Settled.mesh (hT : L.Settled) (S : L.Sound cfg) (M : L.Meshable q R D) :
    (L.mesh q R D ok).Settled := by
  refine ⟨fun {q' x} hx => ?_, fun {c q'} hc => ?_, fun q' => ?_⟩
  · have hx' := M.mesh_slab.mp hx
    unfold Ledger.SlabSettled
    by_cases e : x = D
    · subst e
      rw [Ledger.mesh_stage_self]
      trivial
    · rw [Ledger.mesh_stage_of_ne e]
      by_cases e' : x = R
      · subst e'
        obtain rfl := M.rIn.pool_unique hx'
        have hlt := hT.slab M.rIn
        unfold Ledger.SlabSettled at hlt
        rw [M.recipient.2] at hlt ⊢
        rw [Ledger.mesh_freeList_self]
        refine Nat.lt_of_le_of_lt ?_ hlt
        refine (bothFree_nodup (M.size_pos S)).length_le_of_subset fun y hy => ?_
        obtain ⟨i, -, h1, -, rfl⟩ := Ledger.mem_meshFree.mp hy
        exact h1
      · rw [Ledger.mesh_freeList_of_ne e']
        exact hT.slab hx'
  · rw [Ledger.mesh_sameFrame.holder] at hc
    rw [Ledger.mesh_sameFrame.counted]
    exact hT.chunk hc
  · rw [Ledger.mesh_sameFrame.warm]
    exact hT.warm q'

theorem MeshRun.pair (I : MeshRun cfg bins h0 L0 T h L) (hm : cfg.meshMode = true)
    {R D : SlabRef × (ℕ → Bool)} (hR : Candidate L0 q R) (hD : Candidate L0 q D) (tR : ¬ T R.1) (tD : ¬ T D.1)
    (hne : R.1 ≠ D.1) (hdis : ∀ i < slabSlots q.sc, ¬ (R.2 i = true ∧ D.2 i = true))
    (hun : k.remap D.1 = true → L0.Unshown D.1) :
    MeshRun cfg bins h0 L0 (fun x => T x ∨ x = R.1 ∨ x = D.1) (meshPair cfg k h q R.1 D.1 R.2 D.2).2
      (L.mesh q R.1 D.1 (k.remap D.1)) := by
  have occ : ∀ {x : SlabRef × (ℕ → Bool)}, Candidate L0 q x → ¬ T x.1 → ∀ i < slabSlots q.sc,
      x.2 i = L.occupied q x.1 i := by
    intro x hx tx i hi
    rw [hx.occ i hi, Ledger.occupied, Ledger.occupied, I.freeList tx]
  have M : L.Meshable q R.1 D.1 := by
    refine ⟨?_, ?_, hne, ?_, fun i hi => ?_⟩
    · rw [I.frame.holder, I.stage tR]
      exact hR.listed
    · rw [I.frame.holder, I.stage tD]
      exact hD.listed
    · refine I.sound.exists_occupied ⟨?_, ?_⟩ (by rw [I.freeList tD]; exact hD.used)
      · rw [I.frame.holder]
        exact hD.listed.1
      · rw [I.stage tD, hD.listed.2]
        simp
    · by_contra hno
      rw [not_or] at hno
      exact hdis i hi ⟨by rw [occ hR tR i hi]; exact decide_eq_true hno.1,
        by rw [occ hD tD i hi]; exact decide_eq_true hno.2⟩
  obtain ⟨-, P⟩ := meshPair_spec (k := k) I.rep I.sound hm M (occ hR tR) (occ hD tD)
    fun hk => I.unshown tD (hun hk)
  refine ⟨P.sound, I.settled.mesh I.sound M, P.rep, ?_, I.voids.trans P.voids, I.frame.trans Ledger.mesh_sameFrame,
    I.heap.trans meshPair_sameFrame, M.mesh_slab.trans I.slab, fun {x} hx => ?_, fun {x} hx => ?_, fun {x} hx hu => ?_⟩
  · intro a n i hb hx hi
    rw [P.bytes (hb.voids I.voids I.frame I.slab) id hi]
    exact I.bytes hb hx hi
  all_goals rw [not_or, not_or] at hx
  · rw [Ledger.mesh_stage_of_ne hx.2.2]
    exact I.stage hx.1
  · rw [Ledger.mesh_freeList_of_ne hx.2.1]
    exact I.freeList hx.1
  · intro q' y hy hyx
    rw [Ledger.mesh_target]
    split
    · exact fun e => hx.2.1 e.symm
    · exact I.unshown hx.1 hu (M.mesh_slab.mp hy) hyx

/-- A recipient that keeps a free slot stays fit for a refill. -/
theorem Ledger.Ready.mesh (hL : L.Ready) (hfree : ∃ i < slabSlots q.sc, L.occupied q R i = false ∧
    L.occupied q D i = false) : (L.mesh q R D ok).Ready := by
  intro x hx
  by_cases e : x = D
  · subst e
    rw [Ledger.mesh_stage_self] at hx
    cases hx
  · rw [Ledger.mesh_stage_of_ne e] at hx
    by_cases e' : x = R
    · subst e'
      obtain ⟨i, hi, h1, h2⟩ := hfree
      simp only [Ledger.occupied, decide_eq_false_iff_not, not_not] at h1 h2
      rw [Ledger.mesh_freeList_self]
      exact List.ne_nil_of_mem (Ledger.mem_meshFree.mpr ⟨i, hi, h1, h2, rfl⟩)
    · rw [Ledger.mesh_freeList_of_ne e']
      exact hL hx

/-! ## The loops -/

/-- What `meshPartner` finds. -/
theorem meshPartner_some {cand : List (SlabRef × (ℕ → Bool))} {used : ℕ → Bool} {i j : ℕ}
    {R D : SlabRef × (ℕ → Bool)} (he : meshPartner h cand used i R = some (j, D)) :
    cand[j]? = some D ∧ i ≠ j ∧ used j = false ∧
      ∀ n < (h.slabs R.1).nslots, ¬ (R.2 n = true ∧ D.2 n = true) := by
  unfold meshPartner at he
  have h1 := List.mem_of_find?_eq_some he
  have h2 := List.find?_some he
  obtain ⟨y, hy, e⟩ := List.mem_map.mp h1
  cases e
  have h3 := List.mem_zipIdx_iff_getElem?.mp hy
  simp only [Bool.and_eq_true, bne_iff_ne, Bool.not_eq_true', beq_iff_eq, List.all_eq_true, List.mem_range,
    Bool.and_eq_false_iff] at h2
  refine ⟨h3, h2.1.1.1, h2.1.1.2, fun n hn hb => ?_⟩
  rcases h2.2 n hn with h | h
  · rw [hb.1] at h
    cases h
  · rw [hb.2] at h
    cases h

/-- Every pair of the trace leaves its recipient a free slot. -/
def KeepsRoom (L0 : Ledger) (l : List (SlabRef × SlabRef)) : Prop :=
  ∀ R D, (R, D) ∈ l → ∀ q, L0.SlabIn q R →
    ∃ i < slabSlots q.sc, L0.occupied q R i = false ∧ L0.occupied q D i = false

/-- The slabs of the trace are on a partial list. -/
def ListedPairs (L0 : Ledger) (l : List (SlabRef × SlabRef)) : Prop :=
  ∀ R D, (R, D) ∈ l → ∃ q, L0.SlabIn q R ∧ L0.stage R = .listed ∧ L0.SlabIn q D ∧ L0.stage D = .listed

theorem ListedPairs.nil : ListedPairs L0 [] :=
  fun _ _ hRD => absurd hRD (List.not_mem_nil)

theorem Candidate.slabIn {y : SlabRef × (ℕ → Bool)} (hy : Candidate L0 q y) : L0.SlabIn q y.1 :=
  ⟨hy.listed.1, by simp [hy.listed.2]⟩

/-- The greedy loop over the candidates of a pool. -/
theorem meshLoop_run {cand : List (SlabRef × (ℕ → Bool))} (hm : cfg.meshMode = true)
    (hc : ∀ x ∈ cand, Candidate L0 q x) (hnd : (cand.map Prod.fst).Nodup)
    (rest : List (SlabRef × (ℕ → Bool))) {i n : ℕ} {used : ℕ → Bool} (hrest : rest = cand.drop i)
    (I : MeshRun cfg bins h0 L0 T h L)
    (hfree : ∀ j x, cand[j]? = some x → used j = false → ¬ T x.1)
    (hun : ∀ R D, (R, D) ∈ meshTrace cfg k q cand rest i used (n, h) → k.remap D = true → L0.Unshown D) :
    ∃ T' L', MeshRun cfg bins h0 L0 T' (meshLoop cfg k q cand rest i used (n, h)).2 L' ∧
      (∀ x, T' x → T x ∨ L0.SlabIn q x) ∧ ListedPairs L0 (meshTrace cfg k q cand rest i used (n, h)) ∧
      (KeepsRoom L0 (meshTrace cfg k q cand rest i used (n, h)) → L.Ready → L'.Ready) := by
  induction rest generalizing i n used T h L with
  | nil => exact ⟨T, L, I, fun x hx => Or.inl hx, .nil, fun _ hL => hL⟩
  | cons R rest ih =>
    have hi : cand[i]? = some R := by
      rw [← List.head?_drop, ← hrest]
      rfl
    have hrest' : rest = cand.drop (i + 1) := by
      rw [← List.tail_drop, ← hrest]
      rfl
    unfold meshLoop
    unfold meshTrace at hun ⊢
    by_cases hu : used i = true
    · simp only [if_pos hu] at hun ⊢
      exact ih hrest' I hfree hun
    simp only [if_neg hu] at hun ⊢
    rw [Bool.not_eq_true] at hu
    cases hp : meshPartner h cand used i R with
    | none =>
      rw [hp] at hun
      exact ih hrest' I hfree hun
    | some y =>
      obtain ⟨j, D⟩ := y
      rw [hp] at hun
      dsimp only at hun ⊢
      obtain ⟨hj, hij, huj, hdis⟩ := meshPartner_some hp
      have hR := hc R (List.mem_of_getElem? hi)
      have hD := hc D (List.mem_of_getElem? hj)
      have inj : ∀ {a b : ℕ} {x y : SlabRef × (ℕ → Bool)}, cand[a]? = some x → cand[b]? = some y → x.1 = y.1 → a = b := by
        intro a b x y ha hb e
        have h1 : (cand.map Prod.fst)[a]? = some x.1 := by rw [List.getElem?_map, ha]; rfl
        have h2 : (cand.map Prod.fst)[b]? = some x.1 := by rw [List.getElem?_map, hb, e]; rfl
        exact (List.getElem?_inj (List.getElem?_eq_some_iff.mp h1).1 hnd).mp (h1.trans h2.symm)
      have hnslots : (h.slabs R.1).nslots = slabSlots q.sc := by
        refine (I.rep.desc q R.1 (I.slab.mpr ⟨hR.listed.1, ?_⟩)).nslots
        rw [hR.listed.2]
        simp
      rw [hnslots] at hdis
      have tR := hfree i R hi hu
      have tD := hfree j D hj huj
      have hne : R.1 ≠ D.1 := fun e => hij (inj hi hj e)
      have I' := I.pair (k := k) hm hR hD tR tD hne hdis (hun _ _ (List.mem_cons_self ..))
      have hfree' : ∀ a x, cand[a]? = some x →
          Function.update (Function.update used i true) j true a = false → ¬ (T x.1 ∨ x.1 = R.1 ∨ x.1 = D.1) := by
        intro a x ha hux
        have haj : a ≠ j := by
          rintro rfl
          rw [Function.update_self] at hux
          cases hux
        rw [Function.update_of_ne haj] at hux
        have hai : a ≠ i := by
          rintro rfl
          rw [Function.update_self] at hux
          cases hux
        rw [Function.update_of_ne hai] at hux
        rintro (h1 | h1 | h1)
        · exact hfree a x ha hux h1
        · exact hai (inj ha hi h1)
        · exact haj (inj ha hj h1)
      obtain ⟨T', L', I2, hT', hpairs, hready⟩ := ih (n := n + (meshPair cfg k h q R.1 D.1 R.2 D.2).1) hrest' I' hfree'
        fun R' D' hm' => hun R' D' (List.mem_cons_of_mem _ hm')
      refine ⟨T', L', I2, fun x hx => ?_, fun R' D' hm' => ?_, fun hk hL => ?_⟩
      · rcases hT' x hx with (h1 | rfl | rfl) | h1
        · exact Or.inl h1
        · exact Or.inr hR.slabIn
        · exact Or.inr hD.slabIn
        · exact Or.inr h1
      · rcases List.mem_cons.mp hm' with e | hm'
        · cases e
          exact ⟨q, hR.slabIn, hR.listed.2, hD.slabIn, hD.listed.2⟩
        · exact hpairs R' D' hm'
      · refine hready (fun R' D' hm' => hk R' D' (List.mem_cons_of_mem _ hm')) (hL.mesh ?_)
        obtain ⟨a, ha, h1, h2⟩ := hk R.1 D.1 (List.mem_cons_self ..) q hR.slabIn
        refine ⟨a, ha, ?_, ?_⟩
        · rw [Ledger.occupied, I.freeList tR]
          exact h1
        · rw [Ledger.occupied, I.freeList tD]
          exact h2

/-- The candidates of a pool whose slabs have not been meshed yet. -/
theorem MeshRun.candidates (I : MeshRun cfg bins h0 L0 T h L) (hT : ∀ x, L0.SlabIn q x → ¬ T x) :
    (∀ x ∈ meshCands cfg h q, Candidate L0 q x) ∧ ((meshCands cfg h q).map Prod.fst).Nodup := by
  constructor
  · intro x hx
    obtain ⟨h1, h2, h3, h4⟩ := mem_meshCands I.rep I.sound hx
    have hin : L.SlabIn q x.1 := ⟨h1, by simp [h2]⟩
    have tx := hT x.1 (I.slab.mp hin)
    refine ⟨⟨by rw [← I.frame.holder]; exact h1, by rw [← I.stage tx]; exact h2⟩, by rw [← I.freeList tx]; exact h3,
      fun i hi => ?_⟩
    have h5 := buildOcc_occupied I.rep I.sound hin (by simp [h2, Stage.intact]) (i := i)
    rw [h4, Bool.eq_iff_iff, h5, Ledger.occupied, Ledger.occupied, I.freeList tx]
    exact and_iff_right hi
  · have hp := (I.sound.lists.partials q).nodup
    rw [← partialSlabs_eq I.rep I.sound] at hp
    unfold meshCands
    rw [List.map_map]
    show (List.map id _).Nodup
    rw [List.map_id]
    exact ((hp.filter _).sublist (List.take_sublist ..))

theorem compactPool_run {n : ℕ} (hm : cfg.meshMode = true) (I : MeshRun cfg bins h0 L0 T h L)
    (hT : ∀ x, L0.SlabIn q x → ¬ T x)
    (hun : ∀ R D, (R, D) ∈ compactPoolTrace cfg k (n, h) q → k.remap D = true → L0.Unshown D) :
    ∃ T' L', MeshRun cfg bins h0 L0 T' (compactPool cfg k (n, h) q).2 L' ∧
      (∀ x, T' x → T x ∨ L0.SlabIn q x) ∧ ListedPairs L0 (compactPoolTrace cfg k (n, h) q) ∧
      (KeepsRoom L0 (compactPoolTrace cfg k (n, h) q) → L.Ready → L'.Ready) := by
  unfold compactPool
  unfold compactPoolTrace at hun ⊢
  by_cases hp : btmScRunPages q.sc < 2
  · simp only [if_pos hp]
    exact ⟨T, L, I, fun x hx => Or.inl hx, .nil, fun _ hL => hL⟩
  · simp only [if_neg hp] at hun ⊢
    obtain ⟨h1, h2⟩ := I.candidates hT
    exact meshLoop_run hm h1 h2 _ rfl I
      (fun j x hx _ => hT x.1 (h1 x (List.mem_of_getElem? hx)).slabIn) hun

theorem compactFrom_run (qs : List PoolId) (hqs : qs.Nodup) {n : ℕ} (hm : cfg.meshMode = true)
    (I : MeshRun cfg bins h0 L0 T h L) (hT : ∀ q ∈ qs, ∀ x, L0.SlabIn q x → ¬ T x)
    (hun : ∀ R D, (R, D) ∈ compactTraceFrom cfg k qs (n, h) → k.remap D = true → L0.Unshown D) :
    ∃ T' L', MeshRun cfg bins h0 L0 T' (qs.foldl (compactPool cfg k) (n, h)).2 L' ∧
      ListedPairs L0 (compactTraceFrom cfg k qs (n, h)) ∧
      (KeepsRoom L0 (compactTraceFrom cfg k qs (n, h)) → L.Ready → L'.Ready) := by
  induction qs generalizing n T h L with
  | nil => exact ⟨T, L, I, .nil, fun _ hL => hL⟩
  | cons q qs ih =>
    rw [compactTraceFrom] at hun ⊢
    obtain ⟨hq, hqs⟩ := List.nodup_cons.mp hqs
    obtain ⟨T1, L1, I1, hT1, hp1, hr1⟩ := compactPool_run (n := n) hm I (hT q (List.mem_cons_self ..))
      fun R D hRD => hun R D (List.mem_append_left _ hRD)
    have hT2 : ∀ q' ∈ qs, ∀ x, L0.SlabIn q' x → ¬ T1 x := by
      intro q' hq' x hx h1
      rcases hT1 x h1 with h2 | h2
      · exact hT q' (List.mem_cons_of_mem _ hq') x hx h2
      · exact hq (h2.pool_unique hx ▸ hq')
    obtain ⟨T2, L2, I2, hp2, hr2⟩ := ih hqs (n := (compactPool cfg k (n, h) q).1) I1 hT2
      fun R D hRD => hun R D (List.mem_append_right _ hRD)
    refine ⟨T2, L2, I2, fun R D hRD => ?_, fun hk hL => ?_⟩
    · rcases List.mem_append.mp hRD with h1 | h1
      · exact hp1 R D h1
      · exact hp2 R D h1
    · exact hr2 (fun R D h1 => hk R D (List.mem_append_right _ h1))
        (hr1 (fun R D h1 => hk R D (List.mem_append_left _ h1)) hL)

/-! ## A compaction -/

/-- A slab that has not lent its pages is shown by no other. -/
theorem unshown_of_unlent (H : HeapRep cfg h bins L) (S : L.Sound cfg) (hm : cfg.meshMode = true)
    (hD : ¬ Lent h D) : L.Unshown D := by
  intro q x hx hne e
  have hpos := (S.carving.row hx.1).pages_pos
  have := H.frame.slab hm hx (j := 0) hpos
  rw [e, Nat.add_zero, Nat.add_zero] at this
  exact hD ⟨q, x, (carved_iff H S).mpr hx, hne, this⟩

theorem keepsRoom_of_recipientsKeep (H : HeapRep cfg h bins L) (S : L.Sound cfg)
    (hp : ListedPairs L (compactTrace cfg k h)) (hk : RecipientsKeep cfg k h) :
    KeepsRoom L (compactTrace cfg k h) := by
  intro R D hRD q hR
  obtain ⟨q', hR', sR, hD, sD⟩ := hp R D hRD
  obtain rfl := hR'.pool_unique hR
  obtain ⟨i, hi, h1, h2⟩ := hk R D hRD
  rw [(H.desc q R hR).nslots] at hi
  have occ : ∀ {x}, L.SlabIn q x → L.stage x = .listed → buildOcc cfg h x i = false → L.occupied q x i = false := by
    intro x hx sx ho
    rw [Bool.eq_false_iff] at ho ⊢
    exact fun h' => ho ((buildOcc_occupied H S hx (by simp [sx, Stage.intact])).mpr ⟨hi, h'⟩)
  exact ⟨i, hi, occ hR sR h1, occ hD sD h2⟩

theorem btmCompact_spec (H : HeapRep cfg h bins L) (S : L.Sound cfg) (hT : L.Settled)
    (hun : DonorsUnlent cfg k h) :
    ∃ T' L', MeshRun cfg bins h L T' (btmCompact cfg k h).2 L' ∧ (RecipientsKeep cfg k h → L.Ready → L'.Ready) := by
  cases hm : cfg.meshMode with
  | false =>
    unfold btmCompact
    rw [hm]
    exact ⟨_, L, .refl H S hT, fun _ hL => hL⟩
  | true =>
    have htr : compactTrace cfg k h = compactTraceFrom cfg k cfg.poolIds (0, h) := by
      unfold compactTrace
      rw [if_pos hm]
    have hun' : ∀ R D, (R, D) ∈ compactTraceFrom cfg k cfg.poolIds (0, h) → k.remap D = true → L.Unshown D := by
      intro R D hRD hk
      exact unshown_of_unlent H S hm (hun R D (by rw [htr]; exact hRD) hk)
    obtain ⟨T', L', I, hp, hr⟩ := compactFrom_run cfg.poolIds poolIds_nodup hm (.refl H S hT)
      (fun _ _ _ _ => id) hun'
    rw [← htr] at hp hr
    refine ⟨T', L', ?_, fun hk => hr (keepsRoom_of_recipientsKeep H S hp hk)⟩
    unfold btmCompact
    rw [if_pos hm]
    exact I

end BtMalloc
