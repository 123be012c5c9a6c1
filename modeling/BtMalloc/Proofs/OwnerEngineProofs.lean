import BtMalloc.OwnerEngines
import BtMalloc.Proofs.RegistryProofs

/-!
# Proofs: the two owner engines

After any calls on user ranges the flat table answers with the owner of the pointer's region. The
radix table answers with the owner of the region 2 ^ 27 regions down when the pointer has bits above
bit 47: its two indices keep 27 bits of the region number.
-/

namespace BtMalloc

variable {k : Kernel} {ops : List RegistryOp} {op : RegistryOp} {key ptr : ℕ}

/-- The regions a call stores to are the ones its range covers. -/
theorem RegistryOp.InRange.mem_iff (h : op.InRange) :
    key ∈ regionKeys op.base op.len ↔ op.Covers key := by
  obtain ⟨h1, h2⟩ := h
  rw [mem_regionKeys h1 h2]
  unfold RegistryOp.Covers
  simp only [chunkSize_eq]
  omega

/-- Calls on user ranges cover no region above the user address space. -/
theorem RegistryOp.InRange.key_lt (h : op.InRange) (hc : op.Covers key) : key < 2 ^ 26 := by
  obtain ⟨-, h1⟩ := h
  obtain ⟨-, h2⟩ := hc
  simp only [chunkSize_eq] at h2
  omega

/-- A call as its effect on one region. -/
theorem lastOwner_append :
    lastOwner (ops ++ [op]) key = if op.Covers key then op.owner else lastOwner ops key := by
  rw [lastOwner, List.foldl_append, List.foldl_cons, List.foldl_nil, lastOwner]

theorem lastOwner_of_large (h : ∀ op ∈ ops, op.InRange) (hk : 2 ^ 26 ≤ key) :
    lastOwner ops key = 0 := by
  induction ops using List.reverseRecOn with
  | nil => rfl
  | append_singleton ops op ih =>
    have hop := h op (by simp)
    rw [lastOwner_append, if_neg (fun hc => absurd (hop.key_lt hc) hk.not_gt)]
    exact ih (fun x hx => h x (by simp [hx]))

/-! ## The radix engine -/

theorem radixI1_mod : radixI1 key = radixI1 (key % 2 ^ 27) := by
  unfold radixI1
  simp only [Nat.and_two_pow_sub_one_eq_mod, Nat.shiftRight_eq_div_pow]
  omega

theorem radixI2_mod : radixI2 key = radixI2 (key % 2 ^ 27) := by
  rw [radixI2_eq, radixI2_eq]
  omega

/-- The radix table only looks at 27 bits of the region number. -/
theorem radixAt_mod {l1 : ℕ → Option (ℕ → ℕ)} : radixAt l1 key = radixAt l1 (key % 2 ^ 27) := by
  unfold radixAt
  rw [radixI1_mod, radixI2_mod]

/-- One call in the radix engine stores its word to the regions of its range. -/
theorem RegistryOp.InRange.stored {h : Heap} (hop : op.InRange) :
    Stored k op.owner (regionKeys op.base op.len) h.owners (op.radix k h).owners := by
  cases op with
  | insert b n o =>
    obtain ⟨T', e, hs⟩ := btmRegistryInsert_spec k h o b n hop.1 hop.2
    exact (congrArg Heap.owners e) ▸ hs
  | remove b n =>
    obtain ⟨T', e, hs⟩ := btmRegistryRemove_spec k h b n hop.1 hop.2
    exact (congrArg Heap.owners e) ▸ hs

theorem radix_grows (k : Kernel) (h : ∀ op ∈ ops, op.InRange) :
    Heap.init.owners.Grows k (ops.foldl (RegistryOp.radix k) Heap.init).owners := by
  induction ops using List.reverseRecOn with
  | nil => exact .refl
  | append_singleton ops op ih =>
    rw [List.foldl_append, List.foldl_cons, List.foldl_nil]
    exact (ih fun x hx => h x (by simp [hx])).trans (h op (by simp)).stored.grows

/-- The radix engine after a sequence of calls. -/
theorem radix_table (hleaf : ∀ i, k.leaf i = true) (h : ∀ op ∈ ops, op.InRange) (hk : key < 2 ^ 27) :
    ownerAt (ops.foldl (RegistryOp.radix k) Heap.init).owners key = lastOwner ops key := by
  induction ops using List.reverseRecOn with
  | nil => rfl
  | append_singleton ops op ih =>
    have hops : ∀ x ∈ ops, x.InRange := fun x hx => h x (by simp [hx])
    have hop := h op (by simp)
    rw [List.foldl_append, List.foldl_cons, List.foldl_nil, lastOwner_append]
    by_cases hc : op.Covers key
    · rw [if_pos hc]
      exact hop.stored.backed (hop.mem_iff.mpr hc) ((radix_grows k hops).ready.mpr (Or.inr (hleaf _)))
    · rw [if_neg hc, hop.stored.other hk fun hm => hc (hop.mem_iff.mp hm), ih hops]

theorem radix_lookup (hleaf : ∀ i, k.leaf i = true) (h : ∀ op ∈ ops, op.InRange) :
    btmRegistryLookup (ops.foldl (RegistryOp.radix k) Heap.init) ptr =
      lastOwner ops (ptr >>> chunkShift % 2 ^ 27) := by
  rw [← radix_table hleaf h (Nat.mod_lt _ (by omega)), btmRegistryLookup]
  -- the engine of the first table is the engine of all
  cases e : (ops.foldl (RegistryOp.radix k) Heap.init).owners with
  | radix l1 => exact radixAt_mod
  | flat tbl =>
    have hg := radix_grows k h
    rw [e] at hg
    cases hg

/-! ## The flat engine -/

/-- Storing an owner in a list of regions of the flat table. -/
theorem flatFold_spec {a : ℕ → ℕ} {owner : ℕ} {keys : List ℕ} (hks : ∀ key ∈ keys, key < flatSize) :
    ∃ a', keys.foldl (FlatTable.flatSet owner) (some a) = some a' ∧
      ∀ key, a' key = if key ∈ keys then owner else a key := by
  induction keys generalizing a with
  | nil => exact ⟨a, rfl, by simp⟩
  | cons x keys ih =>
    have hx := hks x (List.mem_cons_self ..)
    obtain ⟨a', e, h'⟩ := ih (a := Function.update a x owner)
      (fun key hm => hks key (List.mem_cons_of_mem _ hm))
    refine ⟨a', ?_, fun key => ?_⟩
    · rw [List.foldl_cons, FlatTable.flatSet, if_neg (by omega), e]
    · rw [h' key]
      by_cases hm : key ∈ keys
      · simp [hm]
      · by_cases ex : key = x <;> simp [hm, ex]

/-- One call in the flat engine. -/
theorem flat_op {a : ℕ → ℕ} (hop : op.InRange) : ∃ a', op.flat (some a) = some a' ∧
    ∀ key, a' key = if op.Covers key then op.owner else a key := by
  have hks : ∀ key ∈ regionKeys op.base op.len, key < flatSize :=
    fun key hm => hop.key_lt (hop.mem_iff.mp hm)
  have stored : ∃ a', op.flat (some a) = some a' ∧
      ∀ key, a' key = if key ∈ regionKeys op.base op.len then op.owner else a key := by
    cases op with
    | insert b n o => exact flatFold_spec hks
    | remove b n => exact flatFold_spec hks
  obtain ⟨a', e, h'⟩ := stored
  refine ⟨a', e, fun key => ?_⟩
  rw [h' key]
  by_cases hc : op.Covers key
  · rw [if_pos hc, if_pos (hop.mem_iff.mpr hc)]
  · rw [if_neg hc, if_neg (fun hm => hc (hop.mem_iff.mp hm))]

/-- The flat engine after a sequence of calls. -/
theorem flat_table (h : ∀ op ∈ ops, op.InRange) :
    ∃ a, ops.foldl RegistryOp.flat (FlatTable.btmChunkInit true) = some a ∧
      ∀ key, a key = lastOwner ops key := by
  induction ops using List.reverseRecOn with
  | nil => exact ⟨fun _ => 0, rfl, fun _ => rfl⟩
  | append_singleton ops op ih =>
    obtain ⟨a, e, ha⟩ := ih (fun x hx => h x (by simp [hx]))
    obtain ⟨a', e', ha'⟩ := flat_op (a := a) (h op (by simp))
    refine ⟨a', by rw [List.foldl_append, e]; exact e', fun key => ?_⟩
    rw [ha' key, ha key, lastOwner_append]

theorem flat_lookup (h : ∀ op ∈ ops, op.InRange) :
    (ops.foldl RegistryOp.flat (FlatTable.btmChunkInit true)).btmRegistryLookup ptr =
      lastOwner ops (ptr >>> chunkShift) := by
  obtain ⟨a, e, ha⟩ := flat_table h
  rw [e]
  unfold FlatTable.btmRegistryLookup
  dsimp only
  split_ifs with hr
  · exact (lastOwner_of_large h hr).symm
  · exact ha _

/-! ## Agreement -/

/-- The engines agree on a pointer, and on the owner of its region, unless the pointer has bits above
    bit 47 and the region that is left when they are dropped has an owner. -/
theorem engines_agree_iff (k : Kernel) (hleaf : ∀ i, k.leaf i = true) (ops : List RegistryOp)
    (hops : ∀ op ∈ ops, op.InRange) (ptr : ℕ) :
    (btmRegistryLookup (ops.foldl (RegistryOp.radix k) Heap.init) ptr =
          (ops.foldl RegistryOp.flat (FlatTable.btmChunkInit true)).btmRegistryLookup ptr ∧
        btmRegistryLookup (ops.foldl (RegistryOp.radix k) Heap.init) ptr =
          lastOwner ops (ptr >>> chunkShift)) ↔
      ptr < 2 ^ 48 ∨ lastOwner ops (ptr >>> chunkShift % 2 ^ 27) = 0 := by
  rw [radix_lookup hleaf hops, flat_lookup hops, and_self]
  have hshift : ptr >>> chunkShift = ptr / 2 ^ 21 := Nat.shiftRight_eq_div_pow ptr 21
  by_cases hp : ptr < 2 ^ 48
  · have : ptr >>> chunkShift % 2 ^ 27 = ptr >>> chunkShift := by
      rw [hshift]
      omega
    rw [this]
    exact ⟨fun _ => Or.inl hp, fun _ => rfl⟩
  · have hkey : 2 ^ 26 ≤ ptr >>> chunkShift := by
      rw [hshift]
      omega
    rw [lastOwner_of_large hops hkey]
    exact ⟨Or.inr, fun h0 => h0.resolve_left hp⟩

/-- One chunk is registered, and a plain pointer into it is looked up. -/
theorem engines_agree_on_chunk :
    btmRegistryLookup ([RegistryOp.insert 2097152 2097152 2097152].foldl
        (RegistryOp.radix Kernel.plain) Heap.init) 2097200 =
      ([RegistryOp.insert 2097152 2097152 2097152].foldl RegistryOp.flat
        (FlatTable.btmChunkInit true)).btmRegistryLookup 2097200 :=
  ((engines_agree_iff Kernel.plain (fun _ => rfl) [.insert 2097152 2097152 2097152]
    (by simp [RegistryOp.InRange, RegistryOp.base, RegistryOp.len]) 2097200).mpr
      (Or.inl (by decide))).1

/-- The same chunk, and a pointer into it with bit 48 set: only the flat engine finds no owner. -/
theorem engines_disagree_on_tagged :
    (∀ i, Kernel.plain.leaf i = true) ∧
    (∀ op ∈ [RegistryOp.insert 2097152 2097152 2097152], op.InRange) ∧ 2 ^ 48 + 2097200 < 2 ^ 64 ∧
    btmRegistryLookup ([RegistryOp.insert 2097152 2097152 2097152].foldl
      (RegistryOp.radix Kernel.plain) Heap.init) (2 ^ 48 + 2097200) = 2097152 ∧
    ([RegistryOp.insert 2097152 2097152 2097152].foldl RegistryOp.flat
      (FlatTable.btmChunkInit true)).btmRegistryLookup (2 ^ 48 + 2097200) = 0 ∧
    lastOwner [RegistryOp.insert 2097152 2097152 2097152] ((2 ^ 48 + 2097200) >>> chunkShift) = 0 := by
  have hops : ∀ op ∈ [RegistryOp.insert 2097152 2097152 2097152], op.InRange := by
    simp [RegistryOp.InRange, RegistryOp.base, RegistryOp.len]
  have h0 : lastOwner [RegistryOp.insert 2097152 2097152 2097152]
      ((2 ^ 48 + 2097200) >>> chunkShift) = 0 := by decide
  refine ⟨fun _ => rfl, hops, by decide, ?_, ?_, h0⟩
  · rw [radix_lookup (fun _ => rfl) hops]
    decide
  · rw [flat_lookup hops, h0]

end BtMalloc
