import BtMalloc.Effect
import BtMalloc.Proofs.RepProofs

/-!
# Proofs: the owner table

The table as a map from region keys to owner words. Storing an owner for a range of regions sets
those regions, or leaves some of them at 0 when a leaf array cannot be mapped or the flat array is not
there, and no others.
-/

namespace BtMalloc

variable {k : Kernel} {h : Heap} {owner base len key key' : ℕ}

theorem flatSize_eq : flatSize = 2 ^ 26 := rfl

theorem radixI1_eq (hk : key < 2 ^ 27) : radixI1 key = key / 8192 := by
  unfold radixI1
  rw [Nat.and_two_pow_sub_one_eq_mod, Nat.shiftRight_eq_div_pow]
  omega

theorem radixI2_eq : radixI2 key = key % 8192 := by
  unfold radixI2
  rw [Nat.and_two_pow_sub_one_eq_mod]
  omega

/-- The two indices of a key determine it. -/
theorem radix_inj (hk : key < 2 ^ 27) (hk' : key' < 2 ^ 27) (h1 : radixI1 key = radixI1 key')
    (h2 : radixI2 key = radixI2 key') : key = key' := by
  rw [radixI1_eq hk, radixI1_eq hk'] at h1
  rw [radixI2_eq, radixI2_eq] at h2
  omega

/-- A radix table with the owner of one region set. -/
theorem radixAt_update {l1 : ℕ → Option (ℕ → ℕ)} {leaf : ℕ → ℕ} (hk : key < 2 ^ 27)
    (hleaf : ∀ i, leaf i = (l1 (radixI1 key)).elim 0 fun f => f i) (hk' : key' < 2 ^ 27) :
    radixAt (Function.update l1 (radixI1 key)
      (some (Function.update leaf (radixI2 key) owner))) key' =
      if key' = key then owner else radixAt l1 key' := by
  by_cases e : key' = key
  · subst e
    simp [radixAt]
  · rw [if_neg e]
    by_cases e1 : radixI1 key' = radixI1 key
    · have e2 : radixI2 key' ≠ radixI2 key := fun e2 => e (radix_inj hk' hk e1 e2)
      simp only [radixAt, e1, Function.update_self, Function.update_of_ne e2, hleaf]
      cases l1 (radixI1 key) <;> rfl
    · simp [radixAt, e1]

/-! ## Tables -/

theorem OwnerTable.Grows.refl {T : OwnerTable} : T.Grows k T := by
  cases T with
  | radix l1 => exact .radix (fun _ h => h) fun _ h => Or.inl h
  | flat tbl => exact .flat Iff.rfl

theorem OwnerTable.Grows.trans {T T' T'' : OwnerTable} (h1 : T.Grows k T') (h2 : T'.Grows k T'') :
    T.Grows k T'' := by
  cases h1 with
  | radix h3 h4 =>
    cases h2 with
    | radix h5 h6 => exact .radix (fun i h => h5 i (h3 i h)) fun i h => (h6 i h).elim (h4 i) Or.inr
  | flat h3 =>
    cases h2 with
    | flat h4 => exact .flat (h4.trans h3)

/-- A store that is kept after the call was kept before it. -/
theorem OwnerTable.Grows.ready {T T' : OwnerTable} (h : T.Grows k T') :
    LeafReady k T' key ↔ LeafReady k T key := by
  cases h with
  | radix h1 h2 => exact ⟨fun h => h.elim (h2 _) Or.inr, fun h => h.imp_left (h1 _)⟩
  | flat h1 => simp only [LeafReady, ne_eq, h1]

theorem OwnerTable.Grows.cached {T T' : OwnerTable} (h : T.Grows k T') : T'.cached = T.cached := by
  cases h <;> rfl

theorem OwnerTable.Grows.mapped {T T' : OwnerTable} (h : T.Grows k T') : T'.Mapped ↔ T.Mapped := by
  cases h with
  | radix => exact Iff.rfl
  | flat h1 => exact not_congr h1

/-- With room for leaf arrays every store is kept. -/
theorem OwnerTable.Mapped.ready {T : OwnerTable} (h : T.Mapped) (hk : ∀ i, k.leaf i = true)
    (hlt : key < flatSize) : LeafReady k T key := by
  cases T with
  | radix l1 => exact Or.inr (hk _)
  | flat tbl => exact ⟨h, hlt⟩

/-- A region with an owner has its word in a leaf array or in the flat array. -/
theorem LeafReady.of_owner {T : OwnerTable} (h : ownerAt T key ≠ 0) : LeafReady k T key := by
  cases T with
  | radix l1 =>
    refine Or.inl fun hn => h ?_
    simp only [ownerAt, radixAt, hn]
  | flat tbl =>
    cases tbl with
    | none => exact absurd rfl h
    | some a =>
      refine ⟨by simp, not_le.mp fun hle => h ?_⟩
      simp only [ownerAt, if_pos hle]

/-- A table after owner words were stored for some regions. -/
structure Stored (k : Kernel) (owner : ℕ) (keys : List ℕ) (T T' : OwnerTable) : Prop where
  other : ∀ ⦃key⦄, key < 2 ^ 27 → key ∉ keys → ownerAt T' key = ownerAt T key
  set : ∀ ⦃key⦄, key ∈ keys → ownerAt T' key = owner ∨ ownerAt T' key = 0
  /-- The word is there if the store is kept. -/
  backed : ∀ ⦃key⦄, key ∈ keys → LeafReady k T key → ownerAt T' key = owner
  grows : T.Grows k T'

theorem update_ne_none {l1 : ℕ → Option (ℕ → ℕ)} {leaf : ℕ → ℕ} {i j : ℕ} (h : l1 j ≠ none) :
    Function.update l1 i (some leaf) j ≠ none := by
  by_cases e : j = i
  · simp [e]
  · rwa [Function.update_of_ne e]

/-- The store of `registry_set_locked`. -/
theorem radixSet_stored {l1 : ℕ → Option (ℕ → ℕ)} (hk : key < 2 ^ 27) :
    Stored k owner [key] (.radix l1) (.radix (radixSet k owner l1 key)) := by
  -- a leaf array that was there or can be mapped gets the word
  have stored : ∀ leaf : ℕ → ℕ, (∀ i, leaf i = (l1 (radixI1 key)).elim 0 fun f => f i) →
      l1 (radixI1 key) ≠ none ∨ k.leaf (radixI1 key) = true →
      Stored k owner [key] (.radix l1) (.radix (Function.update l1 (radixI1 key)
        (some (Function.update leaf (radixI2 key) owner)))) := by
    intro leaf hleaf hready
    have hr := fun key' => (@radixAt_update owner _ key') hk hleaf
    have hself : ∀ key' ∈ [key], radixAt (Function.update l1 (radixI1 key)
        (some (Function.update leaf (radixI2 key) owner))) key' = owner := by
      intro key' hm
      obtain rfl := List.mem_singleton.mp hm
      rw [hr key' hk, if_pos rfl]
    refine ⟨fun key' hk' hne => ?_, fun key' hm => Or.inl (hself key' hm),
      fun key' hm _ => hself key' hm, .radix (fun i => update_ne_none) fun i hi => ?_⟩
    · show radixAt _ key' = radixAt l1 key'
      rw [hr key' hk', if_neg (by simpa using hne)]
    · by_cases e : i = radixI1 key
      · rw [e]
        exact hready
      · rw [Function.update_of_ne e] at hi
        exact Or.inl hi
  unfold radixSet
  dsimp only
  cases hl : l1 (radixI1 key) with
  | some leaf => exact stored leaf (by simp [hl]) (Or.inl (by simp [hl]))
  | none =>
    cases hk1 : k.leaf (radixI1 key) with
    | true => exact stored (fun _ => 0) (by simp [hl]) (Or.inr hk1)
    | false =>
      refine ⟨fun _ _ _ => rfl, fun key' hm => ?_, fun key' hm hb => ?_, .refl⟩
      · obtain rfl := List.mem_singleton.mp hm
        exact Or.inr (by simp [ownerAt, radixAt, hl])
      · obtain rfl := List.mem_singleton.mp hm
        rcases hb with hb | hb
        · exact absurd hl hb
        · rw [hk1] at hb
          cases hb

/-- `flat_set`. -/
theorem flatSet_stored {tbl : FlatTable} :
    Stored k owner [key] (.flat tbl) (.flat (tbl.flatSet owner key)) := by
  cases tbl with
  | none =>
    refine ⟨fun _ _ _ => rfl, fun _ _ => Or.inr rfl, fun _ _ hb => absurd rfl hb.1, .refl⟩
  | some a =>
    by_cases hle : flatSize ≤ key
    · have e : FlatTable.flatSet owner (some a) key = some a := if_pos hle
      rw [e]
      refine ⟨fun _ _ _ => rfl, fun key' hm => ?_, fun key' hm hb => ?_, .refl⟩
      · obtain rfl := List.mem_singleton.mp hm
        exact Or.inr (if_pos hle)
      · obtain rfl := List.mem_singleton.mp hm
        exact absurd hb.2 (not_lt.mpr hle)
    · have e : FlatTable.flatSet owner (some a) key = some (Function.update a key owner) := if_neg hle
      have hself : ∀ key' ∈ [key], ownerAt (.flat (some (Function.update a key owner))) key' = owner := by
        intro key' hm
        obtain rfl := List.mem_singleton.mp hm
        simp only [ownerAt, if_neg hle, Function.update_self]
      rw [e]
      refine ⟨fun key' _ hne => ?_, fun key' hm => Or.inl (hself key' hm), fun key' hm _ => hself key' hm,
        .flat (by simp)⟩
      have hne : key' ≠ key := by simpa using hne
      simp only [ownerAt, Function.update_of_ne hne]

/-- `registry_set_locked`, and `flat_set` in the flat engine. -/
theorem registrySetLocked_spec (k : Kernel) (h : Heap) (owner : ℕ) (hk : key < 2 ^ 27) :
    ∃ T', registrySetLocked k owner h key = { h with owners := T' } ∧ Stored k owner [key] h.owners T' := by
  unfold registrySetLocked
  cases h.owners with
  | radix l1 => exact ⟨_, rfl, radixSet_stored hk⟩
  | flat tbl => exact ⟨_, rfl, flatSet_stored⟩

/-- Storing an owner for a list of regions. -/
theorem registryFold_spec (k : Kernel) (h : Heap) (owner : ℕ) {keys : List ℕ} (hks : ∀ key ∈ keys, key < 2 ^ 27) :
    ∃ T', keys.foldl (registrySetLocked k owner) h = { h with owners := T' } ∧
      Stored k owner keys h.owners T' := by
  induction keys generalizing h with
  | nil => exact ⟨h.owners, rfl, fun _ _ _ => rfl, by simp, by simp, .refl⟩
  | cons a keys ih =>
    obtain ⟨T1, e1, s1⟩ := registrySetLocked_spec k h owner (hks a (List.mem_cons_self ..))
    obtain ⟨T2, e2, s2⟩ := ih { h with owners := T1 } (fun key hm => hks key (List.mem_cons_of_mem _ hm))
    -- a region not stored again keeps the word of the first store
    have hfirst : ∀ {key}, key ∈ a :: keys → key ∉ keys →
        key ∈ [a] ∧ ownerAt T2 key = ownerAt T1 key := by
      intro key hm hin
      obtain rfl := (List.mem_cons.mp hm).resolve_right hin
      exact ⟨List.mem_singleton_self _, s2.other (hks key (List.mem_cons_self ..)) hin⟩
    refine ⟨T2, by rw [List.foldl_cons, e1, e2], fun key hk hne => ?_, fun key hm => ?_,
      fun key hm hb => ?_, s1.grows.trans s2.grows⟩
    · rw [List.mem_cons, not_or] at hne
      rw [s2.other hk hne.2, s1.other hk (by simpa using hne.1)]
    · by_cases hin : key ∈ keys
      · exact s2.set hin
      · rw [(hfirst hm hin).2]
        exact s1.set (hfirst hm hin).1
    · by_cases hin : key ∈ keys
      · exact s2.backed hin (s1.grows.ready.mpr hb)
      · rw [(hfirst hm hin).2]
        exact s1.backed (hfirst hm hin).1 hb

/-- The regions of a range in the user address space. -/
theorem mem_regionKeys (hlen : 0 < len) (hle : base + len ≤ 2 ^ 47) :
    key ∈ regionKeys base len ↔ base / 2097152 ≤ key ∧ key ≤ (base + len - 1) / 2097152 := by
  unfold regionKeys
  simp only [Nat.shiftRight_eq_div_pow, chunkShift, List.mem_range'_1]
  omega

theorem regionKeys_lt (hlen : 0 < len) (hle : base + len ≤ 2 ^ 47) (hm : key ∈ regionKeys base len) :
    key < 2 ^ 27 := by
  have := (mem_regionKeys hlen hle).mp hm
  omega

theorem btmRegistryInsert_spec (k : Kernel) (h : Heap) (owner base len : ℕ) (hlen : 0 < len) (hle : base + len ≤ 2 ^ 47) :
    ∃ T', btmRegistryInsert k h base len owner = { h with owners := T' } ∧
      Stored k owner (regionKeys base len) h.owners T' :=
  registryFold_spec k h owner (fun _ hm => regionKeys_lt hlen hle hm)

theorem btmRegistryRemove_spec (k : Kernel) (h : Heap) (base len : ℕ) (hlen : 0 < len) (hle : base + len ≤ 2 ^ 47) :
    ∃ T', btmRegistryRemove k h base len =
        { h with owners := T', registryGen := h.registryGen + 1 } ∧
      Stored k 0 (regionKeys base len) h.owners T' := by
  obtain ⟨T', e, s⟩ := registryFold_spec k h 0 (fun _ hm => regionKeys_lt hlen hle hm)
  exact ⟨T', by rw [btmRegistryRemove, e], s⟩

end BtMalloc
