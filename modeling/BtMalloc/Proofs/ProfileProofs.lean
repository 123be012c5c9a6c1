import BtMalloc.Profile
import BtMalloc.Proofs.SizeClassProofs
import Mathlib.Algebra.BigOperators.Group.List.Basic
import Mathlib.Algebra.Order.BigOperators.Group.List

/-!
# The heap profile: proofs

`snprintf` returns the length that the whole text has, and `btm_heap_profile` passes it on to `write`.
The profile is as it should be exactly if every line fits the buffer.
-/

namespace BtMalloc.Profile

variable {cfg : Config} {dladdr : Dladdr} {h : Heap}

/-! ## Formatting -/

theorem decimal_inj {m n : ℕ} (h : decimal m = decimal n) : m = n := by
  have e : ∀ k, Nat.ofDigitChars 10 (decimal k) 0 = k := fun k =>
    Nat.ofDigitChars_toDigits (by omega) (by omega)
  rw [← e m, ← e n, h]

theorem decimal_length {n k : ℕ} (hk : 0 < k) (hn : n < 10 ^ k) : (decimal n).length ≤ k :=
  (Nat.length_toDigits_le_iff (by omega) hk).mpr hn

theorem totalText_inj {m n : ℕ} (h : totalText m = totalText n) : m = n := by
  unfold totalText at h
  exact decimal_inj (List.append_cancel_left (List.append_cancel_right h))

theorem totalText_length {n : ℕ} (hn : n < 2 ^ 64) : (totalText n).length < lineSize := by
  have hd := decimal_length (n := n) (k := 20) (by omega) (by omega)
  have h1 : "total outstanding (small): ".toList.length = 27 := by decide
  have h2 : " bytes\n".toList.length = 7 := by decide
  unfold totalText lineSize
  rw [List.length_append, List.length_append, h1, h2]
  omega

theorem headerText_length {n : ℕ} (hn : n ≤ 4096) : (headerText n).length < lineSize := by
  have hd := decimal_length (n := n) (k := 4) (by omega) (by omega)
  have h1 : "btmalloc heap profile (P=".toList.length = 25 := by decide
  have h2 : (" partitions)\n".toList ++ (padRight 6 "part".toList ++ ([' '] ++
    (padLeft 14 "bytes_outstanding".toList ++ "  call site\n".toList)))).length = 49 := by decide
  unfold headerText lineSize
  rw [List.append_assoc, List.append_assoc, List.append_assoc, List.append_assoc, List.length_append,
    List.length_append, h1, h2]
  omega

/-! ## One line -/

/-- A text that fits is written as it is. -/
theorem emit_of_fits {text : List Char} (h0 : text ≠ []) (hfit : text.length < lineSize) :
    emit text = [⟨text ++ [Char.ofNat 0], text.length⟩] := by
  have hpos := List.length_pos_iff.mpr h0
  unfold lineSize at hfit
  have htake : text.take (256 - 1) = text := List.take_of_length_le (by omega)
  simp only [emit, snprintf, lineSize, htake, if_pos (show text.length < 2 ^ 31 by omega)]
  rw [if_pos (by omega), Int.toNat_natCast]

theorem text_of_fits {text : List Char} (h0 : text ≠ []) (hfit : text.length < lineSize) :
    (emit text).map WriteCall.text = [text] := by
  rw [emit_of_fits h0 hfit, List.map_singleton, WriteCall.text, List.take_left]

theorem emit_length_le (text : List Char) : (emit text).length ≤ 1 := by
  unfold emit
  dsimp only
  split <;> simp

/-- A text that ends in a newline and is written as it is fits. -/
theorem fits_of_text {text : List Char} (hlast : text.getLast? = some '\n')
    (h : (emit text).map WriteCall.text = [text]) : text.length < lineSize := by
  by_contra hlong
  unfold lineSize at hlong
  unfold emit snprintf lineSize at h
  dsimp only at h
  by_cases hint : text.length < 2 ^ 31
  · rw [if_pos hint, if_pos (by omega), List.map_singleton, List.cons.injEq] at h
    have h := h.1
    unfold WriteCall.text at h
    dsimp only at h
    rw [Int.toNat_natCast] at h
    -- the buffer ends in the terminating zero
    have hlen := congrArg List.length h
    simp only [List.length_take, List.length_append, List.length_singleton] at hlen
    rw [List.take_of_length_le (by simp; omega)] at h
    rw [← h, List.getLast?_append, List.getLast?_singleton, Option.some_or, Option.some.injEq] at hlast
    exact absurd hlast (by decide)
  · rw [if_neg hint, if_neg (by decide)] at h
    cases h

/-! ## The sums -/

theorem foldl_wrap (f : ℕ → ℕ) (l : List ℕ) (a : ℕ) (ha : a < 2 ^ 64) :
    l.foldl (fun x i => (x + f i % 2 ^ 64) % 2 ^ 64) a = (a + (l.map f).sum) % 2 ^ 64 := by
  induction l generalizing a with
  | nil => exact (Nat.mod_eq_of_lt ha).symm
  | cons i l ih =>
    rw [List.foldl_cons, ih _ (Nat.mod_lt _ (by omega)), List.map_cons, List.sum_cons]
    omega

theorem partBytes_eq (h : Heap) (i : ℕ) : partBytes h i = bytesOutstanding h i % 2 ^ 64 := by
  unfold partBytes bytesOutstanding
  rw [foldl_wrap _ _ _ (by omega), Nat.zero_add]

theorem bytesOutstanding_le {i : ℕ} (hi : i < cfg.nparts) :
    bytesOutstanding h i ≤ totalOutstanding cfg h :=
  List.le_sum_of_mem (List.mem_map.mpr ⟨i, List.mem_range.mpr hi, rfl⟩)

/-! ## The loop -/

/-- The calls made for partition `i`. -/
def callsOf (dladdr : Dladdr) (h : Heap) (i : ℕ) : List WriteCall :=
  if partBytes h i = 0 then [] else emit (partText dladdr (h.sampleRa i) i (partBytes h i))

theorem profile_loop (l : List ℕ) (ws : List WriteCall) (total : ℕ) (ht : total < 2 ^ 64) :
    l.foldl (profileStep dladdr h) (ws, total) =
      (ws ++ l.flatMap (callsOf dladdr h), (total + (l.map (partBytes h)).sum) % 2 ^ 64) := by
  induction l generalizing ws total with
  | nil => rw [List.foldl_nil, List.flatMap_nil, List.append_nil, List.map_nil, List.sum_nil,
      Nat.add_zero, Nat.mod_eq_of_lt ht]
  | cons i l ih =>
    rw [List.foldl_cons, List.flatMap_cons, List.map_cons, List.sum_cons]
    unfold profileStep callsOf
    dsimp only
    by_cases h0 : partBytes h i = 0
    · rw [if_pos h0, if_pos h0, h0, Nat.zero_add, List.nil_append]
      exact ih ws total ht
    · rw [if_neg h0, if_neg h0]
      refine (ih _ _ (Nat.mod_lt _ (by omega))).trans ?_
      rw [Prod.mk.injEq, List.append_assoc]
      exact ⟨rfl, by omega⟩

/-- All calls, in order. -/
theorem btmHeapProfile_eq :
    btmHeapProfile cfg dladdr h =
      emit (headerText cfg.nparts) ++ (List.range cfg.nparts).flatMap (callsOf dladdr h) ++
        emit (totalText (totalOutstanding cfg h % 2 ^ 64)) := by
  have hsum : (0 + ((List.range cfg.nparts).map (partBytes h)).sum) % 2 ^ 64 =
      totalOutstanding cfg h % 2 ^ 64 := by
    have hf : partBytes h = (fun x => x % 2 ^ 64) ∘ bytesOutstanding h := funext (partBytes_eq h)
    rw [Nat.zero_add, totalOutstanding, hf, ← List.map_map]
    exact (List.sum_nat_mod _ _).symm
  unfold btmHeapProfile
  rw [profile_loop _ _ _ (by omega), hsum]

theorem flatMap_filter_ne_zero {α : Type*} (f : ℕ → ℕ) (g : ℕ → List α) (l : List ℕ) :
    (l.flatMap fun i => if f i = 0 then [] else g i) = (l.filter fun i => f i != 0).flatMap g := by
  induction l with
  | nil => rfl
  | cons i l ih =>
    rw [List.flatMap_cons, ih]
    by_cases h0 : f i = 0
    · rw [if_pos h0, List.filter_cons_of_neg (by simp [h0])]
      rfl
    · rw [if_neg h0, List.filter_cons_of_pos (by simp [h0]), List.flatMap_cons]

/-- If the sums fit 64 bits, the partitions with a line are those that should have one. -/
theorem calls_eq (ht : totalOutstanding cfg h < 2 ^ 64) :
    (List.range cfg.nparts).flatMap (callsOf dladdr h) =
      (listed cfg h).flatMap fun i => emit (lineOf dladdr h i) := by
  have hb : ∀ i ∈ List.range cfg.nparts, callsOf dladdr h i =
      if bytesOutstanding h i = 0 then [] else emit (lineOf dladdr h i) := by
    intro i hi
    have hlt := lt_of_le_of_lt (bytesOutstanding_le (List.mem_range.mp hi)) ht
    unfold callsOf lineOf
    rw [partBytes_eq, Nat.mod_eq_of_lt hlt]
  rw [List.flatMap_congr hb, flatMap_filter_ne_zero]
  rfl

theorem lineOf_last (i : ℕ) : (lineOf dladdr h i).getLast? = some '\n' := by
  unfold lineOf partText
  rw [List.getLast?_append]
  rfl

theorem ne_nil_of_last {l : List Char} {c : Char} (h : l.getLast? = some c) : l ≠ [] := by
  rintro rfl
  cases h

theorem headerText_ne_nil (n : ℕ) : headerText n ≠ [] := by
  apply ne_nil_of_last (c := '\n')
  unfold headerText
  rw [List.getLast?_append]
  rfl

theorem totalText_ne_nil (n : ℕ) : totalText n ≠ [] := by
  apply ne_nil_of_last (c := '\n')
  unfold totalText
  rw [List.getLast?_append]
  rfl

/-- If every item gives at most one and all together give `l.map g`, each gives its own. -/
theorem flatMap_eq_map {α β : Type*} {f : α → List β} {g : α → β} {l : List α}
    (hf : ∀ x, (f x).length ≤ 1) (h : l.flatMap f = l.map g) : ∀ x ∈ l, f x = [g x] := by
  induction l with
  | nil => simp
  | cons a l ih =>
    have hlen : ∀ l' : List α, (l'.flatMap f).length ≤ l'.length := by
      intro l'
      induction l' with
      | nil => simp
      | cons b l' ih' =>
        have := hf b
        rw [List.flatMap_cons, List.length_append, List.length_cons]
        omega
    rw [List.flatMap_cons, List.map_cons] at h
    have h1 := congrArg List.length h
    rw [List.length_append, List.length_cons, List.length_map] at h1
    have h2 := hlen l
    have h3 := hf a
    obtain ⟨b, hb⟩ := List.length_eq_one_iff.mp (show (f a).length = 1 by omega)
    rw [hb, List.singleton_append, List.cons.injEq] at h
    intro x hx
    rcases List.mem_cons.mp hx with rfl | hx
    · rw [hb, h.1]
    · exact ih h.2 x hx

/-- The profile is faithful and in bounds exactly if its lines fit the buffer. -/
theorem heap_profile_faithful_iff (cfg : Config) (dladdr : Dladdr) (h : Heap) :
    Faithful cfg dladdr h (btmHeapProfile cfg dladdr h) ↔ LinesFit cfg dladdr h := by
  have hnparts : cfg.nparts ≤ 4096 :=
    Nat.pow_le_pow_right (n := 2) (by omega) cfg.npartsLog_le
  have hheader := headerText_length hnparts
  have hmod : totalOutstanding cfg h % 2 ^ 64 < 2 ^ 64 := Nat.mod_lt _ (by omega)
  have htotal := totalText_length hmod
  have e1 := text_of_fits (headerText_ne_nil _) hheader
  have e2 := text_of_fits (totalText_ne_nil _) htotal
  rw [btmHeapProfile_eq]
  constructor
  · intro F
    have ht := F.text
    rw [List.map_append, List.map_append, e1, e2, List.singleton_append, List.cons_append,
      List.cons_append, List.cons.injEq] at ht
    obtain ⟨hlines, hlast⟩ := List.append_singleton_inj.mp ht.2
    -- the total shown is below 2 ^ 64, so the right one is
    have hfit : totalOutstanding cfg h < 2 ^ 64 := by
      have := totalText_inj hlast
      omega
    refine ⟨fun i hi => ?_, hfit⟩
    rw [calls_eq hfit, List.map_flatMap] at hlines
    refine fits_of_text (lineOf_last i) (flatMap_eq_map (fun i => ?_) hlines i hi)
    rw [List.length_map]
    exact emit_length_le _
  · intro L
    have hne : ∀ i, lineOf dladdr h i ≠ [] := fun i => ne_nil_of_last (lineOf_last i)
    rw [Nat.mod_eq_of_lt L.total] at e2 htotal ⊢
    rw [calls_eq L.total]
    refine ⟨?_, fun w hw => ?_⟩
    · rw [List.map_append, List.map_append, e1, e2, List.map_flatMap,
        List.flatMap_congr fun i hi => text_of_fits (hne i) (L.line i hi), ← List.map_eq_flatMap]
      rfl
    · have hone : ∀ text, text ≠ [] → text.length < lineSize → w ∈ emit text → w.len ≤ lineSize := by
        intro text h0 hfit hw
        rw [emit_of_fits h0 hfit, List.mem_singleton] at hw
        rw [hw]
        exact hfit.le
      rcases List.mem_append.mp hw with hw | hw
      · rcases List.mem_append.mp hw with hw | hw
        · exact hone _ (headerText_ne_nil _) hheader hw
        · obtain ⟨i, hi, hw⟩ := List.mem_flatMap.mp hw
          exact hone _ (hne i) (L.line i hi) hw
      · exact hone _ (totalText_ne_nil _) htotal hw

/-- A heap with one slot of 16 bytes outstanding, in partition 0. -/
def oneSlot : Heap :=
  { Heap.init with
    pools := Function.update Heap.init.pools ⟨0, 0⟩ { Pool.zeroed with outstanding := 1 }
    sampleRa := fun _ => 4096 }

/-- A symbol name of 300 bytes: the profile gives `write` a length beyond its buffer. -/
theorem heap_profile_overread :
    ∃ w ∈ btmHeapProfile Config.plain (fun _ => some (some (List.replicate 300 'a'), none)) oneSlot,
      lineSize < w.len := by
  decide +kernel

end BtMalloc.Profile
