import BtMalloc.Startup
import BtMalloc.Proofs.AllocProofs
import Mathlib.Order.Bounds.Basic

/-!
# Initialisation: proofs

`read_nparts_env` is right exactly where the narrowing to 32 bits does not get in the way, and a call
made before initialisation has succeeded is clean if it can be the first attempt or has nothing to
index.
-/

namespace BtMalloc.Startup

open Transition

/-! ## The doubling loop -/

theorem toNat_double {np : BitVec 32} {k : ℕ} (h : np.toNat = 2 ^ k) (hk : k < 31) :
    (np <<< 1).toNat = 2 ^ (k + 1) := by
  have hlt : 2 ^ (k + 1) < 2 ^ 32 := Nat.pow_lt_pow_right (by omega) (by omega)
  rw [BitVec.toNat_shiftLeft, h, Nat.shiftLeft_eq, ← pow_add, Nat.mod_eq_of_lt hlt]

/-- `j` is the exponent at which doubling from `2 ^ k` stops. -/
structure Stops (p k j : ℕ) : Prop where
  ge : p ≤ 2 ^ j
  first : j = k ∨ (k < j ∧ 2 ^ (j - 1) < p)

theorem roundLoop_stops {p : BitVec 32} {fuel k : ℕ} {np r : BitVec 32} (hnp : np.toNat = 2 ^ k)
    (hp : p.toNat ≤ 2 ^ 31) (h : roundLoop p fuel np = some r) :
    ∃ j, r.toNat = 2 ^ j ∧ Stops p.toNat k j := by
  induction fuel generalizing k np with
  | zero => cases h
  | succ fuel ih =>
    unfold roundLoop at h
    split at h
    · rename_i hlt
      have hlt : 2 ^ k < p.toNat := by rw [← hnp]; exact hlt
      have hk : k < 31 := (Nat.pow_lt_pow_iff_right (by omega)).mp (lt_of_lt_of_le hlt hp)
      obtain ⟨j, hr, hj⟩ := ih (toNat_double hnp hk) h
      refine ⟨j, hr, hj.ge, Or.inr ?_⟩
      rcases hj.first with rfl | ⟨hkj, hp⟩
      · exact ⟨by omega, hlt⟩
      · exact ⟨by omega, hp⟩
    · rename_i hge
      have hge : ¬ np.toNat < p.toNat := hge
      obtain rfl : np = r := Option.some.inj h
      exact ⟨k, hnp, by omega, Or.inl rfl⟩

theorem roundLoop_ends {p : BitVec 32} (hp : p.toNat ≤ 2 ^ 31) {n k : ℕ} {np : BitVec 32}
    (hn : 31 - k < n) (hk : k ≤ 31) (hnp : np.toNat = 2 ^ k) : ∃ r, roundLoop p n np = some r := by
  induction n generalizing k np with
  | zero => omega
  | succ n ih =>
    unfold roundLoop
    split
    · rename_i hlt
      have hlt : 2 ^ k < p.toNat := by rw [← hnp]; exact hlt
      have hk' : k < 31 := (Nat.pow_lt_pow_iff_right (by omega)).mp (lt_of_lt_of_le hlt hp)
      exact ih (by omega) (by omega) (toNat_double hnp hk')
    · exact ⟨np, rfl⟩

/-- Above `2 ^ 31` the counter wraps to 0 and the loop never ends. -/
theorem roundLoop_diverges {p : BitVec 32} (hp : 2 ^ 31 < p.toNat) (fuel : ℕ) {np : BitVec 32}
    (hnp : np.toNat = 0 ∨ ∃ k ≤ 31, np.toNat = 2 ^ k) : roundLoop p fuel np = none := by
  induction fuel generalizing np with
  | zero => rfl
  | succ fuel ih =>
    have hlt : np < p := by
      rw [BitVec.lt_def]
      rcases hnp with h | ⟨k, hk, h⟩
      · omega
      · have := Nat.pow_le_pow_right (n := 2) (by omega) hk
        omega
    unfold roundLoop
    rw [if_pos hlt]
    apply ih
    rcases hnp with h | ⟨k, hk, h⟩
    · left
      rw [BitVec.toNat_shiftLeft, h]
      rfl
    · rcases Nat.lt_or_ge k 31 with hk' | hk'
      · exact Or.inr ⟨k + 1, by omega, toNat_double h hk'⟩
      · obtain rfl : k = 31 := by omega
        left
        rw [BitVec.toNat_shiftLeft, h]
        rfl

/-! ## The number of partitions -/

theorem toInt_of_pos {v : BitVec 64} (h : 1 ≤ v.toInt) : v.toInt = v.toNat := by
  rw [BitVec.toInt_eq_toNat_cond] at h ⊢
  split at h
  · rename_i hlt
    rw [if_pos hlt]
  · have := v.isLt
    omega

/-- The clamp. -/
theorem clamp_toNat (r : BitVec 32) :
    (if (4096 : BitVec 32) < r then (4096 : BitVec 32) else r).toNat = min r.toNat 4096 := by
  have h : (4096 : BitVec 32) < r ↔ 4096 < r.toNat := BitVec.lt_def
  split
  · rename_i hlt
    rw [min_eq_right (h.mp hlt).le]
    rfl
  · rename_i hge
    rw [min_eq_left (by rw [h] at hge; omega)]

theorem min_twoPow (j : ℕ) : min (2 ^ j) 4096 = 2 ^ min j 12 := by
  rcases Nat.le_total j 12 with h | h
  · rw [min_eq_left h, min_eq_left (Nat.pow_le_pow_right (n := 2) (by omega) h)]
  · rw [min_eq_right h, min_eq_right (Nat.pow_le_pow_right (n := 2) (by omega) h)]

/-- What the loop leaves for `p`, clamped, is the least power of two at or above `min p 4096`. -/
theorem Stops.least {p j : ℕ} (h : Stops p 0 j) {m : ℕ} (hm : min p 4096 ≤ 2 ^ m) :
    2 ^ min j 12 ≤ 2 ^ m := by
  apply Nat.pow_le_pow_right (by omega)
  rcases Nat.lt_or_ge m 12 with hm12 | hm12
  · have h12 : 2 ^ m < 2 ^ 12 := Nat.pow_lt_pow_right (by omega) hm12
    rcases h.first with rfl | ⟨_, hlt⟩
    · omega
    · have : 2 ^ (j - 1) < 2 ^ m := by omega
      have := (Nat.pow_lt_pow_iff_right (by omega)).mp this
      omega
  · omega

/-- The value the loop is run on. -/
theorem readNpartsEnv_of_pos {v : BitVec 64} (h : 1 ≤ v.toInt) (fuel : ℕ) :
    readNpartsEnv fuel (some v) = (roundLoop (v.setWidth 32) fuel 1).map
      fun np => if 4096 < np then 4096 else np := by
  unfold readNpartsEnv
  dsimp only
  rw [if_pos h]

theorem readNpartsEnv_of_nonpos {v : BitVec 64} (h : v.toInt < 1) : readNpartsEnv 7 (some v) = some 64 := by
  unfold readNpartsEnv
  dsimp only
  rw [if_neg (by omega)]
  rfl

theorem partitions_of_stops {v : BitVec 64} (hv : 1 ≤ v.toInt) {j : ℕ}
    (hj : Stops (v.toNat % 2 ^ 32) 0 j) (hwide : v.toNat < 2 ^ 32 ∨ 2048 < v.toNat % 2 ^ 32) :
    Partitions v (2 ^ min j 12) := by
  have hint := toInt_of_pos hv
  have hmin : ∀ m, min v.toInt 4096 ≤ ((2 ^ m : ℕ) : ℤ) ↔ min v.toNat 4096 ≤ 2 ^ m := by
    intro m
    rw [hint]
    omega
  refine ⟨fun _ => ⟨⟨⟨_, rfl⟩, (hmin _).mpr ?_⟩, ?_⟩, fun h => by omega, min j 12, by omega, rfl⟩
  · -- it is large enough
    rw [← min_twoPow]
    have hge := hj.ge
    rcases hwide with hlt | hgt
    · rw [Nat.mod_eq_of_lt hlt] at hge
      omega
    · have : 12 ≤ j := by
        by_contra hlt
        have := Nat.pow_le_pow_right (n := 2) (by omega) (show j ≤ 11 by omega)
        omega
      have := Nat.pow_le_pow_right (n := 2) (by omega) this
      omega
  · -- and no smaller one is
    rintro x ⟨⟨m, rfl⟩, hm⟩
    have hm := (hmin m).mp hm
    rcases hwide with hlt | hgt
    · rw [Nat.mod_eq_of_lt hlt] at hj
      exact hj.least hm
    · apply Nat.pow_le_pow_right (by omega)
      by_contra h
      have := Nat.pow_le_pow_right (n := 2) (by omega) (show m ≤ 11 by omega)
      have := Nat.mod_le v.toNat (2 ^ 32)
      omega

/-- `read_nparts_env` returns the number of partitions it should exactly for values that survive the
    narrowing to 32 bits. -/
theorem read_nparts_env_iff (v : BitVec 64) :
    (∃ fuel np, readNpartsEnv fuel (some v) = some np ∧ Partitions v np.toNat) ↔
      NpartsInRange v := by
  rcases Int.lt_or_le v.toInt 1 with hv | hv
  · refine ⟨fun _ => Or.inl hv, fun _ => ⟨7, 64, readNpartsEnv_of_nonpos hv, ?_⟩⟩
    exact ⟨fun h => by omega, fun _ => rfl, 6, by omega, rfl⟩
  have hp : (v.setWidth 32).toNat = v.toNat % 2 ^ 32 := BitVec.toNat_setWidth ..
  constructor
  · rintro ⟨fuel, np, hret, hnp⟩
    rw [readNpartsEnv_of_pos hv, Option.map_eq_some_iff] at hret
    obtain ⟨r, hr, rfl⟩ := hret
    have hle : v.toNat % 2 ^ 32 ≤ 2 ^ 31 := by
      by_contra hgt
      rw [roundLoop_diverges (by omega) fuel (Or.inr ⟨0, by omega, rfl⟩)] at hr
      cases hr
    refine Or.inr ⟨hle, ?_⟩
    by_contra hcon
    obtain ⟨j, hj, hs⟩ := roundLoop_stops (k := 0) rfl (by omega) hr
    -- the loop saw a value of at most 2048 in place of one above 4096
    have hge := (hnp.least hv).1.2
    rw [clamp_toNat, hj, toInt_of_pos hv] at hge
    have hj11 : j ≤ 11 := by
      rcases hs.first with rfl | ⟨_, hlt⟩
      · omega
      · have : 2 ^ (j - 1) < 2 ^ 11 := by omega
        have := (Nat.pow_lt_pow_iff_right (by omega)).mp this
        omega
    have := Nat.pow_le_pow_right (n := 2) (by omega) hj11
    omega
  · rintro (hneg | ⟨hle, hwide⟩)
    · omega
    obtain ⟨r, hr⟩ := roundLoop_ends (p := v.setWidth 32) (by omega) (n := 32) (by omega) (by omega)
      (show (1 : BitVec 32).toNat = 2 ^ 0 from rfl)
    obtain ⟨j, hj, hs⟩ := roundLoop_stops (k := 0) rfl (by omega) hr
    refine ⟨32, _, by rw [readNpartsEnv_of_pos hv, hr]; rfl, ?_⟩
    rw [clamp_toNat, hj, min_twoPow]
    exact partitions_of_stops hv (hp ▸ hs) hwide

/-- For `2 ^ 31 + 1` the loop does not end; for `2 ^ 32 + 1` there is one partition, not 4096. -/
theorem read_nparts_env_narrowed :
    (∀ fuel, readNpartsEnv fuel (some 2147483649) = none) ∧
      readNpartsEnv 1 (some 4294967297) = some 1 ∧ ¬ Partitions 4294967297 1 := by
  refine ⟨fun fuel => ?_, by decide, fun h => ?_⟩
  · rw [readNpartsEnv_of_pos (by decide), roundLoop_diverges (by decide) fuel (Or.inr ⟨0, by omega, rfl⟩)]
    rfl
  · have := (h.least (by decide)).1.2
    revert this
    decide

/-! ## Calls before and after initialisation -/

section Calls

variable {cfg : Config} {b : Boot} {x : Step}

theorem btmEnsureInit_ready (table : Bool) (h : b.ready = true) : btmEnsureInit table b = b := by
  unfold btmEnsureInit
  rw [if_pos h]

theorem btmEnsureInit_once (table : Bool) (h : b.once = true) : btmEnsureInit table b = b := by
  unfold btmEnsureInit
  rw [if_pos h, ite_self]

theorem btmEnsureInit_first (table : Bool) (hr : b.ready = false) (ho : b.once = false) :
    btmEnsureInit table b = { b with once := true, ready := table } := by
  unfold btmEnsureInit
  rw [hr, ho]
  rfl

theorem btmEnsureInit_idem (table : Bool) (b : Boot) :
    btmEnsureInit table (btmEnsureInit table b) = btmEnsureInit table b := by
  cases hr : b.ready with
  | true => rw [btmEnsureInit_ready table hr, btmEnsureInit_ready table hr]
  | false =>
    cases ho : b.once with
    | true => rw [btmEnsureInit_once table ho, btmEnsureInit_once table ho]
    | false =>
      rw [btmEnsureInit_first table hr ho]
      exact btmEnsureInit_once table rfl

theorem btmEnsureInit_sys (table : Bool) (b : Boot) : (btmEnsureInit table b).sys = b.sys := by
  unfold btmEnsureInit
  split
  · rfl
  · split <;> rfl

/-! ### An initialised allocator -/

theorem largeAlloc_eq (k : Kernel) (size alignment : ℕ) :
    largeAlloc k size alignment b = b.lift (largeAt k size alignment b.sys) := by
  unfold largeAlloc largeAt
  cases btmLargeAlloc k b.sys.heap size alignment <;> rfl

theorem mallocClassAt_ready (h : b.ready = true) (k : Kernel) (table : Bool) (t size ra : ℕ)
    (class? : Option ℕ) :
    mallocClassAt cfg k table t size ra b class? =
      b.lift (mallocClass cfg k t size ra b.sys class?) := by
  cases class? with
  | none =>
    dsimp only [mallocClassAt, mallocClass]
    rw [btmEnsureInit_ready table h]
    split
    · rfl
    · exact largeAlloc_eq ..
  | some sc =>
    dsimp only [mallocClassAt, mallocClass]
    rw [btmEnsureInit_ready table h, ite_self]
    cases btmTlsGet k t b.sys with
    | none => rfl
    | some s =>
      dsimp only [smallAlloc]
      rw [if_pos h]
      generalize mallocSmall cfg k t sc ra s = r
      rfl

theorem mallocAt_ready (h : b.ready = true) (k : Kernel) (table : Bool) (t size ra : ℕ) :
    mallocAt cfg k table t size ra b = b.lift (btmMallocAt cfg k t size ra b.sys) :=
  mallocClassAt_ready h k table t size ra (btmSizeToSc size)

theorem callocAt_ready (h : b.ready = true) (k : Kernel) (table : Bool) (t n size ra : ℕ) :
    callocAt cfg k table t n size ra b = b.lift (btmCallocAt cfg k t n size ra b.sys) := by
  unfold callocAt btmCallocAt
  rw [btmEnsureInit_ready table h, mallocAt_ready h]
  split
  · rfl
  split
  · rfl
  split
  · exact largeAlloc_eq ..
  cases btmMallocAt cfg k t (n * size) ra b.sys with
  | error e => rfl
  | ok r =>
    obtain ⟨p, s⟩ := r
    dsimp only [Boot.lift]
    split <;> rfl

theorem alignedAt_ready (h : b.ready = true) (k : Kernel) (table : Bool) (t alignment size ra : ℕ) :
    alignedAt cfg k table t alignment size ra b = b.lift
      (if alignment ≤ btmAlignment then btmMallocAt cfg k t size ra b.sys
        else largeAt k size alignment b.sys) := by
  unfold alignedAt
  dsimp only
  rw [btmEnsureInit_ready table h]
  split
  · exact mallocAt_ready h ..
  · exact largeAlloc_eq ..

/-- Once initialised, the calls are those of the other modules. -/
theorem run_ready (h : b.ready = true) : run cfg b x = b.lift (initialised cfg b.sys x) := by
  unfold run initialised
  cases x.call with
  | malloc size => exact mallocAt_ready h ..
  | realloc size =>
    simp only [Alloc.run, btmReallocAt_null]
    exact mallocAt_ready h ..
  | calloc n size => exact callocAt_ready h ..
  | alignedAlloc alignment size =>
    dsimp only [Alloc.run, btmAlignedAlloc]
    by_cases h1 : isPow2 alignment = true
    · by_cases h2 : size = 0
      · simp [h1, h2, Boot.lift]
      · by_cases h3 : size % alignment = 0
        · simp only [h1, h2, h3, alignedAt_ready h, Bool.not_true, Bool.false_or, beq_iff_eq,
            bne_self_eq_false, Bool.or_false, Bool.false_eq_true, if_false]
        · simp [h1, h2, h3, Boot.lift]
    · simp [h1, Boot.lift]
  | posixMemalign alignment size =>
    dsimp only [Alloc.run, btmPosixMemalign]
    by_cases h1 : isPow2 alignment = true
    · by_cases h2 : alignment % 8 = 0
      · by_cases h3 : size = 0
        · simp [h1, h2, h3, Boot.lift]
        · simp only [h1, h2, h3, alignedAt_ready h, Bool.not_true, Bool.false_or, beq_iff_eq,
            bne_self_eq_false, Bool.or_false, Bool.false_eq_true, if_false]
          generalize (if alignment ≤ btmAlignment then _ else _ : Except Trap (ℕ × Sys)) = r
          cases r with
          | error e => rfl
          | ok r =>
            obtain ⟨p, s⟩ := r
            by_cases hp : p = 0
            · subst hp; rfl
            · simp only [Boot.lift, if_neg hp]
      · simp [h1, h2, Boot.lift]
    · simp [h1, Boot.lift]

/-! ### The first attempt -/

theorem mallocAt_first {k : Kernel} {table : Bool} {t size ra : ℕ} (hs : size ≠ 0)
    (ht : (b.sys.threads t).tls = true → btmEnsureInit table b = b) :
    mallocAt cfg k table t size ra b = mallocAt cfg k table t size ra (btmEnsureInit table b) := by
  unfold mallocAt
  cases btmSizeToSc size with
  | none =>
    dsimp only [mallocClassAt]
    rw [if_neg hs, if_neg hs, btmEnsureInit_idem]
  | some sc =>
    dsimp only [mallocClassAt]
    rw [btmEnsureInit_sys, btmEnsureInit_idem, ite_self]
    cases htls : (b.sys.threads t).tls with
    | true => rw [if_pos rfl, ht htls]
    | false => rfl

theorem mallocAt_zero {k : Kernel} {table : Bool} {t size ra : ℕ} (hs : size = 0) :
    mallocAt cfg k table t size ra b = .ok (0, b) := by
  have hnone : btmSizeToSc 0 = none := by
    unfold btmSizeToSc
    rfl
  subst hs
  unfold mallocAt
  rw [hnone]
  rfl

theorem callocAt_first {k : Kernel} {table : Bool} {t n size ra : ℕ} (hs : n * size ≠ 0)
    (ht : (b.sys.threads t).tls = true → btmEnsureInit table b = b) (hlt : ¬ 2 ^ 64 ≤ n * size) :
    callocAt cfg k table t n size ra b = callocAt cfg k table t n size ra (btmEnsureInit table b) := by
  unfold callocAt
  rw [if_neg hlt, if_neg hlt, if_neg hs, if_neg hs, btmEnsureInit_idem, mallocAt_first hs ht]

theorem alignedAt_first {k : Kernel} {table : Bool} {t alignment size ra : ℕ} :
    alignedAt cfg k table t alignment size ra b =
      alignedAt cfg k table t alignment size ra (btmEnsureInit table b) := by
  unfold alignedAt
  rw [btmEnsureInit_idem]

/-- A call that asks for memory makes the attempt before anything else. -/
theorem run_first (hreq : x.call.request ≠ none)
    (ht : (b.sys.threads x.t).tls = true → btmEnsureInit x.table b = b) :
    run cfg b x = run cfg (btmEnsureInit x.table b) x := by
  unfold run
  cases hc : x.call with
  | malloc size =>
    exact mallocAt_first (fun h => hreq (by rw [hc, Alloc.request, if_pos h])) ht
  | realloc size =>
    exact mallocAt_first (fun h => hreq (by rw [hc, Alloc.request, if_pos h])) ht
  | calloc n size =>
    have hn : ¬ (2 ^ 64 ≤ n * size ∨ n * size = 0) := fun h =>
      hreq (by rw [hc, Alloc.request, if_pos h])
    rw [not_or] at hn
    exact callocAt_first hn.2 ht hn.1
  | alignedAlloc alignment size =>
    dsimp only
    rw [alignedAt_first]
    split
    · rename_i h
      exact absurd (by rw [hc, Alloc.request, if_pos h]) hreq
    · rfl
  | posixMemalign alignment size =>
    dsimp only
    rw [alignedAt_first]
    split
    · rename_i h
      exact absurd (by rw [hc, Alloc.request, if_pos h]) hreq
    · rfl

/-- A call that asks for nothing does nothing. -/
theorem run_nothing (hreq : x.call.request = none) : run cfg b x = .ok (0, b) := by
  unfold run
  cases hc : x.call with
  | malloc size =>
    rw [hc] at hreq
    exact mallocAt_zero (by simpa [Alloc.request] using hreq)
  | realloc size =>
    rw [hc] at hreq
    exact mallocAt_zero (by simpa [Alloc.request] using hreq)
  | calloc n size =>
    rw [hc, Alloc.request] at hreq
    split at hreq
    · rename_i h
      dsimp only
      unfold callocAt
      rcases h with h | h
      · rw [if_pos h]
      · rw [if_pos h, ite_self]
    · cases hreq
  | alignedAlloc alignment size =>
    rw [hc, Alloc.request] at hreq
    split at hreq
    · rename_i h
      exact if_pos h
    · cases hreq
  | posixMemalign alignment size =>
    rw [hc, Alloc.request] at hreq
    split at hreq
    · rename_i h
      exact if_pos h
    · cases hreq

/-! ### After a failed attempt -/

/-- The attempt has failed, and no bin has a slot. -/
structure Failed (b : Boot) : Prop where
  once : b.once = true
  ready : b.ready = false
  bins : ∀ t i, ((b.sys.threads t).bins i).freeHead = 0

theorem Failed.setHeap (F : Failed b) (h : Heap) : Failed { b with sys := b.sys.setHeap h } :=
  ⟨F.once, F.ready, F.bins⟩

theorem smallAlloc_failed (F : Failed b) (k : Kernel) (t sc ra : ℕ) :
    smallAlloc cfg k t sc ra b = .error .segv := by
  unfold smallAlloc
  rw [F.ready]
  dsimp only
  rw [if_neg (by decide), if_pos (F.bins ..)]

/-- A thread that has its cache, or gets it, indexes the absent table. -/
theorem mallocClassAt_failed (F : Failed b) (k : Kernel) (table : Bool) (t size ra sc : ℕ) :
    mallocClassAt cfg k table t size ra b (some sc) =
      if (b.sys.threads t).tls = true ∨ k.tls = true then .error .segv else .ok (0, b) := by
  dsimp only [mallocClassAt]
  rw [btmEnsureInit_once table F.once, ite_self]
  unfold btmTlsGet
  cases ht : (b.sys.threads t).tls with
  | true => exact smallAlloc_failed F ..
  | false =>
    cases hk : k.tls with
    | true =>
      -- the new cache is empty too
      refine smallAlloc_failed (b := { b with sys := b.sys.modThread t _ })
        ⟨F.once, F.ready, fun t' i => ?_⟩ k t sc ra
      dsimp only [Sys.modThread]
      rw [Function.update_apply]
      split
      · rfl
      · exact F.bins t' i
    | false => rfl

theorem largeAlloc_failed (F : Failed b) (k : Kernel) (size alignment : ℕ) {p : ℕ} {b' : Boot}
    (h : largeAlloc k size alignment b = .ok (p, b')) : Failed b' := by
  unfold largeAlloc at h
  split at h
  · cases h
    exact F.setHeap _
  · cases h

theorem mallocAt_failed (F : Failed b) {k : Kernel} {table : Bool} {t size ra p : ℕ} {b' : Boot}
    (h : mallocAt cfg k table t size ra b = .ok (p, b')) : Failed b' := by
  unfold mallocAt at h
  cases hs : btmSizeToSc size with
  | none =>
    rw [hs] at h
    dsimp only [mallocClassAt] at h
    rw [btmEnsureInit_once table F.once] at h
    split at h
    · cases h
      exact F
    · exact largeAlloc_failed F _ _ _ h
  | some sc =>
    rw [hs, mallocClassAt_failed F] at h
    split at h
    · cases h
    · cases h
      exact F

theorem alignedAt_failed (F : Failed b) {k : Kernel} {table : Bool} {t alignment size ra p : ℕ}
    {b' : Boot} (h : alignedAt cfg k table t alignment size ra b = .ok (p, b')) : Failed b' := by
  unfold alignedAt at h
  dsimp only at h
  rw [btmEnsureInit_once table F.once] at h
  split at h
  · exact mallocAt_failed F h
  · exact largeAlloc_failed F _ _ _ h

theorem callocAt_failed (F : Failed b) {k : Kernel} {table : Bool} {t n size ra p : ℕ} {b' : Boot}
    (h : callocAt cfg k table t n size ra b = .ok (p, b')) : Failed b' := by
  unfold callocAt at h
  rw [btmEnsureInit_once _ F.once] at h
  split at h
  · cases h; exact F
  split at h
  · cases h; exact F
  split at h
  · exact largeAlloc_failed F _ _ _ h
  cases hm : mallocAt cfg k table t (n * size) ra b with
  | error e => rw [hm] at h; cases h
  | ok r =>
    obtain ⟨p', b₁⟩ := r
    have F₁ := mallocAt_failed F hm
    rw [hm] at h
    dsimp only at h
    split at h
    · cases h; exact F₁
    · cases h; exact F₁.setHeap _

/-- No later call changes that the attempt has failed. -/
theorem run_failed (F : Failed b) {p : ℕ} {b' : Boot} (h : run cfg b x = .ok (p, b')) :
    Failed b' := by
  unfold run at h
  cases hc : x.call with
  | malloc size => rw [hc] at h; exact mallocAt_failed F h
  | realloc size => rw [hc] at h; exact mallocAt_failed F h
  | calloc n size => rw [hc] at h; exact callocAt_failed F h
  | alignedAlloc alignment size =>
    rw [hc] at h
    dsimp only at h
    split at h
    · cases h; exact F
    · exact alignedAt_failed F h
  | posixMemalign alignment size =>
    rw [hc] at h
    dsimp only at h
    split at h
    · cases h; exact F
    · exact alignedAt_failed F h

theorem mallocAt_failed_small (F : Failed b) {k : Kernel} {table : Bool} {t size ra : ℕ}
    (hs : btmSizeToSc size ≠ none) :
    mallocAt cfg k table t size ra b =
      if (b.sys.threads t).tls = true ∨ k.tls = true then .error .segv else .ok (0, b) := by
  obtain ⟨sc, hsc⟩ := Option.ne_none_iff_exists'.mp hs
  unfold mallocAt
  rw [hsc]
  exact mallocClassAt_failed F ..

theorem callocAt_failed_small (F : Failed b) {k : Kernel} {table : Bool} {t n size ra : ℕ}
    (hlt : ¬ 2 ^ 64 ≤ n * size) (hs : btmSizeToSc (n * size) ≠ none) :
    callocAt cfg k table t n size ra b =
      if (b.sys.threads t).tls = true ∨ k.tls = true then .error .segv else .ok (0, b) := by
  obtain ⟨sc, hsc⟩ := Option.ne_none_iff_exists'.mp hs
  obtain ⟨hpos, hmax, -⟩ := btmSizeToSc_some (by omega) hsc
  unfold callocAt
  rw [if_neg hlt, if_neg (by omega), if_neg (by rw [smallMaxSize_eq]; omega),
    mallocAt_failed_small F hs]
  by_cases h : (b.sys.threads t).tls = true ∨ k.tls = true
  · rw [if_pos h]
  · rw [if_neg h]
    rfl

/-- A small request after a failed attempt. -/
theorem run_failed_small (F : Failed b) (hs : x.call.Small) :
    run cfg b x = if (b.sys.threads x.t).tls = true ∨ x.k.tls = true then .error .segv
      else .ok (0, b) := by
  obtain ⟨size, alignment, hreq, hsc, hal⟩ := hs
  unfold run
  cases hc : x.call with
  | malloc size =>
    rw [hc, Alloc.request] at hreq
    split at hreq
    · cases hreq
    · cases hreq
      exact mallocAt_failed_small F hsc
  | realloc size =>
    rw [hc, Alloc.request] at hreq
    split at hreq
    · cases hreq
    · cases hreq
      exact mallocAt_failed_small F hsc
  | calloc n size =>
    rw [hc, Alloc.request] at hreq
    split at hreq
    · cases hreq
    · rename_i hn
      cases hreq
      rw [not_or] at hn
      exact callocAt_failed_small F hn.1 hsc
  | alignedAlloc alignment size =>
    rw [hc, Alloc.request] at hreq
    split at hreq
    · cases hreq
    · rename_i hn
      cases hreq
      dsimp only [alignedAt]
      rw [if_neg hn, if_pos hal, btmEnsureInit_once _ F.once]
      exact mallocAt_failed_small F hsc
  | posixMemalign alignment size =>
    rw [hc, Alloc.request] at hreq
    split at hreq
    · cases hreq
    · rename_i hn
      cases hreq
      dsimp only [alignedAt]
      rw [if_neg hn, if_pos hal, btmEnsureInit_once _ F.once]
      exact mallocAt_failed_small F hsc

theorem cannot_cache {tls ktls : Bool} {b b' : Boot}
    (h : (if tls = true ∨ ktls = true then .error .segv else .ok (0, b) : Except Trap (ℕ × Boot)) =
      .ok (0, b')) : tls = false ∧ ktls = false := by
  split at h
  · cases h
  · rename_i hno
    simpa using hno

theorem small_request {c : Alloc} (hs : c.Small) : c.request ≠ none := by
  obtain ⟨size, alignment, h, -⟩ := hs
  rw [h]
  simp

/-- A small request never traps on an initialised allocator. -/
theorem btmMallocAt_small (cfg : Config) (k : Kernel) (t size ra : ℕ) (s : Sys) (hs : btmSizeToSc size ≠ none) :
    ∃ p s', btmMallocAt cfg k t size ra s = .ok (p, s') := by
  obtain ⟨sc, hsc⟩ := Option.ne_none_iff_exists'.mp hs
  unfold btmMallocAt
  rw [hsc]
  dsimp only [mallocClass]
  split
  · exact ⟨_, _, rfl⟩
  · exact ⟨_, _, rfl⟩

theorem btmCallocAt_small (k : Kernel) (t n size ra : ℕ) (s : Sys) (hlt : ¬ 2 ^ 64 ≤ n * size)
    (hs : btmSizeToSc (n * size) ≠ none) :
    ∃ p s', btmCallocAt cfg k t n size ra s = .ok (p, s') := by
  obtain ⟨sc, hsc⟩ := Option.ne_none_iff_exists'.mp hs
  obtain ⟨hpos, hmax, -⟩ := btmSizeToSc_some (by omega) hsc
  obtain ⟨p, s', hm⟩ := btmMallocAt_small cfg k t (n * size) ra s hs
  unfold btmCallocAt
  rw [if_neg hlt, if_neg (by omega), if_neg (by rw [smallMaxSize_eq]; omega), hm]
  dsimp only
  split
  · exact ⟨_, _, rfl⟩
  · exact ⟨_, _, rfl⟩

theorem initialised_small (cfg : Config) (s : Sys) (hs : x.call.Small) :
    ∃ p s', initialised cfg s x = .ok (p, s') := by
  obtain ⟨size, alignment, hreq, hsc, hal⟩ := hs
  unfold initialised
  cases hc : x.call with
  | malloc size =>
    rw [hc, Alloc.request] at hreq
    split at hreq
    · cases hreq
    · cases hreq
      exact btmMallocAt_small _ _ _ _ _ _ hsc
  | realloc size =>
    rw [hc, Alloc.request] at hreq
    split at hreq
    · cases hreq
    · cases hreq
      simp only [Alloc.run, btmReallocAt_null]
      exact btmMallocAt_small _ _ _ _ _ _ hsc
  | calloc n size =>
    rw [hc, Alloc.request] at hreq
    split at hreq
    · cases hreq
    · rename_i hn
      cases hreq
      rw [not_or] at hn
      exact btmCallocAt_small _ _ _ _ _ _ hn.1 hsc
  | alignedAlloc alignment size =>
    rw [hc, Alloc.request] at hreq
    split at hreq
    · cases hreq
    · rename_i hn
      cases hreq
      simp only [Bool.or_eq_true, not_or, Bool.not_eq_true', bne_iff_ne, beq_iff_eq, ne_eq,
        Bool.not_eq_false, not_not] at hn
      dsimp only [Alloc.run, btmAlignedAlloc]
      rw [hn.1.1, if_neg (by decide), if_neg hn.1.2, if_neg (by simp [hn.2]), if_pos hal]
      exact btmMallocAt_small _ _ _ _ _ _ hsc
  | posixMemalign alignment size =>
    rw [hc, Alloc.request] at hreq
    split at hreq
    · cases hreq
    · rename_i hn
      cases hreq
      simp only [Bool.or_eq_true, not_or, Bool.not_eq_true', bne_iff_ne, beq_iff_eq, ne_eq,
        Bool.not_eq_false, not_not] at hn
      obtain ⟨p, s', hm⟩ := btmMallocAt_small cfg x.k x.t size x.ra s hsc
      dsimp only [Alloc.run, btmPosixMemalign]
      rw [if_neg (by simp [hn.1]), if_neg hn.2, if_pos hal, hm]
      dsimp only
      by_cases hp : p = 0
      · exact ⟨0, s', by rw [if_pos hp]⟩
      · exact ⟨p, s', by rw [if_neg hp]⟩

/-! ### Runs -/

/-- Before the attempt no thread has a cache; after it, the attempt has failed or succeeded. -/
inductive Phase (b : Boot) : Prop where
  | before : b.once = false → b.ready = false → (∀ t, (b.sys.threads t).tls = false) →
      (∀ t i, ((b.sys.threads t).bins i).freeHead = 0) → Phase b
  | failed : Failed b → Phase b
  | done : b.ready = true → Phase b

theorem Phase.next {b' : Boot} (P : Phase b) (h : next cfg b x = some b') : Phase b' := by
  unfold Startup.next at h
  split at h
  case h_2 => cases h
  rename_i p b₁ hrun
  cases h
  cases P with
  | failed F => exact .failed (run_failed F hrun)
  | done hr =>
    rw [run_ready hr] at hrun
    cases hi : initialised cfg b.sys x with
    | error e => rw [hi] at hrun; cases hrun
    | ok r => rw [hi] at hrun; cases hrun; exact .done hr
  | before ho hr ht hb =>
    cases hreq : x.call.request with
    | none =>
      rw [run_nothing hreq] at hrun
      cases hrun
      exact .before ho hr ht hb
    | some r =>
      rw [run_first (by rw [hreq]; simp) (fun h => by rw [ht] at h; cases h),
        btmEnsureInit_first _ hr ho] at hrun
      cases htable : x.table with
      | true =>
        rw [htable, run_ready rfl] at hrun
        cases hi : initialised cfg b.sys x with
        | error e => rw [hi] at hrun; cases hrun
        | ok r => rw [hi] at hrun; cases hrun; exact .done rfl
      | false =>
        rw [htable] at hrun
        exact .failed (run_failed (b := { b with once := true, ready := false }) ⟨rfl, rfl, hb⟩ hrun)

/-- In every reachable state, a call is clean if it is safe; a small call only then. -/
theorem init_clean_iff_safe {xs : List Step} (h : Run (next cfg) (fun _ _ => True) Boot.init xs b)
    (x : Step) :
    (Safe b x → Clean cfg b x) ∧ (x.call.Small → Clean cfg b x → Safe b x) := by
  have P : Phase b := h.invariant Phase (fun _ _ _ P _ hn => P.next hn)
    (.before rfl rfl (fun _ => rfl) fun _ _ => rfl)
  constructor
  · rintro (hr | hreq | ⟨ho, htable⟩ | ⟨htable, htls⟩)
    · exact ⟨fun h => absurd (hr.symm.trans h) (by decide), fun h => absurd (hr.symm.trans h) (by decide)⟩
    · refine ⟨fun _ _ hs => ?_, fun _ _ h => absurd hreq h⟩
      obtain ⟨size, alignment, hs, -⟩ := hs
      rw [hreq] at hs
      cases hs
    · refine ⟨fun _ h => absurd (htable.symm.trans h) (by decide), fun hr _ hreq => ?_⟩
      have ht : ∀ t, (b.sys.threads t).tls = false := by
        cases P with
        | before _ _ ht _ => exact ht
        | failed F => rw [F.once] at ho; cases ho
        | done h => rw [hr] at h; cases h
      rw [run_first hreq (fun h => by rw [ht] at h; cases h), btmEnsureInit_first _ hr ho, htable]
      exact run_ready rfl
    · refine ⟨fun hr _ hs => ?_, fun _ h => absurd (htable.symm.trans h) (by decide)⟩
      obtain ⟨htls, hk⟩ := htls hs
      have hno : ¬ ((b.sys.threads x.t).tls = true ∨ x.k.tls = true) := by
        rw [htls, hk]
        decide
      cases P with
      | done h => rw [hr] at h; cases h
      | failed F => exact ⟨b, by rw [run_failed_small F hs, if_neg hno]⟩
      | before ho _ ht hb =>
        have hreq := small_request hs
        refine ⟨{ b with once := true, ready := false }, ?_⟩
        rw [run_first hreq (fun h => by rw [ht] at h; cases h), btmEnsureInit_first _ hr ho, htable,
          run_failed_small (b := { b with once := true, ready := false }) ⟨rfl, rfl, hb⟩ hs, if_neg hno]
  · intro hs C
    have hreq := small_request hs
    cases P with
    | done h => exact Or.inl h
    | failed F =>
      have hrun : run cfg b x = _ := run_failed_small F hs
      cases htable : x.table with
      | true =>
        -- the call does not initialise the allocator
        obtain ⟨p, s, hi⟩ := initialised_small cfg b.sys hs
        rw [C.retries F.ready htable hreq, hi] at hrun
        split at hrun
        · cases hrun
        · have hb : ({ b with once := true, ready := true, sys := s } : Boot) = b :=
            (Prod.mk.inj (Except.ok.inj hrun)).2
          have := F.ready
          rw [← hb] at this
          cases this
      | false =>
        obtain ⟨b', hok⟩ := C.fails F.ready htable hs
        exact Or.inr (Or.inr (Or.inr ⟨htable, fun _ => cannot_cache (hrun.symm.trans hok)⟩))
    | before ho hr ht hb =>
      cases htable : x.table with
      | true => exact Or.inr (Or.inr (Or.inl ⟨ho, htable⟩))
      | false =>
        obtain ⟨b', hok⟩ := C.fails hr htable hs
        rw [run_first hreq (fun h => by rw [ht] at h; cases h), btmEnsureInit_first _ hr ho, htable,
          run_failed_small (b := { b with once := true, ready := false }) ⟨rfl, rfl, hb⟩ hs] at hok
        exact Or.inr (Or.inr (Or.inr ⟨htable, fun _ => cannot_cache hok⟩))

/-- The first call initialises the allocator. If it fails, since neither the table nor the thread's cache can
    be mapped, a second one that cannot map them either fails cleanly too. -/
theorem init_clean_retried :
    Clean Config.plain Boot.init ⟨.malloc 16, 0, 0, Kernel.plain, true⟩ ∧
    ∃ b, Run (next Config.plain) (fun _ _ => True) Boot.init
        [⟨.malloc 16, 0, 0, { Kernel.plain with tls := false }, false⟩] b ∧ b.ready = false ∧
      b.once = true ∧ Clean Config.plain b ⟨.malloc 16, 0, 0, { Kernel.plain with tls := false }, false⟩ := by
  have hex : (exec (next Config.plain) Boot.init
      [⟨.malloc 16, 0, 0, { Kernel.plain with tls := false }, false⟩]).isSome := by
    decide +kernel
  have hrun := run_of_exec (exec_eq_finish hex)
  refine ⟨(init_clean_iff_safe (.nil _) _).1 (Or.inr (Or.inr (Or.inl ⟨rfl, rfl⟩))), _, hrun, by decide +kernel,
    by decide +kernel, (init_clean_iff_safe hrun _).1 (Or.inr (Or.inr (Or.inr ⟨rfl, fun _ => ⟨?_, rfl⟩⟩)))⟩
  decide +kernel

/-- The table cannot be mapped and neither can the thread's cache: the first call returns `NULL`. The
    second can map both, but indexes the table that the first did not map. -/
theorem init_not_retried :
    ∃ b, Run (next Config.plain) (fun _ _ => True) Boot.init
        [⟨.malloc 16, 0, 0, { Kernel.plain with tls := false }, false⟩] b ∧
      run Config.plain b ⟨.malloc 16, 0, 0, Kernel.plain, true⟩ = .error .segv := by
  have F : Failed { Boot.init with once := true } := ⟨rfl, rfl, fun _ _ => rfl⟩
  have hsmall : (Alloc.malloc 16).Small := ⟨16, 16, rfl, by decide +kernel, le_refl 16⟩
  have hfirst : run Config.plain Boot.init
      ⟨.malloc 16, 0, 0, { Kernel.plain with tls := false }, false⟩ =
        .ok (0, { Boot.init with once := true }) := by
    rw [run_first (small_request hsmall) (fun h => by cases h), btmEnsureInit_first _ rfl rfl]
    exact (run_failed_small F hsmall).trans (if_neg (by decide))
  refine ⟨_, .cons trivial (by unfold Startup.next; rw [hfirst]) (.nil _), ?_⟩
  exact (run_failed_small F hsmall).trans (if_pos (Or.inr rfl))

end Calls

end BtMalloc.Startup
