import BtMalloc.Partition
import BtMalloc.Log
import BtMalloc.Lib.Units

/-!
# Proofs: freelist links

`btm_fl_get` undoes `btm_fl_set`, and a write into one unit leaves the links in all others alone. On
top of that the three loops over links: formatting a slab, moving slots to a local list in a refill,
and walking to the end of that list. All of it is stated for any set of units that are apart.
-/

namespace BtMalloc

open LinkedList PagedMemory

variable {cfg : Config} {U : ℕ → ℕ → Prop} {S : ℕ → Prop}

/-- A unit that can hold a link: at least 16 bytes, at an address other than 0. -/
def Cell (U : ℕ → ℕ → Prop) (s : ℕ) : Prop := ∃ n, U s n ∧ 16 ≤ n ∧ 0 < s ∧ s < 2 ^ 64

/-! ## Pointers -/

@[simp] theorem ptr_zero : ptr 0 = none := rfl

theorem ptr_eq_some {a b : ℕ} : ptr a = some b ↔ a = b ∧ b ≠ 0 := by
  unfold ptr
  by_cases h : a = 0
  · rw [if_pos h]
    constructor
    · intro e
      cases e
    · rintro ⟨rfl, hb⟩
      exact absurd h hb
  · rw [if_neg h, Option.some.injEq]
    constructor
    · rintro rfl
      exact ⟨rfl, h⟩
    · exact fun e => e.1

theorem ptr_of_pos {a : ℕ} (h : 0 < a) : ptr a = some a := ptr_eq_some.mpr ⟨rfl, by omega⟩

theorem ptr_eq_none {a : ℕ} : ptr a = none ↔ a = 0 := by
  unfold ptr
  split <;> simp_all

/-- The head field of a list of slots. -/
theorem chain_ptr_head {nx : ℕ → Option ℕ} {a : ℕ} {l : List ℕ} (h : Chain nx (ptr a) l) :
    a = l.headD 0 := by
  cases l with
  | nil => exact ptr_eq_none.mp h
  | cons b l => exact (ptr_eq_some.mp h.1).1

/-! ## One link -/

/-- What `btm_fl_set` stores. -/
def flEncode (cfg : Config) (slot next : ℕ) : ℕ :=
  if cfg.hardening then next ^^^ cfg.flKey ^^^ (slot >>> 12) else next

theorem btmFlSet_eq (h : Heap) (s v : ℕ) : btmFlSet cfg h s v =
    { h with mem := h.mem.writeLE 8 s (flEncode cfg s v), log := .set s :: h.log } := rfl

theorem flEncode_lt {s v : ℕ} (hs : s < 2 ^ 64) (hv : v < 2 ^ 64) : flEncode cfg s v < 2 ^ 64 := by
  unfold flEncode
  split
  · have h1 : s >>> 12 < 2 ^ 64 := by
      rw [Nat.shiftRight_eq_div_pow]
      omega
    exact Nat.xor_lt_two_pow (Nat.xor_lt_two_pow hv cfg.flKey_lt) h1
  · exact hv

/-- The link reads back. -/
theorem flDecode_set {m : Mem} (hA : m.Apart U) {s v : ℕ} (hs : Cell U s) (hv : v < 2 ^ 64) :
    flDecode cfg (m.writeLE 8 s (flEncode cfg s v)) s = v := by
  obtain ⟨n, hu, hn, -, hlt⟩ := hs
  have hr : (m.writeLE 8 s (flEncode cfg s v)).readLE 8 s = flEncode cfg s v := by
    rw [hA.readLE_writeLE hu (by omega)]
    exact Nat.mod_eq_of_lt (flEncode_lt hlt hv)
  unfold flDecode
  rw [hr]
  unfold flEncode
  split
  · rw [Nat.xor_assoc, Nat.xor_assoc v, Nat.xor_assoc, Nat.xor_self, Nat.xor_zero]
  · rfl

/-- The link of a kept unit stays. -/
theorem keeps_flDecode {m m' : Mem} (h : Keeps U S m m') {s : ℕ} (hs : Cell U s) (hS : ¬ S s) :
    flDecode cfg m' s = flDecode cfg m s := by
  obtain ⟨n, hu, hn, -⟩ := hs
  unfold flDecode
  rw [h.readLE hu hS (by omega)]

theorem keeps_flNext {m m' : Mem} (h : Keeps U S m m') {s : ℕ} (hs : Cell U s) (hS : ¬ S s) :
    flNext cfg m' s = flNext cfg m s := by
  unfold flNext
  rw [keeps_flDecode h hs hS]

/-- A list of slots outside the changed units stays linked. -/
theorem keeps_chain {m m' : Mem} (h : Keeps U S m m') {hd : Option ℕ} {l : List ℕ}
    (hc : Chain (flNext cfg m) hd l) (hl : ∀ s ∈ l, Cell U s ∧ ¬ S s) :
    Chain (flNext cfg m') hd l :=
  hc.congr (fun s hs => keeps_flNext h (hl s hs).1 (hl s hs).2)

/-- `btm_fl_set` in one slot: the slot's link is the new one, all else is kept. -/
theorem flSet_spec {m : Mem} (hA : m.Apart U) {s v : ℕ} (hs : Cell U s) (hv : v < 2 ^ 64) :
    flNext cfg (m.writeLE 8 s (flEncode cfg s v)) s = ptr v ∧
      Keeps U (fun x => x = s) m (m.writeLE 8 s (flEncode cfg s v)) := by
  constructor
  · unfold flNext
    rw [flDecode_set hA hs hv]
  · obtain ⟨n, hu, hn, -⟩ := hs
    have := hA.write_keeps (f := leByte (flEncode cfg s v)) (o := 0) (k := 8) hu (by omega)
    rwa [Nat.add_zero] at this

/-- Pushing a slot in front of a list of slots. -/
theorem flSet_push {m : Mem} (hA : m.Apart U) {s v : ℕ} {l : List ℕ} (hs : Cell U s)
    (hv : v < 2 ^ 64) (hc : Chain (flNext cfg m) (ptr v) l) (hl : ∀ x ∈ l, Cell U x) (hn : s ∉ l) :
    Chain (flNext cfg (m.writeLE 8 s (flEncode cfg s v))) (ptr s) (s :: l) := by
  obtain ⟨h1, h2⟩ := (@flSet_spec cfg) hA hs hv
  refine ⟨ptr_of_pos hs.choose_spec.2.2.1, ?_⟩
  rw [h1]
  exact keeps_chain h2 hc (fun x hx => ⟨hl x hx, fun e => hn (e ▸ hx)⟩)

/-! ## Formatting a slab -/

/-- `slab_format` links the slots of the slab in address order and touches nothing else. -/
theorem slabFormatLoop_spec {data slot : ℕ} (hpos : 0 < slot) {i next : ℕ} {h : Heap} {rest : List ℕ}
    (hA : h.mem.Apart U) (hcell : ∀ j < i, Cell U (data + j * slot)) (hnext : next < 2 ^ 64)
    (hc : Chain (flNext cfg h.mem) (ptr next) rest)
    (hrest : ∀ s ∈ rest, Cell U s ∧ ∀ j < i, s ≠ data + j * slot) :
    ∃ head m' log', slabFormatLoop cfg data slot i next h =
        (head, { h with mem := m', log := log' }) ∧ m'.pt = h.mem.pt ∧
      Keeps U (fun s => ∃ j < i, s = data + j * slot) h.mem m' ∧
      Chain (flNext cfg m') (ptr head) ((List.range i).map (fun j => data + j * slot) ++ rest) ∧
      LinkLog (fun _ => False) h.log log' ∧ ∀ j < i, Fresh log' (data + j * slot) := by
  induction i generalizing next h rest with
  | zero =>
    refine ⟨next, h.mem, h.log, rfl, rfl, Keeps.refl, by simpa using hc, LinkLog.refl, ?_⟩
    intro j hj
    omega
  | succ i ih =>
    have hs := hcell i (by omega)
    obtain ⟨hlink, hkeep⟩ := (@flSet_spec cfg) hA hs hnext
    have hinj : ∀ j < i, data + i * slot ≠ data + j * slot := by
      intro j hj e
      have := Nat.mul_lt_mul_of_pos_right hj hpos
      omega
    have hnr : data + i * slot ∉ rest := fun hm => (hrest _ hm).2 i (by omega) rfl
    obtain ⟨head, m', log', he, hpt, hk, hch, hlog, hfr⟩ := @ih
      (data + i * slot) (btmFlSet cfg h (data + i * slot) next) ((data + i * slot) :: rest)
      (hA.congr_pt rfl) (fun j hj => hcell j (by omega))
      hs.choose_spec.2.2.2 (flSet_push hA hs hnext hc (fun x hx => (hrest x hx).1) hnr) (by
        intro x hx
        rcases List.mem_cons.mp hx with rfl | hx
        · exact ⟨hs, hinj⟩
        · exact ⟨(hrest x hx).1, fun j hj => (hrest x hx).2 j (by omega)⟩)
    refine ⟨head, m', log', by rw [slabFormatLoop, he]; rfl, hpt, ?_, ?_, ?_, ?_⟩
    · have h1 := hkeep.mono (T := fun s => ∃ j < i + 1, s = data + j * slot)
        (fun _ e => ⟨i, by omega, e⟩)
      have h2 := hk.mono (T := fun s => ∃ j < i + 1, s = data + j * slot)
        (fun _ ⟨j, hj, e⟩ => ⟨j, by omega, e⟩)
      exact h1.trans h2
    · rw [List.range_succ, List.map_append, List.append_assoc]
      exact hch
    · exact (@LinkLog.trans _ _ _ (.set (data + i * slot) :: h.log)) LinkLog.set hlog
        (fun _ hf => hf.elim)
    · intro j hj
      rcases Nat.lt_succ_iff_lt_or_eq.mp hj with hj | rfl
      · exact hfr j hj
      · exact hlog.fresh LinkLog.fresh_set

/-! ## Moving slots to a local list -/

/-- The locked loop of `btm_pool_refill` moves the first `want` slots of the slab's freelist, in
    reverse order, in front of the local list. -/
theorem refillLoop_spec {r : SlabRef} {want loc n : ℕ} {h : Heap} {l acc : List ℕ}
    (hA : h.mem.Apart U) (hl : Chain (flNext cfg h.mem) (ptr (h.slabs r).freeHead) l)
    (hacc : Chain (flNext cfg h.mem) (ptr loc) acc) (hcell : ∀ s ∈ l ++ acc, Cell U s)
    (hnd : (l ++ acc).Nodup) :
    ∃ m' log', refillLoop cfg r want loc n h =
        (((l.take want).reverse ++ acc).headD 0, n + min want l.length,
          { h with
            mem := m', log := log'
            slabs := Function.update h.slabs r
              { h.slabs r with freeHead := (l.drop want).headD 0 } }) ∧
      m'.pt = h.mem.pt ∧ Keeps U (fun s => s ∈ l.take want) h.mem m' ∧
      Chain (flNext cfg m') (ptr ((l.drop want).headD 0)) (l.drop want) ∧
      Chain (flNext cfg m') (ptr (((l.take want).reverse ++ acc).headD 0))
        ((l.take want).reverse ++ acc) ∧
      LinkLog (fun s => s ∈ l) h.log log' := by
  induction want generalizing loc n h l acc with
  | zero =>
    have hf := chain_ptr_head hl
    have hg := chain_ptr_head hacc
    refine ⟨h.mem, h.log, ?_, rfl, Keeps.refl, ?_, ?_, LinkLog.refl⟩
    · simp only [refillLoop, List.take_zero, List.reverse_nil, List.nil_append, List.drop_zero,
        Nat.zero_min, Nat.add_zero]
      rw [← hf, ← hg, Function.update_eq_self]
    · simpa only [List.drop_zero, ← hf] using hl
    · simpa only [List.take_zero, List.reverse_nil, List.nil_append, ← hg] using hacc
  | succ want ih =>
    cases l with
    | nil =>
      have hf : (h.slabs r).freeHead = 0 := chain_ptr_head hl
      have hg := chain_ptr_head hacc
      refine ⟨h.mem, h.log, ?_, rfl, Keeps.refl, rfl, ?_, LinkLog.refl⟩
      · simp only [refillLoop, hf, if_true, List.take_nil, List.reverse_nil, List.nil_append,
          List.drop_nil, List.length_nil, Nat.min_zero, Nat.add_zero, List.headD_nil]
        rw [← hg]
        congr 3
        rw [← hf, Function.update_eq_self]
      · simpa only [List.take_nil, List.reverse_nil, List.nil_append, ← hg] using hacc
    | cons s l =>
      have hs : Cell U s := hcell s (by simp)
      obtain ⟨hf, hs0⟩ := ptr_eq_some.mp hl.1
      have hsl : s ∉ l ++ acc := (List.nodup_cons.mp hnd).1
      have hnext := chain_ptr_head (a := flDecode cfg h.mem s) hl.2
      -- the list after `s` and the local list survive the write into `s`
      have hloc : loc < 2 ^ 64 := by
        rw [chain_ptr_head hacc]
        cases acc with
        | nil => simp
        | cons b acc => exact (hcell b (by simp)).choose_spec.2.2.2
      obtain ⟨hlink, hkeep⟩ := (@flSet_spec cfg) hA hs hloc
      have hacc' := flSet_push hA hs hloc hacc (fun x hx => hcell x (by simp [hx]))
        (fun hm => hsl (by simp [hm]))
      have hl' := keeps_chain hkeep hl.2 (fun x hx =>
        ⟨hcell x (by simp [hx]), fun e => hsl (by rw [← e]; simp [hx])⟩)
      obtain ⟨m', log', he, hpt, hk, hc1, hc2, hlog⟩ := @ih s (n + 1)
        (btmFlSet cfg ((h.note (.get s)).modSlab r
          fun x => { x with freeHead := btmFlGet cfg h s }) s loc) l (s :: acc) (hA.congr_pt rfl)
        (by simpa [btmFlSet_eq, Heap.modSlab, btmFlGet, Heap.note, flNext] using hl') hacc'
        (fun x hx => hcell x (by
          simp only [List.mem_append, List.mem_cons] at hx ⊢
          tauto))
        (List.perm_middle.nodup_iff.mpr hnd)
      refine ⟨m', log', ?_, hpt, ?_, ?_, ?_, ?_⟩
      · rw [refillLoop, if_neg (by rw [hf]; exact hs0)]
        simp only [hf]
        rw [he]
        simp [btmFlSet_eq, Heap.modSlab, Heap.note, Nat.add_comm, Nat.add_left_comm, Nat.succ_min_succ]
      · have h1 := hkeep.mono (T := fun x => x ∈ (s :: l).take (want + 1))
          (fun _ e => by simp [e])
        have h2 := hk.mono (T := fun x => x ∈ (s :: l).take (want + 1))
          (fun _ e => by simp [e])
        exact h1.trans h2
      · simpa using hc1
      · simpa using hc2
      · refine (LinkLog.get (s := s)).mono (fun x e => by simp [e]) |>.trans ?_ (T := fun x => x ∈ l)
          (fun x hx => Or.inl (by simp [hx]))
        exact LinkLog.trans (LinkLog.set.mono (fun _ hf => hf.elim)) hlog (fun x hx => Or.inl hx)

/-- The unlocked walk of `btm_pool_refill` reaches the slot `i` links further. -/
theorem refillTail_spec {i tail : ℕ} {h : Heap} {l : List ℕ}
    (hc : Chain (flNext cfg h.mem) (ptr tail) l) (hi : i < l.length) :
    ∃ log', refillTail cfg i tail h = (l.getD i 0, { h with log := log' }) ∧
      LinkLog (fun s => s ∈ l) h.log log' := by
  induction i generalizing tail h l with
  | zero =>
    refine ⟨h.log, ?_, LinkLog.refl⟩
    rw [refillTail, chain_ptr_head hc]
    cases l with
    | nil => simp at hi
    | cons s l => rfl
  | succ i ih =>
    cases l with
    | nil => simp at hi
    | cons s l =>
      obtain ⟨ht, -⟩ := ptr_eq_some.mp hc.1
      obtain ⟨log', he, hlog⟩ := @ih (btmFlGet cfg h tail) (h.note (.get tail)) l
        (by rw [ht]; exact hc.2) (by simpa using hi)
      refine ⟨log', ?_, ?_⟩
      · rw [refillTail, he]
        rfl
      · refine LinkLog.trans ((LinkLog.get (s := tail)).mono ?_) hlog
          (fun x hx => Or.inl (by simp [hx]))
        intro x e
        simp [e, ht]

end BtMalloc
