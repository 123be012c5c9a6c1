import Mathlib.Data.List.Nodup
import Mathlib.Data.List.Basic

/-!
# Linked lists threaded through the nodes themselves

A node carries its own links, so a list is a head pointer together with a `next` function (and, for
a doubly linked list, a `prev` function) on nodes. `Chain nx hd l` says that following `nx` from `hd`
visits exactly the nodes of `l` and ends in the null pointer; `DList` adds the back links.

The lemmas are the rules for the pointer updates that intrusive lists perform: pushing at the head,
unlinking a node in the middle, splicing at the tail, and the in-place filter that walks a list with
a pointer to the field holding the current node.
-/

namespace LinkedList

variable {α : Type*}

/-- Following `nx` from `hd` visits the nodes of `l` in order and ends in the null pointer. -/
def Chain (nx : α → Option α) : Option α → List α → Prop
  | hd, [] => hd = none
  | hd, a :: l => hd = some a ∧ Chain nx (nx a) l

/-- A doubly linked list: `hd` points to the first node of `l`, whose back link is `p`, and every
    further node's back link is its predecessor. -/
def DList (nx pv : α → Option α) : Option α → Option α → List α → Prop
  | _, hd, [] => hd = none
  | p, hd, a :: l => hd = some a ∧ pv a = p ∧ DList nx pv (some a) (nx a) l

/-! ## Singly linked lists -/

@[simp] theorem chain_nil {nx : α → Option α} {hd : Option α} : Chain nx hd [] ↔ hd = none := Iff.rfl

@[simp] theorem chain_cons {nx : α → Option α} {hd : Option α} {a : α} {l : List α} :
    Chain nx hd (a :: l) ↔ hd = some a ∧ Chain nx (nx a) l := Iff.rfl

theorem Chain.head_eq {nx : α → Option α} {hd : Option α} {l : List α} (h : Chain nx hd l) :
    hd = l.head? := by
  cases l with
  | nil => exact h
  | cons a l => exact h.1

/-- A chain only depends on the links of its own nodes. -/
theorem Chain.congr {nx nx' : α → Option α} {hd : Option α} {l : List α} (h : Chain nx hd l)
    (hx : ∀ a ∈ l, nx' a = nx a) : Chain nx' hd l := by
  induction l generalizing hd with
  | nil => exact h
  | cons a l ih =>
    refine ⟨h.1, ?_⟩
    rw [hx a (List.mem_cons_self ..)]
    exact ih h.2 (fun b hb => hx b (List.mem_cons_of_mem _ hb))

/-- The nodes of a chain are determined by its head. -/
theorem Chain.unique {nx : α → Option α} {hd : Option α} {l l' : List α} (h : Chain nx hd l)
    (h' : Chain nx hd l') : l = l' := by
  induction l generalizing hd l' with
  | nil =>
    cases l' with
    | nil => rfl
    | cons a l' =>
      have hn : hd = none := h
      rw [hn] at h'
      exact absurd h'.1 (by simp)
  | cons a l ih =>
    cases l' with
    | nil =>
      have hn : hd = none := h'
      rw [hn] at h
      exact absurd h.1 (by simp)
    | cons b l' =>
      have hab : a = b := by
        have := h.1.symm.trans h'.1
        exact Option.some.inj this
      subst hab
      rw [ih h.2 h'.2]

/-- Pushing a node whose link is set to the old head. -/
theorem Chain.push {nx nx' : α → Option α} {hd : Option α} {l : List α} {a : α}
    (h : Chain nx hd l) (ha : nx' a = hd) (hx : ∀ b ∈ l, nx' b = nx b) :
    Chain nx' (some a) (a :: l) :=
  ⟨rfl, by rw [ha]; exact h.congr hx⟩

/-- Setting the last link of a chain to the head of another one appends the two. -/
theorem Chain.append {nx nx' : α → Option α} {hd hd' : Option α} {l l' : List α} {a : α}
    (h : Chain nx hd (l ++ [a])) (h' : Chain nx' hd' l') (ha : nx' a = hd')
    (hx : ∀ b ∈ l, nx' b = nx b) : Chain nx' hd (l ++ a :: l') := by
  induction l generalizing hd with
  | nil =>
    refine ⟨h.1, ?_⟩
    rw [ha]
    exact h'
  | cons b l ih =>
    refine ⟨h.1, ?_⟩
    rw [hx b (List.mem_cons_self ..)]
    exact ih h.2 (fun c hc => hx c (List.mem_cons_of_mem _ hc))

/-- The nodes met when walking at most `fuel` links from `hd`. -/
def walk (nx : α → Option α) : Nat → Option α → List α
  | 0, _ => []
  | _ + 1, none => []
  | fuel + 1, some a => a :: walk nx fuel (nx a)

/-- With enough fuel a walk meets exactly the nodes of the chain. -/
theorem Chain.walk_eq {nx : α → Option α} {hd : Option α} {l : List α} (h : Chain nx hd l)
    {fuel : Nat} (hf : l.length ≤ fuel) : walk nx fuel hd = l := by
  induction l generalizing hd fuel with
  | nil =>
    have hn : hd = none := h
    subst hn
    cases fuel <;> rfl
  | cons a l ih =>
    obtain ⟨hh, ht⟩ := h
    subst hh
    cases fuel with
    | zero => simp at hf
    | succ fuel =>
      have hl : l.length ≤ fuel := by simpa using hf
      show a :: walk nx fuel (nx a) = a :: l
      rw [ih ht hl]

/-! ## Filtering a list in place -/

section Unlink

variable [DecidableEq α]

/-- A list under an in-place filter: its head field and the link fields of the nodes. -/
structure Links (α : Type*) where
  /-- The head pointer. -/
  head : Option α
  /-- The link of each node. -/
  next : α → Option α

/-- Read the field `pp` points to: the head (`none`) or the link of a node. -/
def Links.get (s : Links α) : Option α → Option α
  | none => s.head
  | some b => s.next b

/-- Write the field `pp` points to. -/
def Links.set (s : Links α) : Option α → Option α → Links α
  | none, v => { s with head := v }
  | some b, v => { s with next := Function.update s.next b v }

/-- Walk a list with a pointer `pp` to the field holding the current node and unlink every node
    that satisfies `p`; also returns how many nodes were unlinked. -/
def unlinkWhere (p : α → Bool) : Nat → Option α → Links α → Links α × Nat
  | 0, _, s => (s, 0)
  | fuel + 1, pp, s =>
    match s.get pp with
    | none => (s, 0)
    | some a =>
      if p a then
        let r := unlinkWhere p fuel pp (s.set pp (s.next a))
        (r.1, r.2 + 1)
      else unlinkWhere p fuel (some a) s

/-- The in-place filter keeps the nodes that do not satisfy `p`, touches no link outside the list
    and the field it started from, and counts the nodes it dropped. -/
theorem unlinkWhere_spec (p : α → Bool) {fuel : Nat} {pp : Option α} {s : Links α} {l : List α}
    (h : Chain s.next (s.get pp) l) (hf : l.length < fuel) (hnd : l.Nodup)
    (hpp : ∀ b, pp = some b → b ∉ l) :
    Chain (unlinkWhere p fuel pp s).1.next ((unlinkWhere p fuel pp s).1.get pp)
      (l.filter (fun a => !p a)) ∧
    (∀ b, pp ≠ some b → b ∉ l → (unlinkWhere p fuel pp s).1.next b = s.next b) ∧
    (pp ≠ none → (unlinkWhere p fuel pp s).1.head = s.head) ∧
    (unlinkWhere p fuel pp s).2 = l.countP p := by
  induction fuel generalizing pp s l with
  | zero => omega
  | succ fuel ih =>
    cases l with
    | nil =>
      have hg : s.get pp = none := h
      have he : unlinkWhere p (fuel + 1) pp s = (s, 0) := by simp [unlinkWhere, hg]
      rw [he]
      exact ⟨hg, fun _ _ _ => rfl, fun _ => rfl, rfl⟩
    | cons a l =>
      obtain ⟨hg, ht⟩ := h
      obtain ⟨hal, hnd'⟩ := List.nodup_cons.mp hnd
      have hfl : l.length < fuel := by simpa using hf
      by_cases hp : p a = true
      · -- the node is dropped: `*pp` now holds its successor
        have he : unlinkWhere p (fuel + 1) pp s =
            ((unlinkWhere p fuel pp (s.set pp (s.next a))).1,
              (unlinkWhere p fuel pp (s.set pp (s.next a))).2 + 1) := by
          simp [unlinkWhere, hg, hp]
        have hget : (s.set pp (s.next a)).get pp = s.next a := by
          cases pp <;> simp [Links.get, Links.set]
        have hnx : ∀ b, pp ≠ some b → (s.set pp (s.next a)).next b = s.next b := by
          intro b hb
          cases pp with
          | none => rfl
          | some c =>
            have hbc : b ≠ c := fun e => hb (by rw [e])
            simp [Links.set, Function.update_of_ne hbc]
        have hchain : Chain (s.set pp (s.next a)).next ((s.set pp (s.next a)).get pp) l := by
          rw [hget]
          refine ht.congr (fun b hb => hnx b ?_)
          intro e
          exact hpp b e (List.mem_cons_of_mem _ hb)
        obtain ⟨i1, i2, i3, i4⟩ := ih hchain hfl hnd'
          (fun b e hb => hpp b e (List.mem_cons_of_mem _ hb))
        rw [he]
        refine ⟨by simpa [hp] using i1, ?_, ?_, ?_⟩
        · intro b hb hbl
          rw [i2 b hb (fun hm => hbl (List.mem_cons_of_mem _ hm)), hnx b hb]
        · intro hne
          rw [i3 hne]
          cases pp with
          | none => exact absurd rfl hne
          | some c => rfl
        · simp [i4, hp]
      · -- the node stays: its own link becomes the current field
        have he : unlinkWhere p (fuel + 1) pp s = unlinkWhere p fuel (some a) s := by
          simp [unlinkWhere, hg, hp]
        obtain ⟨i1, i2, i3, i4⟩ := @ih (some a) s l ht hfl hnd'
          (fun b e hb => hal (by rw [Option.some.inj e]; exact hb))
        rw [he]
        have hgpp : (unlinkWhere p fuel (some a) s).1.get pp = some a := by
          cases pp with
          | none =>
            show (unlinkWhere p fuel (some a) s).1.head = some a
            rw [i3 (by simp)]
            exact hg
          | some c =>
            have hca : c ≠ a := fun e => hpp c rfl (by rw [e]; exact List.mem_cons_self ..)
            have hcl : c ∉ l := fun hc => hpp c rfl (List.mem_cons_of_mem _ hc)
            show (unlinkWhere p fuel (some a) s).1.next c = some a
            rw [i2 c (by simpa using hca.symm) hcl]
            exact hg
        refine ⟨?_, ?_, ?_, ?_⟩
        · have hfa : (a :: l).filter (fun a => !p a) = a :: l.filter (fun a => !p a) := by
            simp [hp]
          rw [hfa, hgpp]
          exact ⟨rfl, i1⟩
        · intro b _ hbl
          have hba : (some a : Option α) ≠ some b := by
            intro e
            exact hbl (by rw [Option.some.inj e]; exact List.mem_cons_self ..)
          exact i2 b hba (fun hm => hbl (List.mem_cons_of_mem _ hm))
        · intro _
          exact i3 (by simp)
        · simp [i4, hp]

end Unlink

/-! ## Doubly linked lists -/

@[simp] theorem dlist_nil {nx pv : α → Option α} {p hd : Option α} :
    DList nx pv p hd [] ↔ hd = none := Iff.rfl

@[simp] theorem dlist_cons {nx pv : α → Option α} {p hd : Option α} {a : α} {l : List α} :
    DList nx pv p hd (a :: l) ↔ hd = some a ∧ pv a = p ∧ DList nx pv (some a) (nx a) l := Iff.rfl

theorem DList.chain {nx pv : α → Option α} {p hd : Option α} {l : List α}
    (h : DList nx pv p hd l) : Chain nx hd l := by
  induction l generalizing p hd with
  | nil => exact h
  | cons a l ih => exact ⟨h.1, ih h.2.2⟩

theorem DList.head_eq {nx pv : α → Option α} {p hd : Option α} {l : List α}
    (h : DList nx pv p hd l) : hd = l.head? := h.chain.head_eq

/-- A doubly linked list only depends on the links of its own nodes. -/
theorem DList.congr {nx pv nx' pv' : α → Option α} {p hd : Option α} {l : List α}
    (h : DList nx pv p hd l) (hn : ∀ a ∈ l, nx' a = nx a) (hp : ∀ a ∈ l, pv' a = pv a) :
    DList nx' pv' p hd l := by
  induction l generalizing p hd with
  | nil => exact h
  | cons a l ih =>
    refine ⟨h.1, by rw [hp a (List.mem_cons_self ..)]; exact h.2.1, ?_⟩
    rw [hn a (List.mem_cons_self ..)]
    exact ih h.2.2 (fun b hb => hn b (List.mem_cons_of_mem _ hb))
      (fun b hb => hp b (List.mem_cons_of_mem _ hb))

/-- Pushing a node at the head: the old head's back link becomes the new node. -/
theorem DList.push [DecidableEq α] {nx pv nx' pv' : α → Option α} {hd : Option α} {l : List α}
    {a : α} (h : DList nx pv none hd l) (hnd : l.Nodup) (ha : nx' a = hd) (hpa : pv' a = none)
    (hn : ∀ b ∈ l, nx' b = nx b)
    (hp : ∀ b ∈ l, pv' b = if hd = some b then some a else pv b) :
    DList nx' pv' none (some a) (a :: l) := by
  refine ⟨rfl, hpa, ?_⟩
  rw [ha]
  cases l with
  | nil => exact h
  | cons b l =>
    obtain ⟨h1, h2, h3⟩ := h
    obtain ⟨hb, -⟩ := List.nodup_cons.mp hnd
    refine ⟨h1, by rw [hp b (List.mem_cons_self ..), if_pos h1], ?_⟩
    rw [hn b (List.mem_cons_self ..)]
    refine h3.congr (fun c hc => hn c (List.mem_cons_of_mem _ hc)) (fun c hc => ?_)
    have hne : hd ≠ some c := by
      rw [h1]
      intro e
      exact hb (by rw [Option.some.inj e]; exact hc)
    rw [hp c (List.mem_cons_of_mem _ hc), if_neg hne]

/-- The back link of a node of the list is `p` exactly at the head. -/
theorem DList.prev_ne {nx pv : α → Option α} {p hd : Option α} {l : List α}
    (h : DList nx pv p hd l) {a : α} (ha : a ∈ l) : pv a = p ∨ ∃ b ∈ l, pv a = some b := by
  induction l generalizing p hd with
  | nil => cases ha
  | cons b l ih =>
    obtain ⟨h1, h2, h3⟩ := h
    rcases List.mem_cons.mp ha with rfl | ha
    · exact Or.inl h2
    · rcases ih h3 ha with e | ⟨c, hc, e⟩
      · exact Or.inr ⟨b, List.mem_cons_self .., e⟩
      · exact Or.inr ⟨c, List.mem_cons_of_mem _ hc, e⟩

/-- The forward link of a node of the list is null or a node of the list. -/
theorem DList.next_mem {nx pv : α → Option α} {p hd : Option α} {l : List α}
    (h : DList nx pv p hd l) {a b : α} (ha : a ∈ l) (hb : nx a = some b) : b ∈ l := by
  induction l generalizing p hd with
  | nil => cases ha
  | cons c l ih =>
    obtain ⟨h1, h2, h3⟩ := h
    rcases List.mem_cons.mp ha with rfl | ha
    · cases l with
      | nil =>
        have hn : nx a = none := h3
        rw [hn] at hb
        cases hb
      | cons d l =>
        have hd' := h3.1
        rw [hb] at hd'
        rw [Option.some.inj hd']
        exact List.mem_cons_of_mem _ (List.mem_cons_self ..)
    · exact List.mem_cons_of_mem _ (ih h3 ha)

/-- Unlinking a node: its predecessor's forward link (or the head) skips it, and so does its
    successor's back link. -/
theorem DList.remove [DecidableEq α] {nx pv nx' pv' : α → Option α} {p hd : Option α}
    {l : List α} {a : α} (h : DList nx pv p hd l) (hnd : l.Nodup) (hpl : ∀ b, p = some b → b ∉ l)
    (ha : a ∈ l)
    (hn : ∀ b ∈ l, b ≠ a → nx' b = if pv a = some b then nx a else nx b)
    (hp : ∀ b ∈ l, b ≠ a → pv' b = if nx a = some b then pv a else pv b) :
    DList nx' pv' p (if pv a = p then nx a else hd) (l.erase a) := by
  induction l generalizing p hd with
  | nil => cases ha
  | cons c l ih =>
    obtain ⟨h1, h2, h3⟩ := h
    obtain ⟨hcl, hnd'⟩ := List.nodup_cons.mp hnd
    by_cases hca : c = a
    · -- the head itself: its successor becomes the head
      subst hca
      rw [if_pos h2, List.erase_cons_head]
      cases l with
      | nil => exact h3
      | cons d l =>
        obtain ⟨g1, g2, g3⟩ := h3
        obtain ⟨hdl, -⟩ := List.nodup_cons.mp hnd'
        have hdc : d ≠ c := fun e => hcl (by rw [← e]; exact List.mem_cons_self ..)
        have hpc : ∀ b ∈ d :: l, pv c ≠ some b := by
          intro b hb e
          rw [h2] at e
          exact hpl b e (List.mem_cons_of_mem _ hb)
        refine ⟨g1, ?_, ?_⟩
        · rw [hp d (by simp) hdc, if_pos g1, h2]
        · rw [hn d (by simp) hdc, if_neg (hpc d (List.mem_cons_self ..))]
          refine g3.congr (fun b hb => ?_) (fun b hb => ?_)
          · have hbc : b ≠ c := fun e => hcl (by rw [← e]; exact List.mem_cons_of_mem _ hb)
            rw [hn b (by simp [hb]) hbc, if_neg (hpc b (List.mem_cons_of_mem _ hb))]
          · have hbc : b ≠ c := fun e => hcl (by rw [← e]; exact List.mem_cons_of_mem _ hb)
            have hne : nx c ≠ some b := by
              rw [g1]
              intro e
              exact hdl (by rw [Option.some.inj e]; exact hb)
            rw [hp b (by simp [hb]) hbc, if_neg hne]
    · have hal : a ∈ l := by
        rcases List.mem_cons.mp ha with e | e
        · exact absurd e.symm hca
        · exact e
      have hpa : pv a ≠ p := by
        intro e
        rcases h3.prev_ne hal with e' | ⟨b, hb, e'⟩
        · rw [e] at e'
          exact hpl c e' (List.mem_cons_self ..)
        · rw [e] at e'
          exact hpl b e' (List.mem_cons_of_mem _ hb)
      rw [if_neg hpa, List.erase_cons_tail (by simpa using hca)]
      have hnxa : nx a ≠ some c := by
        intro e
        exact hcl (h3.next_mem hal e)
      refine ⟨h1, ?_, ?_⟩
      · rw [hp c (List.mem_cons_self ..) hca, if_neg hnxa]
        exact h2
      · have ih' := ih h3 hnd' (fun b e hb => hcl (by rw [Option.some.inj e]; exact hb)) hal
          (fun b hb hne => hn b (List.mem_cons_of_mem _ hb) hne)
          (fun b hb hne => hp b (List.mem_cons_of_mem _ hb) hne)
        have hnc : nx' c = if pv a = some c then nx a else nx c :=
          hn c (List.mem_cons_self ..) hca
        rw [hnc]
        exact ih'

end LinkedList
