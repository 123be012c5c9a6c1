import Mathlib.Data.List.Nodup
import Mathlib.Data.List.Perm.Subperm
import Mathlib.Data.Set.Card

/-!
# Lists that enumerate a predicate

`Listing l P` says that `l` holds every element that satisfies `P`, each once. A system that keeps
its nodes on several lists has one function saying where each node is, and one `Listing` for each
list; moving a node then changes the function at one point and two of the lists.
-/

/-- `l` holds exactly the elements that satisfy `P`, each once. -/
def Listing {α : Type*} (l : List α) (P : α → Prop) : Prop := l.Nodup ∧ ∀ a, a ∈ l ↔ P a

namespace Listing

variable {α : Type*} {l l' : List α} {P Q : α → Prop} {a : α}

theorem nodup (h : Listing l P) : l.Nodup := h.1

theorem mem_iff (h : Listing l P) : a ∈ l ↔ P a := h.2 a

theorem congr (h : Listing l P) (hq : ∀ b, Q b ↔ P b) : Listing l Q :=
  ⟨h.1, fun b => (h.2 b).trans (hq b).symm⟩

theorem nil (h : ∀ b, ¬ P b) : Listing [] P := ⟨List.nodup_nil, fun b => by simp [h b]⟩

theorem eq_nil (h : Listing l P) (hn : ∀ b, ¬ P b) : l = [] := by
  cases l with
  | nil => rfl
  | cons b l => exact absurd (h.mem_iff.mp (List.mem_cons_self ..)) (hn b)

/-- A new element at the front. -/
theorem cons (h : Listing l P) (ha : ¬ P a) (hq : ∀ b, Q b ↔ b = a ∨ P b) :
    Listing (a :: l) Q := by
  refine ⟨List.nodup_cons.mpr ⟨fun hm => ha (h.mem_iff.mp hm), h.nodup⟩, fun b => ?_⟩
  rw [List.mem_cons, h.mem_iff, hq]

/-- Dropping the first element. -/
theorem tail (h : Listing (a :: l) P) (hq : ∀ b, Q b ↔ P b ∧ b ≠ a) : Listing l Q := by
  obtain ⟨hal, hnd⟩ := List.nodup_cons.mp h.nodup
  refine ⟨hnd, fun b => ?_⟩
  rw [hq, ← h.mem_iff, List.mem_cons]
  constructor
  · intro hb
    exact ⟨Or.inr hb, fun e => hal (e ▸ hb)⟩
  · rintro ⟨e | hb, hne⟩
    · exact absurd e hne
    · exact hb

/-- Dropping one element. -/
theorem erase [DecidableEq α] (h : Listing l P) (hq : ∀ b, Q b ↔ P b ∧ b ≠ a) :
    Listing (l.erase a) Q := by
  refine ⟨h.nodup.erase a, fun b => ?_⟩
  rw [h.nodup.mem_erase_iff, h.mem_iff, hq, and_comm]

/-- Keeping the elements that pass a test. -/
theorem filter (h : Listing l P) (p : α → Bool) (hq : ∀ b, Q b ↔ P b ∧ p b = true) :
    Listing (l.filter p) Q := by
  refine ⟨h.nodup.filter p, fun b => ?_⟩
  rw [List.mem_filter, h.mem_iff, hq]

/-- Two lists side by side. -/
theorem append (h : Listing l P) (h' : Listing l' Q) (hd : ∀ b, P b → ¬ Q b) {R : α → Prop}
    (hr : ∀ b, R b ↔ P b ∨ Q b) : Listing (l ++ l') R := by
  refine ⟨List.nodup_append.mpr ⟨h.nodup, h'.nodup, fun b hb c hc e => ?_⟩, fun b => ?_⟩
  · subst e
    exact hd b (h.mem_iff.mp hb) (h'.mem_iff.mp hc)
  · rw [List.mem_append, h.mem_iff, h'.mem_iff, hr]

theorem length_erase [DecidableEq α] (h : Listing l P) (ha : P a) :
    (l.erase a).length + 1 = l.length := by
  have hm := h.mem_iff.mpr ha
  have hpos := List.length_pos_of_mem hm
  rw [List.length_erase_of_mem hm]
  omega

/-- A listing of part of a list of the same length is all of it. -/
theorem forall_of_length_le (h : Listing l P) (hs : ∀ b, P b → b ∈ l')
    (hl : l'.length ≤ l.length) : ∀ b ∈ l', P b := by
  intro b hb
  have hsub : l ⊆ l' := fun c hc => hs c (h.mem_iff.mp hc)
  have hp := (h.nodup.subperm hsub).perm_of_length_le hl
  exact h.mem_iff.mp (hp.mem_iff.mpr hb)

end Listing
