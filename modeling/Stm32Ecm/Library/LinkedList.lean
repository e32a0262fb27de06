import Mathlib.Data.List.Nodup
import Mathlib.Logic.Function.Basic

/-!
Singly linked lists in a heap: `next` gives the successor of each node, `none` is the null pointer.

* `Links next p l`: following `next` from `p` visits the nodes of `l` in order and ends;
* `Links.unique`, `Links.nodup`: the nodes are determined by the pointer, and none occurs twice;
* `Links.head?`, `Links.of_append`: a pointer into the list is the first node behind it;
* `Links.congr`: only the successors of the nodes matter; `Links.push` and `Links.unlink` are the
  two changes of a list, at its front and behind a node.
-/

namespace LinkedList

variable {α : Type*}

/-- Following `next` from `p` visits the nodes of `l` and ends. -/
def Links (next : α → Option α) : Option α → List α → Prop
  | p, [] => p = none
  | p, x :: l => p = some x ∧ Links next (next x) l

variable {next next' : α → Option α} {p : Option α} {x y : α} {l l' l₁ l₂ : List α}

lemma Links.head? (h : Links next p l) : p = l.head? := by
  cases l with
  | nil => exact h
  | cons x l => exact h.1

/-- The nodes are determined by the pointer. -/
lemma Links.unique (h : Links next p l) (h' : Links next p l') : l = l' := by
  induction l generalizing p l' with
  | nil =>
      cases l' with
      | nil => rfl
      | cons y l' => exact absurd (h.symm.trans h'.1) (by simp)
  | cons x l ih =>
      cases l' with
      | nil => exact absurd (h'.symm.trans h.1) (by simp)
      | cons y l' =>
          obtain rfl : x = y := Option.some.inj (h.1.symm.trans h'.1)
          rw [ih h.2 h'.2]

/-- A pointer to a node of the list: the rest of the list behind it. -/
lemma Links.of_append (h : Links next p (l₁ ++ l₂)) : Links next l₂.head? l₂ := by
  induction l₁ generalizing p with
  | nil =>
      rw [List.nil_append] at h
      exact h.head? ▸ h
  | cons x l₁ ih => exact ih h.2

/-- **No node occurs twice**: from the second occurrence on the list would be shorter than from the
first. -/
lemma Links.nodup (h : Links next p l) : l.Nodup := by
  induction l generalizing p with
  | nil => exact List.nodup_nil
  | cons x l ih =>
      refine List.nodup_cons.mpr ⟨fun hx => ?_, ih h.2⟩
      obtain ⟨l₁, l₂, rfl⟩ := List.append_of_mem hx
      have hagain : Links next (some x) (x :: l₂) := h.2.of_append
      have hlen := congrArg List.length (hagain.2.unique h.2)
      rw [List.length_append, List.length_cons] at hlen
      omega

/-- Only the successors of the nodes matter. -/
lemma Links.congr (h : Links next p l) (heq : ∀ x ∈ l, next' x = next x) : Links next' p l := by
  induction l generalizing p with
  | nil => exact h
  | cons x l ih =>
      refine ⟨h.1, ?_⟩
      rw [heq x (by simp)]
      exact ih h.2 fun y hy => heq y (by simp [hy])

section Changes

variable [DecidableEq α]

/-- A node put in front. -/
lemma Links.push (h : Links next p l) (hx : x ∉ l) :
    Links (Function.update next x p) (some x) (x :: l) := by
  refine ⟨rfl, ?_⟩
  rw [Function.update_self]
  refine h.congr fun y hy => Function.update_of_ne ?_ _ _
  rintro rfl
  exact hx hy

/-- The node `y` behind `x` taken out. -/
lemma Links.unlink (h : Links next (some x) (x :: y :: l)) :
    Links (Function.update (Function.update next x (next y)) y none) (some x) (x :: l) := by
  have hnodup := h.nodup
  simp only [List.nodup_cons, List.mem_cons, not_or] at hnodup
  obtain ⟨⟨hxy, hx⟩, hy, -⟩ := hnodup
  refine ⟨rfl, ?_⟩
  rw [Function.update_of_ne hxy, Function.update_self]
  refine h.2.2.congr fun z hz => ?_
  rw [Function.update_of_ne, Function.update_of_ne]
  · rintro rfl
    exact hx hz
  · rintro rfl
    exact hy hz

/-- The first node taken out. -/
lemma Links.pop (h : Links next p (x :: l)) : Links (Function.update next x none) (next x) l := by
  have hx : x ∉ l := (List.nodup_cons.mp h.nodup).1
  refine h.2.congr fun y hy => Function.update_of_ne ?_ _ _
  rintro rfl
  exact hx hy

end Changes

end LinkedList
