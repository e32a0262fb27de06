import Mathlib.Data.List.Nodup
import Mathlib.Data.List.Perm.Basic
import Mathlib.Logic.Function.Basic
import Mathlib.Tactic.Common

/-!
Reference counting over a pool of objects, as a conservation law.

`all` lists the objects of the pool, `free` those that can be handed out and `refs` the
references that somebody holds, one entry for each.

* `Accounts`: every object is free or referenced, once, and the counter of a referenced object
  is the number of references to it;
* `Accounts.acquire` and `Accounts.release`: handing out an object and giving back the last
  reference to it keep the account;
* `Idle`: the counters of the free objects are `0`; `counts_iff` says that then, and only then,
  every counter is the number of references.
-/

namespace RefCount

variable {α : Type*} {all free refs refs' : List α} {ref : α → ℕ} {b : α}

/-- The counters `ref` and the list `free` account for the references `refs`. -/
structure Accounts (all : List α) (ref : α → ℕ) (free refs : List α) : Prop where
  count : ∀ b ∈ refs, ref b = 1
  perm : (free ++ refs).Perm all

/-- The free objects have the counter `0`. -/
def Idle (ref : α → ℕ) (free : List α) : Prop := ∀ b ∈ free, ref b = 0

namespace Accounts

/-- The holders of the references do not matter. -/
lemma of_perm (h : Accounts all ref free refs) (hp : refs.Perm refs') :
    Accounts all ref free refs' :=
  ⟨fun b hb => h.count b (hp.mem_iff.mpr hb), (hp.symm.append_left free).trans h.perm⟩

section Nodup

variable (hall : all.Nodup)
include hall

lemma not_mem_refs (h : Accounts all ref free refs) (hb : b ∈ free) : b ∉ refs :=
  fun hmem => (List.nodup_append.mp (h.perm.nodup_iff.mpr hall)).2.2 b hb b hmem rfl

lemma nodup_refs (h : Accounts all ref free refs) : refs.Nodup :=
  (List.nodup_append.mp (h.perm.nodup_iff.mpr hall)).2.1

variable [DecidableEq α]

/-- A free object is handed out with one reference. -/
lemma acquire (h : Accounts all ref (b :: free) refs) :
    Accounts all (Function.update ref b 1) free (b :: refs) := by
  refine ⟨fun x hx => ?_, List.perm_middle.trans h.perm⟩
  rcases List.mem_cons.mp hx with rfl | hx
  · exact Function.update_self ..
  · have hne : x ≠ b := fun heq => h.not_mem_refs hall (by simp) (heq ▸ hx)
    rw [Function.update_of_ne hne]
    exact h.count x hx

/-- The last reference to an object is given back. -/
lemma release (h : Accounts all ref free (b :: refs)) :
    Accounts all (Function.update ref b 0) (b :: free) refs := by
  refine ⟨fun x hx => ?_, List.perm_middle.symm.trans h.perm⟩
  have hne : x ≠ b := fun heq => (List.nodup_cons.mp (h.nodup_refs hall)).1 (heq ▸ hx)
  rw [Function.update_of_ne hne]
  exact h.count x (by simp [hx])

/-- Every counter is the number of references exactly when the free objects have none. -/
lemma counts_iff (h : Accounts all ref free refs) (htotal : ∀ b, b ∈ all) :
    (∀ b, ref b = refs.count b) ↔ Idle ref free := by
  constructor
  · intro hcount b hb
    rw [hcount, List.count_eq_zero]
    exact h.not_mem_refs hall hb
  · intro hidle b
    rcases List.mem_append.mp (h.perm.mem_iff.mpr (htotal b)) with hb | hb
    · rw [hidle b hb, List.count_eq_zero.mpr (h.not_mem_refs hall hb)]
    · rw [h.count b hb, List.count_eq_one_of_mem (h.nodup_refs hall) hb]

end Nodup

end Accounts

namespace Idle

variable [DecidableEq α]

lemma acquire (h : Idle ref (b :: free)) (hb : b ∉ free) :
    Idle (Function.update ref b 1) free := by
  intro x hx
  have hne : x ≠ b := fun heq => hb (heq ▸ hx)
  rw [Function.update_of_ne hne]
  exact h x (by simp [hx])

lemma release (h : Idle ref free) : Idle (Function.update ref b 0) (b :: free) := by
  intro x hx
  by_cases heq : x = b
  · subst heq
    exact Function.update_self ..
  · rw [Function.update_of_ne heq]
    exact h x ((List.mem_cons.mp hx).resolve_left heq)

end Idle

end RefCount
