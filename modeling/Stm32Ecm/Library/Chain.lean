import Mathlib.Tactic.Common
import Mathlib.Algebra.Order.Group.Nat

/-!
The positions a reader passes through when it starts at `0` and each position determines the next
one, further on, or none: `next : ℕ → Option ℕ`.

* `Reach`: the positions passed through;
* `Reach.next_le`: they are passed through in order, so that nothing lies between a position and
  its successor;
* `Reach.of_agree`: two readers that agree at the positions both pass through pass through the
  same positions.
-/

namespace Chain

/-- The reader passes through the position. -/
inductive Reach (next : ℕ → Option ℕ) : ℕ → Prop where
  | zero : Reach next 0
  | step {i k : ℕ} (hi : Reach next i) (hk : next i = some k) : Reach next k

/-- The reader moves forward. -/
def Forward (next : ℕ → Option ℕ) : Prop := ∀ i k, next i = some k → i < k

variable {next next' : ℕ → Option ℕ} {i j : ℕ}

/-- **Positions in order.**  If the reader gets past a position, its successor is not further
than where the reader gets. -/
theorem Reach.next_le (hf : Forward next) (hi : Reach next i) (hj : Reach next j) (hlt : i < j) :
    ∃ k, next i = some k ∧ k ≤ j := by
  induction hn : i + j using Nat.strong_induction_on generalizing i j with
  | _ n ih =>
    cases hj with
    | zero => omega
    | @step l _ hl hlj =>
        have hlj' : l < j := hf l j hlj
        rcases Nat.lt_trichotomy i l with h | h | h
        · obtain ⟨k, hk, hkl⟩ := ih (i + l) (by omega) hi hl h rfl
          exact ⟨k, hk, by omega⟩
        · exact ⟨j, h ▸ hlj, Nat.le_refl j⟩
        · -- the successor `j` of `l` cannot lie behind `i`
          obtain ⟨k, hk, hki⟩ := ih (l + i) (by omega) hl hi h rfl
          rw [hlj, Option.some.injEq] at hk
          omega

/-- **Agreement.**  Two readers that agree at every position before `i` both pass through. -/
theorem Reach.of_agree (hf : Forward next) (hi : Reach next i)
    (h : ∀ l < i, Reach next l → Reach next' l → next l = next' l) : Reach next' i := by
  induction hi with
  | zero => exact .zero
  | @step l k hl hlk ih =>
      have hlt : l < k := hf l k hlk
      have hl' : Reach next' l := ih fun x hx => h x (by omega)
      exact .step hl' ((h l hlt hl hl').symm.trans hlk)

end Chain
