import Mathlib.Data.Nat.Find
import Mathlib.Order.Monotone.Basic
import Stm32Ecm.Time.Pass

/-!
`msleep` (`time.c`): polling the millisecond counter.

* `msleepDone`, `msleepLoop`, `msleep`: the loop, over the real times `r` at which `mtime` is read,
  with the number of the reading at which it returns;
* `SleepsExactly`: it returns at the first reading for which `ms` milliseconds have passed, and at
  no other;
* `msleepDone_iff`: the test `t1 < t` ends the loop when the counter has wrapped, whether the time
  has passed or not; `msleep_exact_iff`: so `msleep` is exact unless the counter wraps before.
-/

namespace Stm32Ecm.Time

/-- The two tests of `msleep`. -/
def msleepDone (ms t t1 : UInt32) : Bool := ms ≤ t1 - t ∨ t1 < t

/-- The loop of `msleep`, from the `i`-th reading on: the reading at which it returns, `none` if the
rounds ran out. -/
def msleepLoop (r : ℕ → ℕ) (ms t : UInt32) : ℕ → ℕ → Option ℕ
  | 0, _ => none
  | fuel + 1, i =>
      if msleepDone ms t (mtime (r i)) then some i else msleepLoop r ms t fuel (i + 1)

/-- `msleep`, with at most `fuel` rounds.  `t` is the reading number 0. -/
def msleep (r : ℕ → ℕ) (ms fuel : ℕ) : Option ℕ :=
  msleepLoop r (UInt32.ofNat ms) (mtime (r 0)) fuel 1

/-- **Exact sleep**: `msleep` returns at the `i`-th reading if and only if it is the first one for
which `ms` milliseconds have passed. -/
def SleepsExactly (r : ℕ → ℕ) (ms : ℕ) : Prop :=
  ∀ i, (∃ fuel, msleep r ms fuel = some i) ↔
    1 ≤ i ∧ ms ≤ r i - r 0 ∧ ∀ j, 1 ≤ j → j < i → r j - r 0 < ms

section Loop

variable {r : ℕ → ℕ} {ms t : UInt32} {fuel i k : ℕ}

/-- The loop returns at the first reading that passes one of its tests. -/
lemma msleepLoop_eq_some : msleepLoop r ms t fuel i = some k ↔
    i ≤ k ∧ k < i + fuel ∧ msleepDone ms t (mtime (r k)) = true ∧
      ∀ j, i ≤ j → j < k → msleepDone ms t (mtime (r j)) = false := by
  induction fuel generalizing i with
  | zero =>
      simp only [msleepLoop, reduceCtorEq, false_iff]
      omega
  | succ fuel ih =>
      rw [msleepLoop]
      split_ifs with hdone
      · constructor
        · intro heq
          obtain rfl := Option.some.inj heq
          exact ⟨Nat.le_refl _, by omega, hdone, fun j hj hlt => by omega⟩
        · rintro ⟨hle, -, -, hfirst⟩
          by_contra hne
          have hlt : i < k := by
            rcases Nat.lt_or_eq_of_le hle with hlt | rfl
            · exact hlt
            · exact absurd rfl hne
          rw [hfirst i (Nat.le_refl _) hlt] at hdone
          cases hdone
      · rw [ih]
        constructor
        · rintro ⟨hle, hlt, hk, hfirst⟩
          refine ⟨by omega, by omega, hk, fun j hj hjk => ?_⟩
          rcases Nat.lt_or_eq_of_le hj with hj | rfl
          · exact hfirst j hj hjk
          · exact eq_false_of_ne_true hdone
        · rintro ⟨hle, hlt, hk, hfirst⟩
          have hne : k ≠ i := by
            rintro rfl
            exact hdone hk
          exact ⟨by omega, by omega, hk, fun j hj hjk => hfirst j (by omega) hjk⟩

/-- `msleep` returns at the first reading that passes one of its tests. -/
lemma msleep_eq_some_iff {ms : ℕ} : (∃ fuel, msleep r ms fuel = some k) ↔
    1 ≤ k ∧ msleepDone (UInt32.ofNat ms) (mtime (r 0)) (mtime (r k)) = true ∧
      ∀ j, 1 ≤ j → j < k → msleepDone (UInt32.ofNat ms) (mtime (r 0)) (mtime (r j)) = false := by
  simp only [msleep, msleepLoop_eq_some]
  constructor
  · rintro ⟨fuel, hle, -, hrest⟩
    exact ⟨hle, hrest⟩
  · rintro ⟨hle, hrest⟩
    exact ⟨k, hle, by omega, hrest⟩

/-- **The tests**, for real times less than 2^32 ms apart: the time has passed, or the counter has
wrapped. -/
lemma msleepDone_iff {ms a b : ℕ} (hms : ms < 2 ^ 31) (hle : a ≤ b) (hlt : b - a < 2 ^ 32) :
    msleepDone (UInt32.ofNat ms) (mtime a) (mtime b) = true ↔
      ms ≤ b - a ∨ 2 ^ 32 ≤ a % 2 ^ 32 + (b - a) := by
  have hms' : (UInt32.ofNat ms).toNat = ms := by
    rw [UInt32.toNat_ofNat']
    omega
  have hwrap : mtime b < mtime a ↔ 2 ^ 32 ≤ a % 2 ^ 32 + (b - a) := by
    rw [UInt32.lt_iff_toNat_lt, mtime, mtime, UInt32.toNat_ofNat', UInt32.toNat_ofNat']
    omega
  rw [msleepDone, decide_eq_true_eq, hwrap, UInt32.le_iff_toNat_le, toNat_mtime_sub hle hlt, hms']

end Loop

section Readings

variable {r : ℕ → ℕ} {ms i : ℕ}

/-- The first reading for which the time may have passed is less than 2^32 ms away. -/
lemma elapsed_lt (hmono : Monotone r) (hgap : ∀ i, r (i + 1) - r i < 2 ^ 31) (hms : ms < 2 ^ 31)
    (hi : 1 ≤ i) (hbefore : ∀ j, 1 ≤ j → j < i → r j - r 0 < ms) : r i - r 0 < 2 ^ 32 := by
  obtain ⟨k, rfl⟩ : ∃ k, i = k + 1 := ⟨i - 1, by omega⟩
  have hstep := hgap k
  have hle : r k ≤ r (k + 1) := hmono (Nat.le_succ k)
  rcases Nat.eq_zero_or_pos k with rfl | hk
  · omega
  · have hprev := hbefore k hk (Nat.lt_succ_self k)
    omega

/-- As long as no test was passed, the time has not passed. -/
lemma elapsed_lt_of_not_done (hmono : Monotone r) (hgap : ∀ i, r (i + 1) - r i < 2 ^ 31)
    (hms : ms < 2 ^ 31)
    (hdone : ∀ j, 1 ≤ j → j < i →
      msleepDone (UInt32.ofNat ms) (mtime (r 0)) (mtime (r j)) = false) :
    ∀ j, 1 ≤ j → j < i → r j - r 0 < ms := by
  intro j
  induction j using Nat.strong_induction_on with
  | _ j ih =>
      intro hj hji
      have hlt := elapsed_lt hmono hgap hms hj fun k hk hkj => ih k hkj hk (by omega)
      by_contra hpassed
      have hyes := (msleepDone_iff hms (hmono (Nat.zero_le j)) hlt).mpr (Or.inl (by omega))
      rw [hdone j hj hji] at hyes
      cases hyes

end Readings

/-- **Sleeping.**  For every `ms` below 2^31 and every sequence of readings that does not decrease,
successive ones less than 2^31 ms apart: `msleep` returns at the first reading for which `ms`
milliseconds have passed, and at no other, if and only if the counter does not wrap between the
start and a reading for which they have not passed. -/
theorem msleep_exact_iff (r : ℕ → ℕ) (ms : ℕ) (hmono : Monotone r)
    (hgap : ∀ i, r (i + 1) - r i < 2 ^ 31) (hms : ms < 2 ^ 31) :
    SleepsExactly r ms ↔
      ∀ i, 1 ≤ i → r i - r 0 < ms → r 0 % 2 ^ 32 + (r i - r 0) < 2 ^ 32 := by
  have htests : ∀ i, 1 ≤ i → r i - r 0 < 2 ^ 32 →
      (msleepDone (UInt32.ofNat ms) (mtime (r 0)) (mtime (r i)) = true ↔
        ms ≤ r i - r 0 ∨ 2 ^ 32 ≤ r 0 % 2 ^ 32 + (r i - r 0)) := fun i _ hlt =>
    msleepDone_iff hms (hmono (Nat.zero_le i)) hlt
  constructor
  · intro hexact i hi hlt
    by_contra hwrap
    have hdone : ∃ k, 1 ≤ k ∧ msleepDone (UInt32.ofNat ms) (mtime (r 0)) (mtime (r k)) = true :=
      ⟨i, hi, (htests i hi (by omega)).mpr (Or.inr (by omega))⟩
    -- the loop returns at the first reading behind the wrap, or before
    obtain ⟨hk, hkdone⟩ := Nat.find_spec hdone
    have hki : Nat.find hdone ≤ i := Nat.find_min' hdone
      ⟨hi, (htests i hi (by omega)).mpr (Or.inr (by omega))⟩
    have hreturn := msleep_eq_some_iff.mpr ⟨hk, hkdone, fun j hj hjk =>
      eq_false_of_ne_true fun hjdone => Nat.find_min hdone hjk ⟨hj, hjdone⟩⟩
    have hpassed := ((hexact _).mp hreturn).2.1
    have hle := hmono hki
    omega
  · intro hnowrap i
    rw [msleep_eq_some_iff]
    constructor
    · rintro ⟨hi, hdone, hbefore⟩
      have hlt := elapsed_lt_of_not_done hmono hgap hms hbefore
      refine ⟨hi, ?_, hlt⟩
      by_contra hearly
      have hno := hnowrap i hi (by omega)
      have helapsed := elapsed_lt hmono hgap hms hi hlt
      rcases (htests i hi helapsed).mp hdone with hpassed | hwrap <;> omega
    · rintro ⟨hi, hpassed, hbefore⟩
      refine ⟨hi, (htests i hi (elapsed_lt hmono hgap hms hi hbefore)).mpr (Or.inl hpassed), ?_⟩
      intro j hj hji
      have hlt := hbefore j hj hji
      have hno := hnowrap j hj hlt
      refine eq_false_of_ne_true fun hdone => ?_
      rcases (htests j hj (by omega)).mp hdone with hp | hw <;> omega

/-- From reset, with a reading every millisecond, `msleep` of 5 ms returns at the fifth reading. -/
theorem msleep_exact_iff_from_reset : ∃ fuel, msleep (fun i => i) 5 fuel = some 5 := by
  have hexact : SleepsExactly (fun i => i) 5 :=
    (msleep_exact_iff (fun i => i) 5 monotone_id (fun i => by omega) (by decide)).mpr
      fun i _ hlt => by omega
  exact (hexact 5).mpr ⟨by decide, by decide, fun j _ hj => by omega⟩

/-- One millisecond before the counter wraps, `msleep` of 10 ms returns after one. -/
theorem msleep_returns_at_wrap :
    (∃ fuel, msleep (fun i => 2 ^ 32 - 1 + i) 10 fuel = some 1) ∧
      ¬ SleepsExactly (fun i => 2 ^ 32 - 1 + i) 10 := by
  have hreturn : ∃ fuel, msleep (fun i => 2 ^ 32 - 1 + i) 10 fuel = some 1 := ⟨1, by decide⟩
  refine ⟨hreturn, fun hexact => ?_⟩
  exact absurd ((hexact 1).mp hreturn).2.1 (by decide)

end Stm32Ecm.Time
