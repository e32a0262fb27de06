import Mathlib.Data.List.TakeWhile
import Mathlib.Tactic.Common

/-!
C strings in a buffer of bytes: a pointer is an offset, and a string ends before the next zero byte.

* `stringAt`, `strchr`: the string at an offset, and the first occurrence of a byte in it;
* `strchr_split`, `strchr_eq_none`: what `strchr` finds, by the parts of the buffer;
* `set_split`: the byte found is overwritten in place, and `stringAt_split` is the string before it.
-/

namespace CString

/-- The string at offset `p`. -/
def stringAt (buf : List UInt8) (p : ℕ) : List UInt8 := (buf.drop p).takeWhile (· ≠ 0)

/-- The first occurrence of `c` before the terminator. -/
def find (c : UInt8) : List UInt8 → Option ℕ
  | [] => none
  | b :: bs => if b = c then some 0 else if b = 0 then none else (find c bs).map (· + 1)

/-- `strchr`, as an offset in the buffer. -/
def strchr (buf : List UInt8) (p : ℕ) (c : UInt8) : Option ℕ :=
  (find c (buf.drop p)).map fun i => p + i

variable {pre k w : List UInt8} {c : UInt8}

lemma forall_ne_of_not_mem (hc : c ∉ k) : ∀ b ∈ k, decide (b ≠ c) = true := by
  intro b hb
  refine decide_eq_true ?_
  rintro rfl
  exact hc hb

/-- What is behind the byte does not matter. -/
lemma takeWhile_ne_append_cons :
    (k ++ c :: w).takeWhile (· ≠ c) = k.takeWhile (· ≠ c) := by
  induction k with
  | nil => simp
  | cons b k ih => simp only [List.cons_append, List.takeWhile_cons, ih]

lemma takeWhile_ne_of_not_mem (hc : c ∉ k) : k.takeWhile (· ≠ c) = k :=
  List.takeWhile_eq_self_iff.mpr (forall_ne_of_not_mem hc)

lemma find_split (hc : c ∉ k) (hk : 0 ∉ k) : find c (k ++ c :: w) = some k.length := by
  induction k with
  | nil => rw [List.nil_append, find, if_pos rfl, List.length_nil]
  | cons b k ih =>
      simp only [List.mem_cons, not_or] at hc hk
      rw [List.cons_append, find, if_neg (Ne.symm hc.1), if_neg (Ne.symm hk.1), ih hc.2 hk.2]
      rfl

lemma find_eq_none (hc : c ∉ k) (hk : 0 ∉ k) (hne : c ≠ 0) : find c (k ++ 0 :: w) = none := by
  induction k with
  | nil => rw [List.nil_append, find, if_neg hne.symm, if_pos rfl]
  | cons b k ih =>
      simp only [List.mem_cons, not_or] at hc hk
      rw [List.cons_append, find, if_neg (Ne.symm hc.1), if_neg (Ne.symm hk.1), ih hc.2 hk.2]
      rfl

/-- `strchr` finds the first occurrence. -/
lemma strchr_split (hc : c ∉ k) (hk : 0 ∉ k) :
    strchr (pre ++ (k ++ c :: w)) pre.length c = some (pre.length + k.length) := by
  rw [strchr, List.drop_left, find_split hc hk]
  rfl

/-- `strchr` finds nothing behind the terminator. -/
lemma strchr_eq_none (hc : c ∉ k) (hk : 0 ∉ k) (hne : c ≠ 0) :
    strchr (pre ++ (k ++ 0 :: w)) pre.length c = none := by
  rw [strchr, List.drop_left, find_eq_none hc hk hne]
  rfl

/-- The byte at a split, overwritten. -/
lemma set_split {b : UInt8} :
    (pre ++ (k ++ c :: w)).set (pre.length + k.length) b = pre ++ (k ++ b :: w) := by
  rw [List.set_append_right _ _ (by omega), Nat.add_sub_cancel_left,
    List.set_append_right _ _ (Nat.le_refl _), Nat.sub_self, List.set_cons_zero]

/-- The string before a zero byte. -/
lemma stringAt_split (hk : 0 ∉ k) : stringAt (pre ++ (k ++ 0 :: w)) pre.length = k := by
  rw [stringAt, List.drop_left, takeWhile_ne_append_cons, takeWhile_ne_of_not_mem hk]

end CString
