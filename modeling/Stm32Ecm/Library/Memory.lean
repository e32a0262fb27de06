import Mathlib.Data.List.Basic
import Mathlib.Tactic.Common

/-!
A memory as a function from addresses to cells, with block reads and block writes.

* `read_write_self`: a block just written reads back;
* `read_write_of_disjoint`: a write leaves every block it does not meet as it was;
* `read_add`: a block splits into adjacent blocks, so that consecutive writes read back as
  the concatenation (`read_write_append`).
-/

namespace Memory

variable {α : Type*}

/-- The memory `m` with the cells `bs` stored at `a`, `a + 1`, …. -/
def write (m : ℕ → α) (a : ℕ) (bs : List α) : ℕ → α := fun i =>
  if a ≤ i then (bs[i - a]?).getD (m i) else m i

/-- The `n` cells from `a` on. -/
def read (m : ℕ → α) (a n : ℕ) : List α := (List.range n).map fun i => m (a + i)

variable {m : ℕ → α} {a b n k : ℕ} {bs : List α}

@[simp] lemma length_read : (read m a n).length = n := by simp [read]

@[simp] lemma read_zero : read m a 0 = [] := rfl

lemma getElem?_read {i : ℕ} (h : i < n) : (read m a n)[i]? = some (m (a + i)) := by
  simp [read, h]

lemma read_congr {m' : ℕ → α} (h : ∀ i < n, m (a + i) = m' (a + i)) :
    read m a n = read m' a n := by
  rw [read, read, List.map_inj_left]
  exact fun i hi => h i (List.mem_range.mp hi)

/-- A block splits into adjacent blocks. -/
lemma read_add : read m a (n + k) = read m a n ++ read m (a + n) k := by
  simp only [read, List.range_add, List.map_append, List.map_map, Nat.add_assoc]
  rfl

lemma read_succ : read m a (n + 1) = m a :: read m (a + 1) n := by
  rw [Nat.add_comm n 1, read_add]
  rfl

/-- A block of an array that is given as a list. -/
lemma read_getD {l : List α} {d : α} (h : k + n ≤ l.length) :
    read (fun i => l.getD (k + i) d) 0 n = (l.drop k).take n := by
  refine List.ext_getElem? fun i => ?_
  by_cases hi : i < n
  · rw [getElem?_read hi, List.getElem?_take_of_lt hi, List.getElem?_drop, Nat.zero_add,
      List.getD_eq_getElem?_getD, List.getElem?_eq_getElem (by omega), Option.getD_some]
  · rw [List.getElem?_eq_none (by simpa using hi), List.getElem?_eq_none (by simp; omega)]

lemma take_read (h : k ≤ n) : (read m a n).take k = read m a k := by
  obtain ⟨j, rfl⟩ := Nat.exists_eq_add_of_le h
  rw [read_add, List.take_left' length_read]

lemma drop_read (h : k ≤ n) : (read m a n).drop k = read m (a + k) (n - k) := by
  obtain ⟨j, rfl⟩ := Nat.exists_eq_add_of_le h
  rw [read_add, List.drop_left' length_read, Nat.add_sub_cancel_left]

lemma write_apply_of_lt {i : ℕ} (h : i < a) : write m a bs i = m i := by
  rw [write, if_neg (by omega)]

lemma write_apply_of_le {i : ℕ} (h : a + bs.length ≤ i) : write m a bs i = m i := by
  rw [write, if_pos (by omega), List.getElem?_eq_none (by omega), Option.getD_none]

/-- A write at a cell depends on the memory at that cell only. -/
lemma write_congr {m' : ℕ → α} {i : ℕ} (h : m i = m' i) : write m a bs i = write m' a bs i := by
  rw [write, write, h]

/-- The first cells of `f`, copied to the start of `m`. -/
lemma write_read_apply {f : ℕ → α} {i : ℕ} :
    write m 0 (read f 0 n) i = if i < n then f i else m i := by
  rw [write, if_pos (Nat.zero_le i), Nat.sub_zero]
  split_ifs with h
  · rw [getElem?_read h, Option.getD_some, Nat.zero_add]
  · rw [List.getElem?_eq_none (by simpa using h), Option.getD_none]

@[simp] lemma write_nil : write m a [] = m := by
  funext i
  rw [write]
  split_ifs <;> simp

/-- A block just written reads back. -/
lemma read_write_self : read (write m a bs) a bs.length = bs := by
  refine List.ext_getElem? fun i => ?_
  by_cases h : i < bs.length
  · rw [getElem?_read h, write, if_pos (by omega), Nat.add_sub_cancel_left]
    simp [h]
  · rw [List.getElem?_eq_none (by simpa using h), List.getElem?_eq_none (by omega)]

/-- Two writes side by side are one. -/
lemma write_append {cs : List α} :
    write (write m a bs) (a + bs.length) cs = write m a (bs ++ cs) := by
  funext i
  by_cases hbefore : i < a + bs.length
  · rw [write_apply_of_lt hbefore, write, write]
    split_ifs with ha
    · rw [List.getElem?_append_left (by omega)]
    · rfl
  · rw [write, if_pos (by omega), write_apply_of_le (by omega), write, if_pos (by omega),
      List.getElem?_append_right (by omega), Nat.sub_sub]

/-- A write does not change a block it does not meet. -/
lemma read_write_of_disjoint (h : a + n ≤ b ∨ b + bs.length ≤ a) :
    read (write m b bs) a n = read m a n := by
  refine read_congr fun i hi => ?_
  rcases h with h | h
  · exact write_apply_of_lt (by omega)
  · exact write_apply_of_le (by omega)

/-- Writing `bs` behind a block extends it: the block and `bs` read back as one. -/
lemma read_write_append :
    read (write m (a + n) bs) a (n + bs.length) = read m a n ++ bs := by
  rw [read_add, read_write_of_disjoint (Or.inl (Nat.le_refl _)), read_write_self]

/-- Appending to what stands at the start of the memory. -/
lemma read_write_append_zero : read (write m n bs) 0 (n + bs.length) = read m 0 n ++ bs := by
  have happ : read (write m (0 + n) bs) 0 (n + bs.length) = read m 0 n ++ bs :=
    read_write_append
  rw [Nat.zero_add] at happ
  exact happ

end Memory
