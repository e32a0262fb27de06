import Mathlib.Algebra.Order.BigOperators.Group.List
import Mathlib.Algebra.Order.Ring.Nat
import Mathlib.Data.List.Chain
import Mathlib.Data.List.Nodup
import Mathlib.Data.List.Perm.Basic
import Mathlib.Tactic.Common

/-!
First-fit allocation in an interval, as a list of blocks.

* `Tiles a c l`: the blocks of `l` lie side by side from `a` to `c`, none of them empty;
  `Tiles.disjoint`: hence no two of them meet;
* `Separated`: no two free blocks side by side; `coalesce` makes a list so, and leaves the blocks
  in use as they are (`coalesce_used_iff`);
* `alloc`, `release`, `shrink`: the lowest free block that is large enough is taken, and split if
  enough is left over; a block is freed; a block in use gives back its end.  Blocks begin with a
  header of `hdr` bytes, and at least `least` bytes follow it;
* `alloc_eq_none_iff`, `alloc_eq_some`: when a block is found, and which one.
-/

namespace FirstFit

/-- A block of an interval: its header and what follows it. -/
structure Block where
  start : ℕ
  stop : ℕ
  used : Bool
  deriving DecidableEq, Repr

/-! ### Tilings -/

/-- The blocks lie side by side from `a` to `c`. -/
def Tiles : ℕ → ℕ → List Block → Prop
  | a, c, [] => a = c
  | a, c, b :: l => b.start = a ∧ a < b.stop ∧ Tiles b.stop c l

section Tilings

variable {a c : ℕ} {b x y : Block} {l l₁ l₂ : List Block}

lemma tiles_append :
    Tiles a c (l₁ ++ l₂) ↔ ∃ m, Tiles a m l₁ ∧ Tiles m c l₂ := by
  induction l₁ generalizing a with
  | nil => simp [Tiles]
  | cons b l₁ ih =>
      simp only [List.cons_append, Tiles, ih]
      constructor
      · rintro ⟨hs, hlt, m, h₁, h₂⟩
        exact ⟨m, ⟨hs, hlt, h₁⟩, h₂⟩
      · rintro ⟨m, ⟨hs, hlt, h₁⟩, h₂⟩
        exact ⟨hs, hlt, m, h₁, h₂⟩

lemma Tiles.le (h : Tiles a c l) : a ≤ c := by
  induction l generalizing a with
  | nil => exact Nat.le_of_eq h
  | cons b l ih => exact Nat.le_trans (Nat.le_of_lt h.2.1) (ih h.2.2)

lemma Tiles.mem_bounds (h : Tiles a c l) (hb : b ∈ l) :
    a ≤ b.start ∧ b.start < b.stop ∧ b.stop ≤ c := by
  induction l generalizing a with
  | nil => cases hb
  | cons x l ih =>
      rcases List.mem_cons.mp hb with rfl | hb
      · exact ⟨Nat.le_of_eq h.1.symm, h.1 ▸ h.2.1, h.2.2.le⟩
      · obtain ⟨hs, hlt, hc⟩ := ih h.2.2 hb
        exact ⟨Nat.le_trans (Nat.le_of_lt h.2.1) hs, hlt, hc⟩

lemma Tiles.end_unique {c' : ℕ} (h : Tiles a c l) (h' : Tiles a c' l) : c = c' := by
  induction l generalizing a with
  | nil => exact h.symm.trans h'
  | cons b l ih => exact ih h.2.2 h'.2.2

/-- Two blocks are one, or one ends before the other starts. -/
lemma Tiles.disjoint (h : Tiles a c l) (hx : x ∈ l) (hy : y ∈ l) :
    x = y ∨ x.stop ≤ y.start ∨ y.stop ≤ x.start := by
  induction l generalizing a with
  | nil => cases hx
  | cons b l ih =>
      rcases List.mem_cons.mp hx with hxb | hx <;> rcases List.mem_cons.mp hy with hyb | hy
      · exact Or.inl (hxb.trans hyb.symm)
      · exact Or.inr (Or.inl (hxb ▸ (h.2.2.mem_bounds hy).1))
      · exact Or.inr (Or.inr (hyb ▸ (h.2.2.mem_bounds hx).1))
      · exact ih h.2.2 hx hy

/-- Blocks are known by their start. -/
lemma Tiles.eq_of_start (h : Tiles a c l) (hx : x ∈ l) (hy : y ∈ l) (heq : x.start = y.start) :
    x = y := by
  have hx' := h.mem_bounds hx
  have hy' := h.mem_bounds hy
  rcases h.disjoint hx hy with hxy | hxy | hxy
  · exact hxy
  · omega
  · omega

end Tilings

/-! ### Free blocks side by side -/

/-- No two free blocks side by side. -/
def Separated (l : List Block) : Prop := l.IsChain fun x y => x.used = true ∨ y.used = true

/-- A block put in front, as one with the first block if both are free. -/
def glue (b : Block) : List Block → List Block
  | [] => [b]
  | c :: l =>
      if b.used = false ∧ c.used = false then { b with stop := c.stop } :: l else b :: c :: l

/-- Free blocks side by side made one. -/
def coalesce : List Block → List Block
  | [] => []
  | b :: l => glue b (coalesce l)

section Coalescing

variable {a c : ℕ} {b x : Block} {l l₁ l₂ : List Block}

lemma glue_of_used (hb : b.used = true) : glue b l = b :: l := by
  cases l with
  | nil => rfl
  | cons c l => rw [glue, if_neg (by simp [hb])]

lemma glue_of_head_used (hx : x.used = true) : glue b (x :: l) = b :: x :: l := by
  rw [glue, if_neg (by simp [hx])]

lemma glue_of_free (hb : b.used = false) (hx : x.used = false) :
    glue b (x :: l) = { b with stop := x.stop } :: l := by
  rw [glue, if_pos ⟨hb, hx⟩]

lemma glue_of_head_or (h : b.used = true ∨ x.used = true) : glue b (x :: l) = b :: x :: l := by
  rcases h with h | h
  · exact glue_of_used h
  · exact glue_of_head_used h

lemma glue_of_separated (h : Separated (b :: l)) : glue b l = b :: l := by
  cases l with
  | nil => rfl
  | cons c l => exact glue_of_head_or (List.isChain_cons_cons.mp h).1

lemma coalesce_of_separated (h : Separated l) : coalesce l = l := by
  induction l with
  | nil => rfl
  | cons b l ih => rw [coalesce, ih (List.IsChain.tail h), glue_of_separated h]

/-- What is put in front keeps its start and its flag. -/
lemma glue_eq_cons (b : Block) (l : List Block) :
    ∃ stop l', glue b l = ⟨b.start, stop, b.used⟩ :: l' := by
  cases l with
  | nil => exact ⟨b.stop, [], rfl⟩
  | cons c l =>
      rw [glue]
      split_ifs
      · exact ⟨c.stop, l, rfl⟩
      · exact ⟨b.stop, c :: l, rfl⟩

/-- A second block put in front is not made one with the first, if they were separated. -/
lemma glue_glue (h : x.used = true ∨ b.used = true) : glue x (glue b l) = x :: glue b l := by
  obtain ⟨stop, l', hglue⟩ := glue_eq_cons b l
  rw [hglue]
  exact glue_of_head_or h

/-- Only the last block before the changed ones can become one with them. -/
lemma coalesce_append (h : Separated (l₁ ++ [b])) :
    coalesce (l₁ ++ b :: l₂) = l₁ ++ glue b (coalesce l₂) := by
  induction l₁ with
  | nil => rfl
  | cons x l₁ ih =>
      rw [List.cons_append, coalesce, ih (List.IsChain.tail h), List.cons_append]
      cases l₁ with
      | nil => exact glue_glue (List.isChain_cons_cons.mp h).1
      | cons y l₁ =>
          refine glue_of_head_or ?_
          exact (List.isChain_cons_cons.mp h).1

lemma separated_glue (h : Separated l) : Separated (glue b l) := by
  cases l with
  | nil => exact List.isChain_singleton b
  | cons c m =>
      rw [glue]
      split_ifs with hfree
      · -- the block behind `c` is in use
        cases m with
        | nil => exact List.isChain_singleton _
        | cons d m =>
            have hd := List.isChain_cons_cons.mp h
            refine List.isChain_cons_cons.mpr ⟨Or.inr ?_, hd.2⟩
            exact hd.1.resolve_left (by simp [hfree.2])
      · refine List.isChain_cons_cons.mpr ⟨?_, h⟩
        by_contra hboth
        simp only [not_or, Bool.not_eq_true] at hboth
        exact hfree hboth

lemma separated_coalesce (l : List Block) : Separated (coalesce l) := by
  induction l with
  | nil => exact List.isChain_nil
  | cons b l ih => exact separated_glue ih

/-- Next to a block in use everything is separated. -/
lemma Separated.append_used (h₁ : Separated l₁) (h₂ : Separated l₂) (hb : b.used = true) :
    Separated (l₁ ++ b :: l₂) := by
  refine List.isChain_append.mpr ⟨h₁, ?_, ?_⟩
  · refine List.isChain_cons.mpr ⟨fun y _ => Or.inl hb, h₂⟩
  · intro x _ y hy
    obtain rfl : b = y := by simpa using hy
    exact Or.inr hb

/-- Only the flag of the first block counts. -/
lemma Separated.head (h : Separated (b :: l)) (hx : x.used = b.used) : Separated (x :: l) := by
  refine List.isChain_cons.mpr ⟨fun y hy => ?_, h.tail⟩
  rw [hx]
  exact (List.isChain_cons.mp h).1 y hy

lemma glue_used_iff (hx : x.used = true) : x ∈ glue b l ↔ x ∈ b :: l := by
  cases l with
  | nil => rfl
  | cons c m =>
      rw [glue]
      split_ifs with hfree
      · have hb : x ≠ b := fun h => by simp [h, hfree.1] at hx
        have hc : x ≠ c := fun h => by simp [h, hfree.2] at hx
        have hg : x ≠ { b with stop := c.stop } := fun h => by simp [h, hfree.1] at hx
        simp [hb, hc, hg]
      · rfl

lemma Tiles.glue (h : Tiles a c (b :: l)) : Tiles a c (glue b l) := by
  cases l with
  | nil => exact h
  | cons x l =>
      rw [FirstFit.glue]
      split_ifs
      · obtain ⟨hb, hlt, hx, hlt', hl⟩ := h
        exact ⟨hb, Nat.lt_trans hlt hlt', hl⟩
      · exact h

lemma Tiles.coalesce (h : Tiles a c l) : Tiles a c (coalesce l) := by
  induction l generalizing a with
  | nil => exact h
  | cons b l ih => exact Tiles.glue ⟨h.1, h.2.1, ih h.2.2⟩

/-- The blocks in use are left as they are. -/
lemma coalesce_used_iff (hx : x.used = true) : x ∈ coalesce l ↔ x ∈ l := by
  induction l with
  | nil => rfl
  | cons b l ih => rw [coalesce, glue_used_iff hx, List.mem_cons, List.mem_cons, ih]

end Coalescing

/-! ### The lowest free block -/

/-- The start of the lowest free block, or `c` if there is none. -/
def lowest (c : ℕ) : List Block → ℕ
  | [] => c
  | b :: l => if b.used then lowest c l else b.start

section Lowest

variable {a c m : ℕ} {b x : Block} {l l₁ l₂ : List Block}

lemma lowest_of_used (hb : b.used = true) : lowest c (b :: l) = lowest c l := by
  rw [lowest, if_pos hb]

lemma lowest_of_free (hb : b.used = false) : lowest c (b :: l) = b.start := by
  rw [lowest, if_neg (by simp [hb])]

lemma lowest_append_of_used (hb : b.used = true) :
    lowest c (l₁ ++ b :: l₂) = lowest c (l₁ ++ l₂) := by
  induction l₁ with
  | nil => exact lowest_of_used hb
  | cons x l₁ ih => rw [List.cons_append, List.cons_append, lowest, lowest, ih]

lemma Tiles.le_lowest (h : Tiles a c l) : a ≤ lowest c l := by
  induction l generalizing a with
  | nil => exact Nat.le_of_eq h
  | cons b l ih =>
      rw [lowest]
      split_ifs
      · exact Nat.le_trans (Nat.le_of_lt h.2.1) (ih h.2.2)
      · exact Nat.le_of_eq h.1.symm

/-- The lowest free block stands among the first blocks, or is that of the others. -/
lemma Tiles.lowest_append (h : Tiles a m l₁) :
    (∀ c l₂, lowest c (l₁ ++ l₂) = lowest c l₂) ∨ ∃ p < m, ∀ c l₂, lowest c (l₁ ++ l₂) = p := by
  induction l₁ generalizing a with
  | nil => exact Or.inl fun c l₂ => rfl
  | cons b l₁ ih =>
      cases hb : b.used with
      | true =>
          refine (ih h.2.2).imp (fun hl c l₂ => ?_) fun ⟨p, hp, hl⟩ => ⟨p, hp, fun c l₂ => ?_⟩
          · rw [List.cons_append, lowest_of_used hb, hl]
          · rw [List.cons_append, lowest_of_used hb, hl]
      | false =>
          refine Or.inr ⟨b.start, ?_, fun c l₂ => lowest_of_free hb⟩
          have hlt := h.2.1
          rw [← h.1] at hlt
          exact Nat.lt_of_lt_of_le hlt h.2.2.le

/-- No free block stands before the lowest. -/
lemma Tiles.lowest_le (h : Tiles a c l) (hb : b ∈ l) (hfree : b.used = false) :
    lowest c l ≤ b.start := by
  induction l generalizing a with
  | nil => cases hb
  | cons x l ih =>
      rw [lowest]
      rcases List.mem_cons.mp hb with rfl | hb
      · rw [if_neg (by simp [hfree])]
      · split_ifs
        · exact ih h.2.2 hb
        · have hle := (h.2.2.mem_bounds hb).1
          have hlt := h.2.1
          have hstart := h.1
          omega

/-- A free block in front of `l` instead of the blocks of `l'`, which lie behind its start. -/
lemma Tiles.lowest_insert {l' : List Block} (h : Tiles a m l₁) (hm : m ≤ b.start)
    (hb : b.used = false) (hl : b.start < lowest c l') :
    lowest c (l₁ ++ b :: l) =
      if b.start < lowest c (l₁ ++ l') then b.start else lowest c (l₁ ++ l') := by
  rcases h.lowest_append with hused | ⟨p, hp, hlow⟩
  · rw [hused, hused, lowest_of_free hb, if_pos hl]
  · rw [hlow, hlow, if_neg (by omega)]

/-- Before the lowest free block everything is in use. -/
lemma Tiles.exists_lowest (h : Tiles a c l) :
    ∃ l₁ l₂, l = l₁ ++ l₂ ∧ Tiles a (lowest c l) l₁ ∧ ∀ x ∈ l₁, x.used = true := by
  induction l generalizing a with
  | nil => exact ⟨[], [], rfl, h, by simp⟩
  | cons b l ih =>
      cases hb : b.used with
      | true =>
          obtain ⟨l₁, l₂, rfl, htiles, hused⟩ := ih h.2.2
          rw [lowest_of_used hb]
          exact ⟨b :: l₁, l₂, rfl, ⟨h.1, h.2.1, htiles⟩, List.forall_mem_cons.mpr ⟨hb, hused⟩⟩
      | false =>
          rw [lowest_of_free hb]
          exact ⟨[], b :: l, rfl, h.1.symm, by simp⟩

lemma lowest_glue (b : Block) (l : List Block) : lowest c (glue b l) = lowest c (b :: l) := by
  cases l with
  | nil => rfl
  | cons x l =>
      rw [glue]
      split_ifs with hfree
      · rw [lowest_of_free hfree.1]
        exact lowest_of_free hfree.1
      · rfl

lemma lowest_coalesce (l : List Block) : lowest c (coalesce l) = lowest c l := by
  induction l with
  | nil => rfl
  | cons b l ih => rw [coalesce, lowest_glue, lowest, lowest, ih]

end Lowest

/-! ### Taking, freeing and shrinking a block -/

section Operations

variable (hdr least : ℕ)

/-- A free block that has room for `size` bytes behind its header. -/
def Fits (size : ℕ) (b : Block) : Prop := b.used = false ∧ b.start + hdr + size ≤ b.stop

instance (size : ℕ) (b : Block) : Decidable (Fits hdr size b) :=
  inferInstanceAs (Decidable (_ ∧ _))

/-- The block in use, and what is left over of it if that is enough for a block. -/
def allot (size : ℕ) (b : Block) : List Block :=
  if b.start + hdr + size + (hdr + least) ≤ b.stop then
    [⟨b.start, b.start + hdr + size, true⟩, ⟨b.start + hdr + size, b.stop, false⟩]
  else [{ b with used := true }]

/-- The lowest block that fits is taken: its start, and the blocks afterwards. -/
def alloc (size : ℕ) : List Block → Option (ℕ × List Block)
  | [] => none
  | b :: l =>
      if Fits hdr size b then some (b.start, allot hdr least size b ++ l)
      else (alloc size l).map fun r => (r.1, b :: r.2)

/-- The block that starts at `p` is freed. -/
def release (p : ℕ) (l : List Block) : List Block :=
  coalesce (l.map fun b => if b.start = p then { b with used := false } else b)

/-- The block gives back what stands behind its first `size` bytes, to the free block behind it
or as a block of its own; what is too small for a block it keeps. -/
def giveBack (size : ℕ) (b : Block) (l : List Block) : List Block :=
  let cut := b.start + hdr + size
  if cut = b.stop then b :: l
  else if l.head?.any (fun n => !n.used) ∨ cut + (hdr + least) ≤ b.stop then
    { b with stop := cut } :: glue ⟨cut, b.stop, false⟩ l
  else b :: l

/-- The block that starts at `p` is shrunk to `size` bytes. -/
def shrink (p size : ℕ) : List Block → List Block
  | [] => []
  | b :: l => if b.start = p then giveBack hdr least size b l else b :: shrink p size l

end Operations

section Specifications

variable {hdr least size a c p : ℕ} {b x : Block} {l l₁ l₂ l' : List Block}

lemma alloc_append (h₁ : ∀ x ∈ l₁, ¬ Fits hdr size x) :
    alloc hdr least size (l₁ ++ l₂) =
      (alloc hdr least size l₂).map fun r => (r.1, l₁ ++ r.2) := by
  induction l₁ with
  | nil => simp
  | cons x l₁ ih =>
      rw [List.cons_append, alloc, if_neg (h₁ x (by simp)), ih fun y hy => h₁ y (by simp [hy]),
        Option.map_map]
      rfl

/-- No block is found exactly if none fits. -/
lemma alloc_eq_none_iff : alloc hdr least size l = none ↔ ∀ x ∈ l, ¬ Fits hdr size x := by
  induction l with
  | nil => simp [alloc]
  | cons b l ih =>
      rw [alloc]
      split_ifs with hb
      · simp [hb]
      · simp [hb, ih]

/-- The block found is the first one that fits. -/
lemma alloc_eq_some (h : alloc hdr least size l = some (p, l')) :
    ∃ l₁ b l₂, l = l₁ ++ b :: l₂ ∧ (∀ x ∈ l₁, ¬ Fits hdr size x) ∧ Fits hdr size b ∧
      p = b.start ∧ l' = l₁ ++ (allot hdr least size b ++ l₂) := by
  induction l generalizing l' with
  | nil => cases h
  | cons b l ih =>
      rw [alloc] at h
      split_ifs at h with hb
      · obtain ⟨rfl, rfl⟩ : b.start = p ∧ allot hdr least size b ++ l = l' := by simpa using h
        exact ⟨[], b, l, rfl, by simp, hb, rfl, rfl⟩
      · obtain ⟨⟨q, m⟩, hm, heq⟩ := Option.map_eq_some_iff.mp h
        obtain ⟨rfl, rfl⟩ : q = p ∧ b :: m = l' := by simpa using heq
        obtain ⟨l₁, x, l₂, rfl, hl₁, hx, hp, rfl⟩ := ih hm
        refine ⟨b :: l₁, x, l₂, rfl, ?_, hx, hp, rfl⟩
        rintro y hy
        rcases List.mem_cons.mp hy with rfl | hy
        · exact hb
        · exact hl₁ y hy

lemma Tiles.start_ne (h : Tiles a c (l₁ ++ b :: l₂)) :
    (∀ x ∈ l₁, x.start ≠ b.start) ∧ ∀ x ∈ l₂, x.start ≠ b.start := by
  obtain ⟨m, h₁, hs, hlt, h₂⟩ := tiles_append.mp h
  refine ⟨fun x hx => ?_, fun x hx => ?_⟩
  · have hbounds := h₁.mem_bounds hx
    omega
  · have hbounds := h₂.mem_bounds hx
    omega

lemma release_append (h : Tiles a c (l₁ ++ b :: l₂)) :
    release b.start (l₁ ++ b :: l₂) = coalesce (l₁ ++ { b with used := false } :: l₂) := by
  obtain ⟨h₁, h₂⟩ := h.start_ne
  have hid : ∀ l : List Block, (∀ x ∈ l, x.start ≠ b.start) →
      (l.map fun x => if x.start = b.start then { x with used := false } else x) = l := by
    intro l hl
    conv_rhs => rw [← List.map_id l]
    exact List.map_congr_left fun x hx => if_neg (hl x hx)
  rw [release, List.map_append, List.map_cons, if_pos rfl, hid l₁ h₁, hid l₂ h₂]

lemma shrink_append (h : Tiles a c (l₁ ++ b :: l₂)) :
    shrink hdr least b.start size (l₁ ++ b :: l₂) = l₁ ++ giveBack hdr least size b l₂ := by
  have hne := h.start_ne.1
  clear h
  induction l₁ with
  | nil => exact if_pos rfl
  | cons x l₁ ih =>
      rw [List.cons_append, shrink, if_neg (hne x (by simp)), ih fun y hy => hne y (by simp [hy])]
      rfl

end Specifications

/-! ### Well-formed lists of blocks -/

/-- A block has room for its header and `least` bytes, and starts and ends at multiples of
`d`. -/
def Good (hdr least d : ℕ) (b : Block) : Prop :=
  b.start + hdr + least ≤ b.stop ∧ d ∣ b.start ∧ d ∣ b.stop

/-- Good blocks tile the interval, and free blocks are not neighbours. -/
structure Wf (hdr least d a c : ℕ) (l : List Block) : Prop where
  tiles : Tiles a c l
  good : ∀ b ∈ l, Good hdr least d b
  separated : Separated l

section WellFormed

variable {hdr least d size a c p : ℕ} {b x : Block} {l l₁ l₂ l' : List Block}

/-- With no block in use there is one block. -/
lemma Wf.eq_singleton (h : Wf hdr least d a c l) (hac : a < c) (hfree : ∀ x ∈ l, x.used = false) :
    l = [⟨a, c, false⟩] := by
  match l, h, hfree with
  | [], h, _ => exact absurd h.tiles (Nat.ne_of_lt hac)
  | [⟨start, stop, used⟩], h, hfree =>
      obtain ⟨hstart, -, hstop⟩ : start = a ∧ a < stop ∧ stop = c := h.tiles
      have hused : used = false := hfree ⟨start, stop, used⟩ (by simp)
      rw [hstart, hstop, hused]
  | b :: x :: l, h, hfree =>
      have hb := hfree b (by simp)
      have hx := hfree x (by simp)
      simpa [hb, hx] using (List.isChain_cons_cons.mp h.separated).1

/-- The bound at which a block of `size` bytes ends. -/
lemma Good.cut (h : Good hdr least d b) (hd : d ∣ hdr + size) : d ∣ b.start + hdr + size := by
  rw [Nat.add_assoc]
  exact (Nat.dvd_add_iff_right h.2.1).mp hd

lemma Wf.alloc (h : Wf hdr least d a c l) (hhdr : 0 < hdr) (hsize : least ≤ size)
    (hd : d ∣ hdr + size) (halloc : alloc hdr least size l = some (p, l')) :
    Wf hdr least d a c l' := by
  obtain ⟨l₁, b, l₂, rfl, -, ⟨hfree, hfits⟩, rfl, rfl⟩ := alloc_eq_some halloc
  obtain ⟨htiles, hgood, hsep⟩ := h
  obtain ⟨m, ht₁, rfl, hlt, ht₂⟩ := tiles_append.mp htiles
  obtain ⟨hg₁, hg⟩ := List.forall_mem_append.mp hgood
  obtain ⟨hb, hg₂⟩ := List.forall_mem_cons.mp hg
  obtain ⟨hsep₁, hsep₂, -⟩ := List.isChain_append.mp hsep
  have hcut := hb.cut hd
  rw [allot]
  split_ifs with hsplit
  · refine ⟨?_, ?_, Separated.append_used hsep₁ (Separated.head hsep₂ hfree.symm) rfl⟩
    · have hlt₁ : b.start < b.start + hdr + size := by omega
      have hlt₂ : b.start + hdr + size < b.stop := by omega
      exact tiles_append.mpr ⟨_, ht₁, rfl, hlt₁, rfl, hlt₂, ht₂⟩
    · refine List.forall_mem_append.mpr ⟨hg₁, ?_⟩
      have hroom : b.start + hdr + least ≤ b.start + hdr + size := by omega
      have hrest : b.start + hdr + size + hdr + least ≤ b.stop := by omega
      refine List.forall_mem_cons.mpr ⟨⟨hroom, hb.2.1, hcut⟩, ?_⟩
      exact List.forall_mem_cons.mpr ⟨⟨hrest, hcut, hb.2.2⟩, hg₂⟩
  · refine ⟨?_, ?_, Separated.append_used hsep₁ (List.IsChain.tail hsep₂) rfl⟩
    · exact tiles_append.mpr ⟨_, ht₁, rfl, hlt, ht₂⟩
    · exact List.forall_mem_append.mpr ⟨hg₁, List.forall_mem_cons.mpr ⟨hb, hg₂⟩⟩

lemma good_glue (htiles : Tiles a c (b :: l)) (hb : Good hdr least d b)
    (hl : ∀ x ∈ l, Good hdr least d x) : ∀ x ∈ glue b l, Good hdr least d x := by
  cases l with
  | nil => simpa [glue] using hb
  | cons y l =>
      obtain ⟨hy, hl'⟩ := List.forall_mem_cons.mp hl
      obtain ⟨-, -, hstart, hlt, -⟩ := htiles
      rw [glue]
      split_ifs
      · refine List.forall_mem_cons.mpr ⟨⟨?_, hb.2.1, hy.2.2⟩, hl'⟩
        have hroom : b.start + hdr + least ≤ y.stop := by
          have := hb.1
          omega
        exact hroom
      · exact List.forall_mem_cons.mpr ⟨hb, hl⟩

lemma good_coalesce (htiles : Tiles a c l) (hl : ∀ x ∈ l, Good hdr least d x) :
    ∀ x ∈ coalesce l, Good hdr least d x := by
  induction l generalizing a with
  | nil => exact hl
  | cons b l ih =>
      obtain ⟨hb, hl'⟩ := List.forall_mem_cons.mp hl
      exact good_glue ⟨htiles.1, htiles.2.1, htiles.2.2.coalesce⟩ hb (ih htiles.2.2 hl')

lemma Wf.release (h : Wf hdr least d a c (l₁ ++ b :: l₂)) :
    Wf hdr least d a c (release b.start (l₁ ++ b :: l₂)) := by
  obtain ⟨htiles, hgood, hsep⟩ := h
  rw [release_append htiles]
  obtain ⟨m, ht₁, hb, hlt, ht₂⟩ := tiles_append.mp htiles
  obtain ⟨hg₁, hg⟩ := List.forall_mem_append.mp hgood
  obtain ⟨hgb, hg₂⟩ := List.forall_mem_cons.mp hg
  have htiles' : Tiles a c (l₁ ++ { b with used := false } :: l₂) :=
    tiles_append.mpr ⟨m, ht₁, hb, hlt, ht₂⟩
  refine ⟨htiles'.coalesce, good_coalesce htiles' ?_, separated_coalesce _⟩
  exact List.forall_mem_append.mpr ⟨hg₁, List.forall_mem_cons.mpr ⟨hgb, hg₂⟩⟩

/-- What is given back is enough for a block by itself, or with the free block behind it. -/
lemma good_rest {cut stop : ℕ} (htiles : Tiles a c (⟨cut, stop, false⟩ :: l)) (hcut : d ∣ cut)
    (hstop : d ∣ stop) (hl : ∀ x ∈ l, Good hdr least d x)
    (hroom : l.head?.any (fun n => !n.used) ∨ cut + (hdr + least) ≤ stop) :
    ∀ x ∈ glue ⟨cut, stop, false⟩ l, Good hdr least d x := by
  rcases hroom with hfree | hroom
  · cases l with
    | nil => simp at hfree
    | cons n l =>
        have hn : n.used = false := by simpa using hfree
        obtain ⟨hgn, hl'⟩ := List.forall_mem_cons.mp hl
        obtain ⟨rfl, hlt, hstart, -, -⟩ : cut = a ∧ a < stop ∧ n.start = stop ∧ _ := htiles
        rw [glue_of_free rfl hn]
        refine List.forall_mem_cons.mpr ⟨⟨?_, hcut, hgn.2.2⟩, hl'⟩
        have hle : cut + hdr + least ≤ n.stop := by
          have := hgn.1
          omega
        exact hle
  · refine good_glue htiles ⟨?_, hcut, hstop⟩ hl
    rw [Nat.add_assoc]
    exact hroom

lemma Wf.giveBack (h : Wf hdr least d a c (l₁ ++ b :: l₂)) (hhdr : 0 < hdr) (hsize : least ≤ size)
    (hd : d ∣ hdr + size) (hfits : b.start + hdr + size ≤ b.stop) (hused : b.used = true) :
    Wf hdr least d a c (l₁ ++ giveBack hdr least size b l₂) := by
  obtain ⟨htiles, hgood, hsep⟩ := h
  obtain ⟨m, ht₁, rfl, hlt, ht₂⟩ := tiles_append.mp htiles
  obtain ⟨hg₁, hg⟩ := List.forall_mem_append.mp hgood
  obtain ⟨hgb, hg₂⟩ := List.forall_mem_cons.mp hg
  obtain ⟨hsep₁, hsep₂, -⟩ := List.isChain_append.mp hsep
  have hcut := hgb.cut hd
  rw [FirstFit.giveBack]
  split_ifs with heq hroom
  · exact ⟨htiles, hgood, hsep⟩
  · have hlt₁ : b.start < b.start + hdr + size := by omega
    have hlt₂ : b.start + hdr + size < b.stop := by omega
    have hrest : Tiles (b.start + hdr + size) c (⟨b.start + hdr + size, b.stop, false⟩ :: l₂) :=
      ⟨rfl, hlt₂, ht₂⟩
    refine ⟨?_, ?_, Separated.append_used hsep₁ (separated_glue hsep₂.tail) hused⟩
    · exact tiles_append.mpr ⟨_, ht₁, rfl, hlt₁, hrest.glue⟩
    · have hfirst : b.start + hdr + least ≤ b.start + hdr + size := by omega
      refine List.forall_mem_append.mpr ⟨hg₁, ?_⟩
      refine List.forall_mem_cons.mpr ⟨⟨hfirst, hgb.2.1, hcut⟩, ?_⟩
      exact good_rest hrest hcut hgb.2.2 hg₂ hroom
  · exact ⟨htiles, hgood, hsep⟩

/-! ### The blocks in use -/

lemma allot_used_iff (hx : x.used = true) :
    x ∈ allot hdr least size b ↔
      x = ⟨b.start, if b.start + hdr + size + (hdr + least) ≤ b.stop then b.start + hdr + size
        else b.stop, true⟩ := by
  rw [allot]
  split_ifs with hsplit
  · have hrest : x ≠ ⟨b.start + hdr + size, b.stop, false⟩ := fun h => by simp [h] at hx
    simp [hrest]
  · simp

/-- Taking a block adds it to the blocks in use: there are at least `size` bytes in it, and not
enough for another block. -/
lemma alloc_used (hhdr : 0 < hdr) (halloc : alloc hdr least size l = some (p, l')) :
    ∃ y : Block, y.used = true ∧ y.start = p ∧ p + hdr + size ≤ y.stop ∧
      y.stop < p + hdr + size + (hdr + least) ∧
      ∀ x : Block, x.used = true → (x ∈ l' ↔ x ∈ l ∨ x = y) := by
  obtain ⟨l₁, b, l₂, rfl, -, ⟨hfree, hfits⟩, rfl, rfl⟩ := alloc_eq_some halloc
  refine ⟨⟨b.start, if b.start + hdr + size + (hdr + least) ≤ b.stop then b.start + hdr + size
    else b.stop, true⟩, rfl, rfl, ?_, ?_, fun x hx => ?_⟩
  · split_ifs
    · exact Nat.le_refl _
    · exact hfits
  · dsimp only
    split_ifs with hsplit <;> omega
  · have hb : x ≠ b := fun h => by simp [h, hfree] at hx
    rw [List.mem_append, List.mem_append, allot_used_iff hx, List.mem_append, List.mem_cons]
    tauto

/-- The blocks besides one of them. -/
lemma Tiles.mem_others (h : Tiles a c (l₁ ++ b :: l₂)) :
    x ∈ l₁ ∨ x ∈ l₂ ↔ x ∈ l₁ ++ b :: l₂ ∧ x.start ≠ b.start := by
  obtain ⟨h₁, h₂⟩ := h.start_ne
  simp only [List.mem_append, List.mem_cons]
  constructor
  · rintro (hx | hx)
    · exact ⟨Or.inl hx, h₁ x hx⟩
    · exact ⟨Or.inr (Or.inr hx), h₂ x hx⟩
  · rintro ⟨hx | rfl | hx, hne⟩
    · exact Or.inl hx
    · exact absurd rfl hne
    · exact Or.inr hx

/-- Freeing a block takes it out of the blocks in use. -/
lemma release_used_iff (h : Tiles a c (l₁ ++ b :: l₂)) (hx : x.used = true) :
    x ∈ release b.start (l₁ ++ b :: l₂) ↔ x ∈ l₁ ++ b :: l₂ ∧ x.start ≠ b.start := by
  have hb : x ≠ { b with used := false } := fun h => by simp [h] at hx
  rw [release_append h, coalesce_used_iff hx, ← h.mem_others, List.mem_append, List.mem_cons]
  tauto

/-- A block that is shrunk keeps its start and at least `size` bytes, and not enough for another
block. -/
lemma giveBack_used (least : ℕ) (hhdr : 0 < hdr) (h : Tiles a c (l₁ ++ b :: l₂))
    (hused : b.used = true) (hfits : b.start + hdr + size ≤ b.stop) :
    ∃ y : Block, y.used = true ∧ y.start = b.start ∧ b.start + hdr + size ≤ y.stop ∧
      y.stop < b.start + hdr + size + (hdr + least) ∧
      ∀ x : Block, x.used = true →
        (x ∈ l₁ ++ giveBack hdr least size b l₂ ↔
          (x ∈ l₁ ++ b :: l₂ ∧ x.start ≠ b.start) ∨ x = y) := by
  have hkeep : ∀ x, x ∈ l₁ ++ b :: l₂ ↔ (x ∈ l₁ ++ b :: l₂ ∧ x.start ≠ b.start) ∨ x = b := by
    intro x
    rw [← h.mem_others, List.mem_append, List.mem_cons]
    tauto
  rw [giveBack]
  split_ifs with hend hroom
  · exact ⟨b, hused, rfl, hfits, by omega, fun x _ => hkeep x⟩
  · refine ⟨{ b with stop := b.start + hdr + size }, hused, rfl, Nat.le_refl _, ?_, fun x hx => ?_⟩
    · dsimp only
      omega
    have hrest : x ≠ ⟨b.start + hdr + size, b.stop, false⟩ := fun h => by simp [h] at hx
    rw [← h.mem_others, List.mem_append, List.mem_cons, glue_used_iff hx, List.mem_cons]
    tauto
  · exact ⟨b, hused, rfl, hfits, Nat.not_le.mp (not_or.mp hroom).2, fun x _ => hkeep x⟩

end WellFormed

/-! ### How much is in use -/

/-- The bytes of a block. -/
def Block.length (b : Block) : ℕ := b.stop - b.start

section Capacity

variable {a c k : ℕ} {l : List Block}

lemma Tiles.sum_length (h : Tiles a c l) : a + (l.map Block.length).sum = c := by
  induction l generalizing a with
  | nil => exact h
  | cons b l ih =>
      obtain ⟨hstart, hlt, hl⟩ := h
      have hsum := ih hl
      rw [List.map_cons, List.sum_cons, Block.length]
      omega

lemma Tiles.nodup_start (h : Tiles a c l) : (l.map Block.start).Nodup := by
  induction l generalizing a with
  | nil => exact List.nodup_nil
  | cons x l ih =>
      refine List.nodup_cons.mpr ⟨fun hmem => ?_, ih h.2.2⟩
      obtain ⟨y, hy, heq⟩ := List.mem_map.mp hmem
      have hle := (h.2.2.mem_bounds hy).1
      have hlt := h.2.1
      rw [← h.1] at hlt
      omega

/-- The free blocks, of at most `k` bytes each, are at most one more than the blocks in use; one
less, if the first block is in use. -/
lemma Separated.sum_length_le (h : Separated l) (hk : ∀ b ∈ l, b.used = false → b.length ≤ k) :
    ((l.map Block.length).sum ≤ ((l.filter Block.used).map Block.length).sum +
        ((l.filter Block.used).length + 1) * k) ∧
      ((∀ b ∈ l.head?, b.used = true) →
        (l.map Block.length).sum ≤ ((l.filter Block.used).map Block.length).sum +
          (l.filter Block.used).length * k) := by
  induction l with
  | nil => simp
  | cons b l ih =>
      obtain ⟨hb, hl⟩ := List.forall_mem_cons.mp hk
      obtain ⟨hany, hhead⟩ := ih h.tail hl
      cases hused : b.used with
      | true =>
          have hle : ((b :: l).map Block.length).sum ≤
              (((b :: l).filter Block.used).map Block.length).sum +
                ((b :: l).filter Block.used).length * k := by
            rw [List.filter_cons_of_pos hused, List.map_cons, List.map_cons, List.sum_cons,
              List.sum_cons, List.length_cons]
            omega
          exact ⟨Nat.le_trans hle (by rw [Nat.add_mul]; omega), fun _ => hle⟩
      | false =>
          refine ⟨?_, fun hfalse => ?_⟩
          · have hnext : ∀ y ∈ l.head?, y.used = true := by
              intro y hy
              exact ((List.isChain_cons.mp h).1 y hy).resolve_left (by simp [hused])
            have hlen := hb hused
            have hrest := hhead hnext
            rw [List.filter_cons_of_neg (by simp [hused]), List.map_cons, List.sum_cons,
              Nat.add_mul]
            omega
          · have := hfalse b rfl
            rw [hused] at this
            cases this

end Capacity

end FirstFit
