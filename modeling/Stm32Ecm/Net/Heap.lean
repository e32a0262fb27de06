import Mathlib.Data.List.FinRange
import Stm32Ecm.Library.FirstFit
import Stm32Ecm.Library.Memory

/-!
The heap of lwIP, `mem.c`: `mem_init`, `mem_malloc`, `mem_trim`, `mem_free` and `plug_holes`, on
the bytes of `ram`.

A `struct mem` stands in front of every area; its fields are read from and written to the bytes of
the heap, between the data of the areas in use.  Pointers into the heap are offsets from `ram`.  A
loop of the source that would not end is `none`.  `LWIP_ASSERT` does nothing in this build;
`Heap.sane` tells whether what it asserts has held so far.

* `Represents`: the headers in `ram` describe the blocks of a list;
* `Inv`: that list is well-formed (`FirstFit.Wf`), and `lfree` is its lowest free block;
* `memMalloc_spec`, `memFree_spec`, `memTrim_spec`: on the list of blocks the functions are
  `FirstFit.alloc`, `release` and `shrink`, and they write to headers only (`Frame`).
-/

namespace Stm32Ecm.Net

open FirstFit

/-! ### The bytes of the heap -/

/-- `MEM_SIZE_ALIGNED`, the offset of `ram_end`. -/
abbrev memSize : ℕ := 1600

/-- `SIZEOF_STRUCT_MEM`. -/
abbrev sizeofMem : ℕ := 8

/-- `MIN_SIZE_ALIGNED`. -/
abbrev minSize : ℕ := 12

/-- The bytes from `ram` on. -/
abbrev Ram : Type := ℕ → UInt8

/-- A `mem_size_t` at the offset `p`. -/
def getSize (r : Ram) (p : ℕ) : ℕ := (r p).toNat + 256 * (r (p + 1)).toNat

def putSize (r : Ram) (p v : ℕ) : Ram :=
  Memory.write r p [UInt8.ofNat v, UInt8.ofNat (v / 256)]

/-- The `struct mem` at the offset `p`, as its fields. -/
structure Mem where
  next : ℕ
  prev : ℕ
  used : Bool
  deriving DecidableEq

def mem (r : Ram) (p : ℕ) : Mem where
  next := getSize r p
  prev := getSize r (p + 2)
  used := r (p + 4) != 0

def setNext (r : Ram) (p v : ℕ) : Ram := putSize r p v

def setPrev (r : Ram) (p v : ℕ) : Ram := putSize r (p + 2) v

def setUsed (r : Ram) (p : ℕ) (v : UInt8) : Ram := Memory.write r (p + 4) [v]

section Fields

variable {r : Ram} {p q v i : ℕ} {u : UInt8}

lemma getSize_putSize : getSize (putSize r p v) p = v % 65536 := by
  have h0 : putSize r p v p = UInt8.ofNat v := by simp [putSize, Memory.write]
  have h1 : putSize r p v (p + 1) = UInt8.ofNat (v / 256) := by simp [putSize, Memory.write]
  rw [getSize, h0, h1, UInt8.toNat_ofNat', UInt8.toNat_ofNat']
  omega

lemma putSize_apply (h : i < p ∨ p + 2 ≤ i) : putSize r p v i = r i := by
  rcases h with h | h
  · exact Memory.write_apply_of_lt h
  · exact Memory.write_apply_of_le h

lemma getSize_putSize_of_ne (h : q + 2 ≤ p ∨ p + 2 ≤ q) :
    getSize (putSize r p v) q = getSize r q := by
  rw [getSize, putSize_apply (by omega), putSize_apply (by omega), getSize]

lemma setUsed_self : setUsed r p u (p + 4) = u := by simp [setUsed, Memory.write]

lemma setUsed_apply_of_ne (h : i ≠ p + 4) : setUsed r p u i = r i := by
  rcases Nat.lt_or_gt_of_ne h with h | h
  · exact Memory.write_apply_of_lt h
  · exact Memory.write_apply_of_le h

/-! A field is written inside its header. -/

lemma setNext_apply (h : i < p ∨ p + 8 ≤ i) : setNext r p v i = r i := putSize_apply (by omega)

lemma setPrev_apply (h : i < p ∨ p + 8 ≤ i) : setPrev r p v i = r i := putSize_apply (by omega)

lemma setUsed_apply (h : i < p ∨ p + 8 ≤ i) : setUsed r p u i = r i :=
  setUsed_apply_of_ne (by omega)

lemma mem_setNext : mem (setNext r p v) p = { mem r p with next := v % 65536 } := by
  simp only [mem, setNext, getSize_putSize, Mem.mk.injEq, true_and]
  rw [getSize_putSize_of_ne (by omega), putSize_apply (by omega)]
  exact ⟨rfl, rfl⟩

lemma mem_setPrev : mem (setPrev r p v) p = { mem r p with prev := v % 65536 } := by
  simp only [mem, setPrev, getSize_putSize, Mem.mk.injEq, true_and]
  rw [getSize_putSize_of_ne (by omega), putSize_apply (by omega)]
  exact ⟨rfl, rfl⟩

lemma mem_setUsed : mem (setUsed r p u) p = { mem r p with used := u != 0 } := by
  simp only [mem, getSize, setUsed_self, Mem.mk.injEq, and_true]
  rw [setUsed_apply_of_ne (by omega), setUsed_apply_of_ne (by omega),
    setUsed_apply_of_ne (by omega), setUsed_apply_of_ne (by omega)]
  exact ⟨rfl, rfl⟩

/-- A header is read from its own bytes. -/
lemma mem_congr {r' : Ram} (h : ∀ i, p ≤ i → i < p + 8 → r' i = r i) : mem r' p = mem r p := by
  simp only [mem, getSize]
  rw [h p (by omega) (by omega), h (p + 1) (by omega) (by omega),
    h (p + 2) (by omega) (by omega), h (p + 2 + 1) (by omega) (by omega),
    h (p + 4) (by omega) (by omega)]

lemma mem_setNext_of_ne (h : q + 8 ≤ p ∨ p + 8 ≤ q) : mem (setNext r p v) q = mem r q :=
  mem_congr fun _ _ _ => setNext_apply (by omega)

lemma mem_setPrev_of_ne (h : q + 8 ≤ p ∨ p + 8 ≤ q) : mem (setPrev r p v) q = mem r q :=
  mem_congr fun _ _ _ => setPrev_apply (by omega)

lemma mem_setUsed_of_ne (h : q + 8 ≤ p ∨ p + 8 ≤ q) : mem (setUsed r p u) q = mem r q :=
  mem_congr fun _ _ _ => setUsed_apply (by omega)

end Fields

/-! ### The functions of `mem.c` -/

/-- `ram` and `lfree`; `sane` says that no assertion of `mem.c` has failed. -/
structure Heap where
  ram : Ram
  lfree : ℕ
  sane : Bool

/-- `LWIP_ASSERT`, which goes on in any case. -/
def lwipAssert (c : Bool) (h : Heap) : Heap := { h with sane := h.sane && c }

/-- `LWIP_MEM_ALIGN_SIZE`, cut down to the 16 bits of a `mem_size_t`. -/
def alignSize (size : ℕ) : ℕ := (size + 3) / 4 * 4 % 65536

/-- The size that is looked for or kept: aligned, and at least `MIN_SIZE_ALIGNED`. -/
def blockSize (size : UInt16) : ℕ :=
  if alignSize size.toNat < minSize then minSize else alignSize size.toNat

/-- The bytes behind the header: `mem->next - (ptr + SIZEOF_STRUCT_MEM)`, a `size_t`. -/
def areaSize (r : Ram) (ptr : ℕ) : ℕ :=
  ((mem r ptr).next + 4294967296 - (ptr + sizeofMem)) % 4294967296

/-- `mem_init`.  The heap lies in the bss segment, so that the other bytes are `0`. -/
def memInit : Heap where
  ram :=
    let r := setUsed (setPrev (setNext (fun _ => 0) 0 memSize) 0 0) 0 0
    setPrev (setNext (setUsed r memSize 1) memSize memSize) memSize memSize
  lfree := 0
  sane := true

/-- `plug_holes`, "plug hole forward". -/
def plugForward (p : ℕ) (h : Heap) : Heap :=
  let n := (mem h.ram p).next
  if p ≠ n ∧ (mem h.ram n).used = false ∧ n ≠ memSize then
    let ram := setNext h.ram p (mem h.ram n).next
    { h with
      lfree := if h.lfree = n then p else h.lfree
      ram := setPrev ram (mem ram n).next p }
  else h

/-- `plug_holes`, "plug hole backward". -/
def plugBackward (p : ℕ) (h : Heap) : Heap :=
  let q := (mem h.ram p).prev
  if q ≠ p ∧ (mem h.ram q).used = false then
    let ram := setNext h.ram q (mem h.ram p).next
    { h with
      lfree := if h.lfree = p then q else h.lfree
      ram := setPrev ram (mem ram p).next q }
  else h

def plugHoles (p : ℕ) (h : Heap) : Heap :=
  let h := lwipAssert (p < memSize) h
  let h := lwipAssert (!(mem h.ram p).used) h
  let h := lwipAssert ((mem h.ram p).next ≤ memSize) h
  plugBackward p (plugForward p h)

/-- `mem_free`; `none` is `NULL`. -/
def memFree (rmem : Option ℕ) (h : Heap) : Heap :=
  match rmem with
  | none => h
  | some rmem =>
      let h := lwipAssert (rmem % 4 = 0) h
      let h := lwipAssert (rmem < memSize) h
      if memSize ≤ rmem then h
      else
        let p := rmem - sizeofMem
        let h := lwipAssert (mem h.ram p).used h
        let h := { h with ram := setUsed h.ram p 0 }
        plugHoles p { h with lfree := if p < h.lfree then p else h.lfree }

/-- The end of `mem_trim`: a header is put behind the first `newsize` bytes of the area at `ptr`,
for an unused area that goes on to `next`. -/
def putUnused (ptr newsize next : ℕ) (r : Ram) : Ram :=
  let ptr2 := (ptr + sizeofMem + newsize) % 65536
  let r := setUsed r ptr2 0
  let r := setNext r ptr2 next
  let r := setPrev r ptr2 ptr
  let r := setNext r ptr ptr2
  if (mem r ptr2).next ≠ memSize then setPrev r (mem r ptr2).next ptr2 else r

/-- `mem_trim`. -/
def memTrim (rmem : ℕ) (newsize : UInt16) (h : Heap) : Option ℕ × Heap :=
  let newsize := blockSize newsize
  if memSize < newsize then (none, h)
  else
    let h := lwipAssert (rmem < memSize) h
    if memSize ≤ rmem then (some rmem, h)
    else
      let ptr := rmem - sizeofMem
      let size := areaSize h.ram ptr % 65536
      let h := lwipAssert (newsize ≤ size) h
      if size < newsize then (none, h)
      else if newsize = size then (some rmem, h)
      else
        let ptr2 := (ptr + sizeofMem + newsize) % 65536
        let mem2 := (mem h.ram ptr).next
        if (mem h.ram mem2).used = false then
          -- the next area is unused, its header is moved
          (some rmem, { h with
            lfree := if h.lfree = mem2 then ptr2 else h.lfree
            ram := putUnused ptr newsize (mem h.ram mem2).next h.ram })
        else if newsize + sizeofMem + minSize ≤ size then
          (some rmem, { h with
            lfree := if ptr2 < h.lfree then ptr2 else h.lfree
            ram := putUnused ptr newsize mem2 h.ram })
        else (some rmem, h)

/-- The search of `mem_malloc`: the offset of the area that is taken, if there is one.  `ptr` has
16 bits and the heap stays as it is, so that a search that has not ended after 65536 steps does not
end. -/
def searchFree (r : Ram) (size : ℕ) : ℕ → ℕ → Option (Option ℕ)
  | 0, _ => none
  | fuel + 1, ptr =>
      if ptr < memSize - size then
        if (mem r ptr).used = false ∧ size ≤ areaSize r ptr then some (some ptr)
        else searchFree r size fuel (mem r ptr).next
      else some none

/-- "Find next free block after mem and update lowest free pointer". -/
def adjustLfree (r : Ram) : ℕ → ℕ → Option ℕ
  | 0, _ => none
  | fuel + 1, cur =>
      if (mem r cur).used = true ∧ cur ≠ memSize then adjustLfree r fuel (mem r cur).next
      else some cur

/-- The area at `ptr` is taken into use, and split if what is left over can be an area. -/
def takeArea (ptr size : ℕ) (r : Ram) : Ram :=
  if size + sizeofMem + minSize ≤ areaSize r ptr then
    let ptr2 := (ptr + sizeofMem + size) % 65536
    let r := setUsed r ptr2 0
    let r := setNext r ptr2 (mem r ptr).next
    let r := setPrev r ptr2 ptr
    let r := setNext r ptr ptr2
    let r := setUsed r ptr 1
    if (mem r ptr2).next ≠ memSize then setPrev r (mem r ptr2).next ptr2 else r
  else setUsed r ptr 1

/-- The end of `mem_malloc`: if the lowest free block was taken, `lfree` moves on. -/
def updateLfree (ptr : ℕ) (h : Heap) : Option Heap :=
  if ptr = h.lfree then
    (adjustLfree h.ram 65536 h.lfree).map fun cur =>
      lwipAssert (cur = memSize || !(mem h.ram cur).used) { h with lfree := cur }
  else some h

/-- `mem_malloc`: the pointer it returns, `none` for `NULL`; it does not return if a loop does not
end. -/
def memMalloc (size : UInt16) (h : Heap) : Option (Option ℕ × Heap) :=
  if size = 0 then some (none, h)
  else if memSize < blockSize size then some (none, h)
  else
    match searchFree h.ram (blockSize size) 65536 h.lfree with
    | none => none
    | some none => some (none, h)
    | some (some ptr) =>
        (updateLfree ptr { h with ram := takeArea ptr (blockSize size) h.ram }).map fun h =>
          let h := lwipAssert (ptr + sizeofMem + blockSize size ≤ memSize) h
          let h := lwipAssert ((ptr + sizeofMem) % 4 = 0) h
          let h := lwipAssert (ptr % 4 = 0) h
          (some (ptr + sizeofMem), h)

/-! ### The blocks that the headers describe -/

/-- The start of the last block, and `p` if there is none. -/
def lastStart (p : ℕ) : List Block → ℕ
  | [] => p
  | b :: l => lastStart b.start l

/-- The blocks tile the interval from `a` to `c`, and each begins with a header that links it to
its neighbours; the block before them starts at `p`. -/
def Segment (r : Ram) : ℕ → ℕ → ℕ → List Block → Prop
  | _, a, c, [] => a = c
  | p, a, c, b :: l =>
      b.start = a ∧ Good sizeofMem minSize 4 b ∧ mem r a = ⟨b.stop, p, b.used⟩ ∧
        Segment r a b.stop c l

/-- Nothing changes below `ram_end` but the headers of the blocks. -/
def Frame (l : List Block) (r r' : Ram) : Prop :=
  ∀ i < memSize, (∀ y ∈ l, i < y.start ∨ y.start + sizeofMem ≤ i) → r' i = r i

section Blocks

variable {r r' : Ram} {a c p q s : ℕ} {b x : Block} {l l₁ l₂ : List Block}

lemma room_of_good (h : Good sizeofMem minSize 4 b) : b.start + 20 ≤ b.stop := h.1

lemma segment_append :
    Segment r p a c (l₁ ++ l₂) ↔
      ∃ s, Segment r p a s l₁ ∧ Segment r (lastStart p l₁) s c l₂ := by
  induction l₁ generalizing a p with
  | nil => simp [Segment, lastStart]
  | cons b l₁ ih =>
      simp only [List.cons_append, Segment, ih, lastStart]
      constructor
      · rintro ⟨rfl, hgood, hmem, s, h₁, h₂⟩
        exact ⟨s, ⟨rfl, hgood, hmem, h₁⟩, h₂⟩
      · rintro ⟨s, ⟨rfl, hgood, hmem, h₁⟩, h₂⟩
        exact ⟨rfl, hgood, hmem, s, h₁, h₂⟩

lemma Segment.tiles (h : Segment r p a c l) : Tiles a c l := by
  induction l generalizing a p with
  | nil => exact h
  | cons b l ih =>
      obtain ⟨rfl, hgood, -, hl⟩ := h
      have hroom := room_of_good hgood
      exact ⟨rfl, by omega, ih hl⟩

lemma Segment.good (h : Segment r p a c l) : ∀ b ∈ l, Good sizeofMem minSize 4 b := by
  induction l generalizing a p with
  | nil => simp
  | cons b l ih => exact List.forall_mem_cons.mpr ⟨h.2.1, ih h.2.2.2⟩

/-- Blocks are described by the bytes of their interval. -/
lemma Segment.congr (h : Segment r p a c l) (heq : ∀ i, a ≤ i → i < c → r' i = r i) :
    Segment r' p a c l := by
  induction l generalizing a p with
  | nil => exact h
  | cons b l ih =>
      obtain ⟨rfl, hgood, hmem, hl⟩ := h
      have hle := hl.tiles.le
      have hroom := room_of_good hgood
      refine ⟨rfl, hgood, ?_, ih hl fun i hi hic => heq i (by omega) hic⟩
      rw [← hmem]
      exact mem_congr fun i hi hi' => heq i (by omega) (by omega)

/-- The first block gets another predecessor. -/
lemma Segment.relink (h : Segment r p a c l) (hq : q < 65536) :
    Segment (setPrev r a q) q a c l := by
  cases l with
  | nil => exact h
  | cons b l =>
      obtain ⟨rfl, hgood, hmem, hl⟩ := h
      have hroom := room_of_good hgood
      refine ⟨rfl, hgood, ?_, hl.congr fun i hi _ => setPrev_apply (by omega)⟩
      rw [mem_setPrev, hmem, Nat.mod_eq_of_lt hq]

/-- The same, where nothing is written at the end of the heap. -/
lemma Segment.relink_of_ne (h : Segment r p a c l) (hq : q < 65536) :
    Segment (if a ≠ c then setPrev r a q else r) q a c l := by
  split_ifs with hac
  · exact h.relink hq
  · obtain rfl : l = [] := by
      cases l with
      | nil => rfl
      | cons b l =>
          have hle := h.2.2.2.tiles.le
          have hroom := room_of_good h.2.1
          have hstart := h.1
          omega
    exact not_not.mp hac

/-- A segment ends at the end of the heap, or where a block starts. -/
lemma Segment.eq_or_mem (h : Segment r p a c l) : a = c ∨ ∃ b ∈ l, b.start = a := by
  cases l with
  | nil => exact Or.inl h
  | cons b l => exact Or.inr ⟨b, by simp, h.1⟩

lemma Frame.refl : Frame l r r := fun _ _ _ => rfl

lemma Frame.trans {r'' : Ram} (h : Frame l r r') (h' : Frame l r' r'') : Frame l r r'' :=
  fun i hi hy => (h' i hi hy).trans (h i hi hy)

lemma Frame.setNext (hp : ∃ b ∈ l, b.start = p) : Frame l r (setNext r p q) := by
  intro i _ hout
  obtain ⟨b, hb, rfl⟩ := hp
  exact setNext_apply (hout b hb)

lemma Frame.setUsed {u : UInt8} (hp : ∃ b ∈ l, b.start = p) : Frame l r (setUsed r p u) := by
  intro i _ hout
  obtain ⟨b, hb, rfl⟩ := hp
  exact setUsed_apply (hout b hb)

/-- A header at the end of the heap may be written. -/
lemma Frame.setPrev (hp : p = memSize ∨ ∃ b ∈ l, b.start = p) : Frame l r (setPrev r p q) := by
  intro i hi hout
  rcases hp with rfl | ⟨b, hb, rfl⟩
  · exact setPrev_apply (Or.inl hi)
  · exact setPrev_apply (hout b hb)

end Blocks

/-- The headers describe the blocks of the heap, and `ram_end` is in use. -/
structure Describes (r : Ram) (l : List Block) : Prop where
  segment : Segment r 0 0 memSize l
  top : (mem r memSize).used = true

/-! ### `plug_holes` and `mem_free` -/

section Freeing

variable {r : Ram} {h : Heap} {b : Block} {l l₁ l₂ : List Block}

/-- The parts of a heap around one of its blocks. -/
lemma Describes.split (hd : Describes r (l₁ ++ b :: l₂)) :
    Segment r 0 0 b.start l₁ ∧ b.start + 20 ≤ b.stop ∧ b.stop ≤ 1600 ∧
      mem r b.start = ⟨b.stop, lastStart 0 l₁, b.used⟩ ∧
        Segment r b.start b.stop memSize l₂ := by
  obtain ⟨s, h₁, rfl, hgood, hmem, h₂⟩ := segment_append.mp hd.segment
  exact ⟨h₁, room_of_good hgood, h₂.tiles.le, hmem, h₂⟩

lemma Describes.aligned (hd : Describes r l) (hb : b ∈ l) : 4 ∣ b.start ∧ 4 ∣ b.stop :=
  (hd.segment.good b hb).2

/-- Writing `prev` up to the end of the heap leaves `ram_end` in use. -/
lemma top_setPrev {p q : ℕ} (hp : p ≤ 1600) :
    (mem (setPrev r p q) memSize).used = (mem r memSize).used := by
  have hbyte : setPrev r p q (memSize + 4) = r (memSize + 4) :=
    putSize_apply (by rw [memSize]; omega)
  rw [mem, mem, hbyte]

/-- A merged block: its own header and the predecessor of what follows are written. -/
lemma Describes.merge {n : Block} (hd : Describes r (l₁ ++ b :: n :: l₂)) :
    Describes (setPrev (setNext r b.start n.stop) n.stop b.start)
      (l₁ ++ { b with stop := n.stop } :: l₂) := by
  obtain ⟨h₁, hroom, hle, hmem, hn, hgood, -, h₂⟩ := hd.split
  have hb := hd.segment.good b (by simp)
  have hroom' := room_of_good hgood
  have hle' : n.stop ≤ 1600 := h₂.tiles.le
  have hlow : ∀ i < b.start,
      setPrev (setNext r b.start n.stop) n.stop b.start i = r i := by
    intro i hi
    rw [setPrev_apply (by omega), setNext_apply (by omega)]
  have hrest : Segment (setNext r b.start n.stop) n.start n.stop memSize l₂ :=
    (hn ▸ h₂).congr fun i hi _ => setNext_apply (by omega)
  refine ⟨segment_append.mpr ⟨b.start, h₁.congr fun i _ hi => hlow i hi, rfl, ?_, ?_,
    hrest.relink (by omega)⟩, ?_⟩
  · have hgood' : b.start + 8 + 12 ≤ n.stop := by omega
    exact ⟨hgood', hb.2.1, hgood.2.2⟩
  · rw [mem_setPrev_of_ne (by omega), mem_setNext, hmem, Nat.mod_eq_of_lt (by omega)]
  · rw [top_setPrev hle', mem_setNext_of_ne (by rw [memSize]; omega)]
    exact hd.top

lemma plugForward_spec (hd : Describes h.ram (l₁ ++ b :: l₂)) (hfree : b.used = false)
    (hlow : h.lfree ≤ b.start) :
    Describes (plugForward b.start h).ram (l₁ ++ glue b l₂) ∧
      Frame (l₁ ++ b :: l₂) h.ram (plugForward b.start h).ram ∧
        (plugForward b.start h).lfree = h.lfree ∧ (plugForward b.start h).sane = h.sane := by
  obtain ⟨-, hroom, hle, hmem, h₂⟩ := hd.split
  have hkeep : (mem h.ram b.stop).used = true → plugForward b.start h = h := by
    intro hused
    rw [plugForward, hmem, if_neg (by simp [hused])]
  cases l₂ with
  | nil =>
      have hend : b.stop = memSize := h₂
      rw [hkeep (by rw [hend]; exact hd.top)]
      exact ⟨hd, Frame.refl, rfl, rfl⟩
  | cons n l₂ =>
      obtain ⟨hn, hgood, hmem', h₂⟩ := h₂
      have hroom' := room_of_good hgood
      have hle' : n.stop ≤ 1600 := h₂.tiles.le
      cases hused : n.used with
      | true =>
          rw [hkeep (by rw [hmem', hused]), glue_of_head_used hused]
          exact ⟨hd, Frame.refl, rfl, rfl⟩
      | false =>
          have hcond : b.start ≠ b.stop ∧ (mem h.ram b.stop).used = false ∧ b.stop ≠ 1600 := by
            rw [hmem']
            exact ⟨by omega, hused, by omega⟩
          have hplug : plugForward b.start h =
              { h with ram := setPrev (setNext h.ram b.start n.stop) n.stop b.start } := by
            rw [plugForward, hmem, if_pos hcond, hmem']
            dsimp only
            rw [mem_setNext_of_ne (by omega), hmem', if_neg (by omega)]
          rw [hplug, glue_of_free hfree hused]
          refine ⟨hd.merge, ?_, rfl, rfl⟩
          refine Frame.trans (Frame.setNext ⟨b, by simp, rfl⟩) (Frame.setPrev ?_)
          refine h₂.eq_or_mem.imp_right fun ⟨x, hx, heq⟩ => ⟨x, ?_, heq⟩
          exact List.mem_append_right _ (List.mem_cons_of_mem _ (List.mem_cons_of_mem _ hx))

lemma plugBackward_spec {x : Block} (hd : Describes h.ram (l₁ ++ x :: b :: l₂))
    (hfree : b.used = false) (hlow : x.used = false → h.lfree < b.start) :
    Describes (plugBackward b.start h).ram (l₁ ++ glue x (b :: l₂)) ∧
      Frame (l₁ ++ x :: b :: l₂) h.ram (plugBackward b.start h).ram ∧
        (plugBackward b.start h).lfree = h.lfree ∧ (plugBackward b.start h).sane = h.sane := by
  obtain ⟨-, hroom, hle, hmem, hb, hgood, hmem', h₂⟩ := hd.split
  have hroom' := room_of_good hgood
  have hle' : b.stop ≤ 1600 := h₂.tiles.le
  rw [← hb] at hmem'
  cases hused : x.used with
  | true =>
      rw [plugBackward, hmem', hmem, if_neg (by simp [hused]), glue_of_used hused]
      exact ⟨hd, Frame.refl, rfl, rfl⟩
  | false =>
      have hcond : x.start ≠ b.start ∧ (mem h.ram x.start).used = false := by
        rw [hmem]
        exact ⟨by omega, hused⟩
      have hlt := hlow hused
      have hplug : plugBackward b.start h =
          { h with ram := setPrev (setNext h.ram x.start b.stop) b.stop x.start } := by
        rw [plugBackward, hmem', if_pos hcond]
        dsimp only
        rw [mem_setNext_of_ne (by omega), hmem', if_neg (by omega)]
      rw [hplug, glue_of_free hused hfree]
      refine ⟨hd.merge, ?_, rfl, rfl⟩
      refine Frame.trans (Frame.setNext ⟨x, by simp, rfl⟩) (Frame.setPrev ?_)
      refine h₂.eq_or_mem.imp_right fun ⟨y, hy, heq⟩ => ⟨y, ?_, heq⟩
      exact List.mem_append_right _ (List.mem_cons_of_mem _ (List.mem_cons_of_mem _ hy))

/-- A block is marked, and stays where it is. -/
lemma Describes.mark {u : UInt8} (hd : Describes r (l₁ ++ b :: l₂)) :
    Describes (setUsed r b.start u) (l₁ ++ { b with used := u != 0 } :: l₂) := by
  obtain ⟨h₁, hroom, hle, hmem, h₂⟩ := hd.split
  have hgood := hd.segment.good b (by simp)
  refine ⟨segment_append.mpr ⟨b.start, h₁.congr fun i _ hi => setUsed_apply (by omega), rfl, hgood,
    ?_, h₂.congr fun i hi _ => setUsed_apply (by omega)⟩, ?_⟩
  · rw [mem_setUsed, hmem]
  · have htop : memSize = 1600 := rfl
    rw [mem_setUsed_of_ne (by omega)]
    exact hd.top

end Freeing

/-- The headers describe blocks of which no two neighbours are free, `lfree` is the lowest free
block, and no assertion has failed. -/
structure Inv (h : Heap) (l : List Block) : Prop where
  describes : Describes h.ram l
  separated : Separated l
  lfree : h.lfree = lowest memSize l
  sane : h.sane = true

section Freeing

variable {r r' : Ram} {h : Heap} {b : Block} {l l' l₁ l₂ : List Block}

lemma Inv.wf (hinv : Inv h l) : Wf sizeofMem minSize 4 0 memSize l :=
  ⟨hinv.describes.segment.tiles, hinv.describes.segment.good, hinv.separated⟩

lemma Frame.mono (hf : Frame l r r') (hsub : ∀ y ∈ l, ∃ z ∈ l', z.start = y.start) :
    Frame l' r r' := by
  intro i hi hout
  refine hf i hi fun y hy => ?_
  obtain ⟨z, hz, heq⟩ := hsub y hy
  rw [← heq]
  exact hout z hz

lemma mem_glue_start {y : Block} (hy : y ∈ glue b l) : ∃ z ∈ b :: l, z.start = y.start := by
  cases l with
  | nil => exact ⟨y, hy, rfl⟩
  | cons x l =>
      rw [glue] at hy
      split_ifs at hy
      · rcases List.mem_cons.mp hy with rfl | hy
        · exact ⟨b, by simp, rfl⟩
        · exact ⟨y, by simp [hy], rfl⟩
      · exact ⟨y, hy, rfl⟩

/-- `plug_holes` at a free block whose neighbours may be free. -/
lemma plugHoles_spec (hd : Describes h.ram (l₁ ++ b :: l₂)) (hfree : b.used = false)
    (hlow : h.lfree = lowest memSize (l₁ ++ b :: l₂)) (hsane : h.sane = true)
    (hsep₁ : Separated l₁) (hsep₂ : Separated l₂) :
    Inv (plugHoles b.start h) (coalesce (l₁ ++ b :: l₂)) ∧
      Frame (l₁ ++ b :: l₂) h.ram (plugHoles b.start h).ram := by
  obtain ⟨h₁, hroom, hle, hmem, h₂⟩ := hd.split
  have htiles := hd.segment.tiles
  have hassert : plugHoles b.start h = plugBackward b.start (plugForward b.start h) := by
    obtain ⟨ram, lfree, sane⟩ := h
    obtain rfl : sane = true := hsane
    have hlt : b.start < memSize := by rw [memSize]; omega
    have hle' : b.stop ≤ memSize := hle
    simp only [plugHoles, lwipAssert, hmem, hfree, hlt, hle', decide_true, Bool.not_false,
      Bool.and_self]
  have hle_lfree : h.lfree ≤ b.start := by
    rw [hlow]
    exact htiles.lowest_le (by simp) hfree
  obtain ⟨hd', hframe, hlfree, hsane'⟩ := plugForward_spec hd hfree hle_lfree
  obtain ⟨stop, l₃, hglue⟩ := glue_eq_cons b l₂
  rw [hassert]
  rcases List.eq_nil_or_concat l₁ with rfl | ⟨l₁, x, rfl⟩
  · -- there is nothing before the block, whose header names itself
    have hstart : 0 = b.start := h₁
    have hcoal : coalesce ([] ++ b :: l₂) = glue b l₂ := by
      rw [List.nil_append, coalesce, coalesce_of_separated hsep₂]
    have hmem' : mem (plugForward b.start h).ram b.start = ⟨stop, 0, b.used⟩ := by
      rw [hglue] at hd'
      exact hd'.split.2.2.2.1
    have hback : plugBackward b.start (plugForward b.start h) = plugForward b.start h := by
      rw [plugBackward, hmem', if_neg (by simp [hstart])]
    rw [hcoal, hback]
    refine ⟨⟨hd', separated_glue hsep₂, ?_, hsane'.trans hsane⟩, hframe⟩
    rw [hlfree, hlow, List.nil_append, lowest_glue]
  · rw [List.concat_eq_append] at *
    have hcoal : coalesce (l₁ ++ [x] ++ b :: l₂) = l₁ ++ glue x (glue b l₂) := by
      rw [List.append_assoc, List.singleton_append, coalesce_append hsep₁, coalesce,
        coalesce_of_separated hsep₂]
    have hlt : x.used = false → (plugForward b.start h).lfree < b.start := by
      intro hx
      have hx' := htiles.lowest_le (b := x) (by simp) hx
      have hbounds := h₁.tiles.mem_bounds (b := x) (by simp)
      rw [hlfree, hlow]
      omega
    rw [List.append_assoc, List.singleton_append, hglue] at hd'
    obtain ⟨hd'', hframe', hlfree', hsane''⟩ := plugBackward_spec hd' hfree hlt
    rw [← hglue] at hd'' hframe'
    rw [hcoal]
    refine ⟨⟨hd'', ?_, ?_, ?_⟩, hframe.trans (hframe'.mono ?_)⟩
    · rw [← hcoal]
      exact separated_coalesce _
    · exact hlfree'.trans (hlfree.trans (hlow.trans (by rw [← hcoal, lowest_coalesce])))
    · exact hsane''.trans (hsane'.trans hsane)
    · intro y hy
      rcases List.mem_append.mp hy with hy | hy
      · exact ⟨y, by simp [hy], rfl⟩
      · rcases List.mem_cons.mp hy with rfl | hy
        · exact ⟨y, by simp, rfl⟩
        · obtain ⟨z, hz, heq⟩ := mem_glue_start hy
          exact ⟨z, List.mem_append_right _ hz, heq⟩

/-- `mem_free` of a block in use. -/
lemma memFree_spec (hinv : Inv h (l₁ ++ b :: l₂)) (hused : b.used = true) :
    Inv (memFree (some (b.start + 8)) h) (release b.start (l₁ ++ b :: l₂)) ∧
      Frame (l₁ ++ b :: l₂) h.ram (memFree (some (b.start + 8)) h).ram := by
  obtain ⟨hd, hsep, hlfree, hsane⟩ := hinv
  obtain ⟨h₁, hroom, hle, hmem, h₂⟩ := hd.split
  obtain ⟨hsep₁, hsep₂, -⟩ := List.isChain_append.mp hsep
  have htiles := hd.segment.tiles
  have haligned := hd.aligned (b := b) (by simp)
  have hmark : Describes (setUsed h.ram b.start 0) (l₁ ++ { b with used := false } :: l₂) := hd.mark
  have hlow : (if b.start < h.lfree then b.start else h.lfree) =
      lowest memSize (l₁ ++ { b with used := false } :: l₂) := by
    rw [hlfree]
    refine (Tiles.lowest_insert (b := { b with used := false }) h₁.tiles (Nat.le_refl _) rfl
      ?_).symm
    have hlt : b.start < lowest memSize l₂ :=
      Nat.lt_of_lt_of_le (by omega) h₂.tiles.le_lowest
    rw [lowest_of_used hused]
    exact hlt
  have hfree : memFree (some (b.start + 8)) h = plugHoles b.start
      ⟨setUsed h.ram b.start 0, if b.start < h.lfree then b.start else h.lfree, true⟩ := by
    obtain ⟨ram, lfree, sane⟩ := h
    obtain rfl : sane = true := hsane
    have hlt : b.start + 8 < memSize := by rw [memSize]; omega
    have hmod : (b.start + 8) % 4 = 0 := by omega
    simp only [memFree, lwipAssert, hlt, hmod, decide_true, Bool.and_self, Nat.not_le.mpr hlt,
      if_false, Nat.add_sub_cancel, hmem, hused]
  obtain ⟨hinv', hframe⟩ := plugHoles_spec (b := { b with used := false })
    (h := ⟨_, if b.start < h.lfree then b.start else h.lfree, true⟩) hmark rfl hlow rfl hsep₁
    (List.IsChain.tail hsep₂)
  rw [hfree, release_append htiles]
  refine ⟨hinv', Frame.trans (Frame.setUsed ⟨b, by simp, rfl⟩) (hframe.mono ?_)⟩
  intro y hy
  rcases List.mem_append.mp hy with hy | hy
  · exact ⟨y, by simp [hy], rfl⟩
  · rcases List.mem_cons.mp hy with rfl | hy
    · exact ⟨b, by simp, rfl⟩
    · exact ⟨y, by simp [hy], rfl⟩

end Freeing

/-! ### `mem_trim` -/

section Trimming

variable {r r' : Ram} {h : Heap} {b : Block} {l l₁ l₂ : List Block} {cut t p : ℕ} {u : Bool}

/-- The area from `b.start` to `t` is described as two blocks. -/
lemma describes_cut (h₁ : Segment r 0 0 b.start l₁) (h₂ : Segment r p t memSize l₂)
    (htop : (mem r memSize).used = true) (hroom : b.start + 20 ≤ cut) (hroom' : cut + 20 ≤ t)
    (ha : 4 ∣ b.start) (hcut : 4 ∣ cut) (ht : 4 ∣ t)
    (hmem : mem r' b.start = ⟨cut, lastStart 0 l₁, u⟩) (hmem' : mem r' cut = ⟨t, b.start, false⟩)
    (hsame : ∀ i, i < b.start ∨ t ≤ i → r' i = r i)
    (hframe : Frame (l₁ ++ ⟨b.start, cut, u⟩ :: ⟨cut, t, false⟩ :: l₂) r r') :
    Describes (if t ≠ memSize then setPrev r' t cut else r')
        (l₁ ++ ⟨b.start, cut, u⟩ :: ⟨cut, t, false⟩ :: l₂) ∧
      Frame (l₁ ++ ⟨b.start, cut, u⟩ :: ⟨cut, t, false⟩ :: l₂) r
        (if t ≠ memSize then setPrev r' t cut else r') := by
  have hle : t ≤ 1600 := h₂.tiles.le
  have hlow : ∀ i < t, (if t ≠ memSize then setPrev r' t cut else r') i = r' i := by
    intro i hi
    split_ifs
    · exact setPrev_apply (Or.inl hi)
    · rfl
  have h₂' : Segment r' p t memSize l₂ := h₂.congr fun i hi _ => hsame i (Or.inr hi)
  have hfirst := (mem_congr fun i _ hi => hlow i (by omega)).trans hmem
  have hsecond := (mem_congr fun i _ hi => hlow i (by omega)).trans hmem'
  refine ⟨⟨segment_append.mpr ⟨b.start, h₁.congr fun i _ hi => ?_, rfl, ⟨hroom, ha, hcut⟩, hfirst,
    rfl, ⟨hroom', hcut, ht⟩, hsecond, h₂'.relink_of_ne (by omega)⟩, ?_⟩, ?_⟩
  · rw [hlow i (by omega), hsame i (Or.inl hi)]
  · have htop' : mem r' memSize = mem r memSize :=
      mem_congr fun i hi hi' => hsame i (Or.inr (Nat.le_trans hle hi))
    split_ifs
    · rw [top_setPrev hle, htop', htop]
    · rw [htop', htop]
  · split_ifs
    · refine hframe.trans (Frame.setPrev (h₂.eq_or_mem.imp_right fun ⟨y, hy, heq⟩ => ⟨y, ?_, heq⟩))
      simp [hy]
    · exact hframe

/-- `mem_trim` writes the two headers, and the predecessor of what follows. -/
lemma putUnused_spec {q size : ℕ} (h₁ : Segment r 0 0 b.start l₁) (h₂ : Segment r p t memSize l₂)
    (htop : (mem r memSize).used = true) (hmem : mem r b.start = ⟨q, lastStart 0 l₁, b.used⟩)
    (hsize : 12 ≤ size) (hend : b.start + 8 + size = cut) (hroom : cut + 20 ≤ t)
    (ha : 4 ∣ b.start) (hcut : 4 ∣ cut) (ht : 4 ∣ t) :
    Describes (putUnused b.start size t r)
        (l₁ ++ ⟨b.start, cut, b.used⟩ :: ⟨cut, t, false⟩ :: l₂) ∧
      Frame (l₁ ++ ⟨b.start, cut, b.used⟩ :: ⟨cut, t, false⟩ :: l₂)
        r (putUnused b.start size t r) := by
  have hle : t ≤ 1600 := h₂.tiles.le
  have hmod : (b.start + sizeofMem + size) % 65536 = cut := by
    rw [show b.start + sizeofMem + size = cut from hend, Nat.mod_eq_of_lt (by omega)]
  obtain ⟨r', hr'⟩ :
      ∃ r', setNext (setPrev (setNext (setUsed r cut 0) cut t) cut b.start) b.start cut = r' :=
    ⟨_, rfl⟩
  have hfirst : mem r' b.start = ⟨cut, lastStart 0 l₁, b.used⟩ := by
    rw [← hr', mem_setNext, mem_setPrev_of_ne (by omega), mem_setNext_of_ne (by omega),
      mem_setUsed_of_ne (by omega), hmem, Nat.mod_eq_of_lt (by omega)]
  have hsecond : mem r' cut = ⟨t, b.start, false⟩ := by
    rw [← hr', mem_setNext_of_ne (by omega), mem_setPrev, mem_setNext, mem_setUsed,
      Nat.mod_eq_of_lt (by omega), Nat.mod_eq_of_lt (by omega)]
    rfl
  have hsame : ∀ i, i < b.start ∨ t ≤ i → r' i = r i := by
    intro i hi
    rw [← hr', setNext_apply (by omega), setPrev_apply (by omega), setNext_apply (by omega),
      setUsed_apply (by omega)]
  have hput : putUnused b.start size t r = if t ≠ memSize then setPrev r' t cut else r' := by
    simp only [putUnused, hmod, hr', hsecond]
  rw [hput]
  refine describes_cut h₁ h₂ htop (by omega) hroom ha hcut ht hfirst hsecond hsame ?_
  have hb : ∃ y ∈ l₁ ++ ⟨b.start, cut, b.used⟩ :: ⟨cut, t, false⟩ :: l₂, y.start = b.start :=
    ⟨_, List.mem_append_right _ (List.mem_cons_self ..), rfl⟩
  have hc : ∃ y ∈ l₁ ++ ⟨b.start, cut, b.used⟩ :: ⟨cut, t, false⟩ :: l₂, y.start = cut :=
    ⟨⟨cut, t, false⟩, by simp, rfl⟩
  rw [← hr']
  exact ((Frame.setUsed hc).trans (Frame.setNext hc)).trans
    ((Frame.setPrev (Or.inr hc)).trans (Frame.setNext hb))

lemma le_blockSize (size : UInt16) : 12 ≤ blockSize size := by
  rw [blockSize]
  split_ifs with hlt
  · exact Nat.le_refl _
  · exact Nat.not_lt.mp hlt

lemma dvd_blockSize (size : UInt16) : 4 ∣ blockSize size := by
  have halign : 4 ∣ alignSize size.toNat := by
    rw [alignSize]
    omega
  rw [blockSize]
  split_ifs
  · exact ⟨3, rfl⟩
  · exact halign

/-- All sizes but the last three are rounded up. -/
lemma toNat_le_blockSize {size : UInt16} (hsize : size.toNat ≤ 65532) :
    size.toNat ≤ blockSize size := by
  have halign : size.toNat ≤ alignSize size.toNat := by
    rw [alignSize]
    omega
  rw [blockSize]
  split_ifs with hlt
  · exact Nat.le_trans halign (Nat.le_of_lt hlt)
  · exact halign

lemma areaSize_eq {q : ℕ} (hmem : mem r b.start = ⟨b.stop, q, u⟩) (hroom : b.start + 20 ≤ b.stop)
    (hle : b.stop ≤ 1600) : areaSize r b.start = b.stop - (b.start + 8) := by
  rw [areaSize, hmem, sizeofMem]
  dsimp only
  omega

/-- What `mem_trim` does once its checks have passed. -/
lemma memTrim_eq {newsize : UInt16} (hinv : Inv h (l₁ ++ b :: l₂))
    (hfits : b.start + 8 + blockSize newsize ≤ b.stop) :
    memTrim (b.start + 8) newsize h =
      (some (b.start + 8),
        if b.start + 8 + blockSize newsize = b.stop then h
        else if (mem h.ram b.stop).used = false then
          { h with
            lfree := if h.lfree = b.stop then b.start + 8 + blockSize newsize else h.lfree
            ram := putUnused b.start (blockSize newsize) (mem h.ram b.stop).next h.ram }
        else if b.start + 8 + blockSize newsize + 20 ≤ b.stop then
          { h with
            lfree :=
              if b.start + 8 + blockSize newsize < h.lfree then b.start + 8 + blockSize newsize
              else h.lfree
            ram := putUnused b.start (blockSize newsize) b.stop h.ram }
        else h) := by
  obtain ⟨-, hroom, hle, hmem, -⟩ := hinv.describes.split
  have harea := areaSize_eq hmem hroom hle
  have hsane := hinv.sane
  obtain ⟨ram, lfree, sane⟩ := h
  obtain rfl : sane = true := hsane
  have hmod : (b.stop - (b.start + 8)) % 65536 = b.stop - (b.start + 8) :=
    Nat.mod_eq_of_lt (by omega)
  have hmod' : (b.start + sizeofMem + blockSize newsize) % 65536 =
      b.start + 8 + blockSize newsize :=
    Nat.mod_eq_of_lt (by rw [sizeofMem]; omega)
  have hsmall : ¬ memSize < blockSize newsize := by rw [memSize]; omega
  have hlegal : b.start + 8 < memSize := by rw [memSize]; omega
  have hshrink : blockSize newsize ≤ b.stop - (b.start + 8) := by omega
  simp only [memTrim, lwipAssert, hsmall, if_false, hlegal, Nat.not_le.mpr hlegal, decide_true,
    Bool.and_self, Nat.add_sub_cancel, harea, hmod, hmod', hshrink, Nat.not_lt.mpr hshrink, hmem]
  have hsame : blockSize newsize = b.stop - (b.start + 8) ↔
      b.start + 8 + blockSize newsize = b.stop := by omega
  have hleft : blockSize newsize + sizeofMem + minSize ≤ b.stop - (b.start + 8) ↔
      b.start + 8 + blockSize newsize + 20 ≤ b.stop := by
    rw [sizeofMem, minSize]
    omega
  simp only [hsame, hleft]
  split_ifs <;> rfl

/-- Whether the block behind `b` is free can be read from its header. -/
lemma Describes.head_free (hd : Describes r (l₁ ++ b :: l₂)) :
    (l₂.head?.any fun n => !n.used) = !(mem r b.stop).used := by
  obtain ⟨-, -, -, -, h₂⟩ := hd.split
  cases l₂ with
  | nil =>
      have hend : b.stop = memSize := h₂
      rw [hend, hd.top]
      rfl
  | cons n l₂ =>
      rw [h₂.2.2.1]
      rfl

/-- The block behind is free, and its header is moved. -/
lemma putUnused_move {n : Block} {size : ℕ} (hinv : Inv h (l₁ ++ b :: n :: l₂))
    (hused : b.used = true) (hfree : n.used = false) (hsize : 12 ≤ size)
    (hend : b.start + 8 + size = cut) (hcut : cut < b.stop) (ha : 4 ∣ cut)
    (hsep : Separated (l₁ ++ { b with stop := cut } :: ⟨cut, n.stop, false⟩ :: l₂)) :
    Inv { h with
        lfree := if h.lfree = b.stop then cut else h.lfree
        ram := putUnused b.start size n.stop h.ram }
        (l₁ ++ { b with stop := cut } :: ⟨cut, n.stop, false⟩ :: l₂) ∧
      Frame (l₁ ++ { b with stop := cut } :: ⟨cut, n.stop, false⟩ :: l₂) h.ram
        (putUnused b.start size n.stop h.ram) := by
  obtain ⟨hd, -, hlfree, hsane⟩ := hinv
  obtain ⟨h₁, hroom, hle, hmem, hn, hgood, hmem', h₂⟩ := hd.split
  have hroom' := room_of_good hgood
  obtain ⟨hd', hframe⟩ := putUnused_spec h₁ h₂ hd.top hmem hsize hend (by omega)
    (hd.aligned (b := b) (by simp)).1 ha hgood.2.2
  refine ⟨⟨hd', hsep, ?_, hsane⟩, hframe⟩
  dsimp only
  rw [hlfree, lowest_append_of_used hused,
    lowest_append_of_used (b := { b with stop := cut }) hused]
  rcases h₁.tiles.lowest_append with hall | ⟨p, hp, hlow⟩
  · rw [hall, hall, lowest_of_free hfree, if_pos hn, lowest_of_free rfl]
  · rw [hlow, hlow, if_neg (by omega)]

/-- The block behind is in use, and what is left over becomes a block. -/
lemma putUnused_insert {size : ℕ} (hinv : Inv h (l₁ ++ b :: l₂))
    (hused : b.used = true) (hsize : 12 ≤ size)
    (hend : b.start + 8 + size = cut) (hcut : cut + 20 ≤ b.stop) (ha : 4 ∣ cut)
    (hsep : Separated (l₁ ++ { b with stop := cut } :: ⟨cut, b.stop, false⟩ :: l₂)) :
    Inv { h with
        lfree := if cut < h.lfree then cut else h.lfree
        ram := putUnused b.start size b.stop h.ram }
        (l₁ ++ { b with stop := cut } :: ⟨cut, b.stop, false⟩ :: l₂) ∧
      Frame (l₁ ++ { b with stop := cut } :: ⟨cut, b.stop, false⟩ :: l₂) h.ram
        (putUnused b.start size b.stop h.ram) := by
  obtain ⟨hd, -, hlfree, hsane⟩ := hinv
  obtain ⟨h₁, hroom, hle, hmem, h₂⟩ := hd.split
  have haligned := hd.aligned (b := b) (by simp)
  obtain ⟨hd', hframe⟩ := putUnused_spec h₁ h₂ hd.top hmem hsize hend hcut haligned.1 ha
    haligned.2
  refine ⟨⟨hd', hsep, ?_, hsane⟩, hframe⟩
  dsimp only
  rw [hlfree, lowest_append_of_used hused,
    lowest_append_of_used (b := { b with stop := cut }) hused]
  have hlt : cut < lowest memSize l₂ := Nat.lt_of_lt_of_le (by omega) h₂.tiles.le_lowest
  have hle' : b.start ≤ cut := by omega
  exact (Tiles.lowest_insert (b := ⟨cut, b.stop, false⟩) h₁.tiles hle' rfl hlt).symm

/-- `mem_trim` of a block in use to a size that it has. -/
lemma memTrim_spec {newsize : UInt16} (hinv : Inv h (l₁ ++ b :: l₂)) (hused : b.used = true)
    (hfits : b.start + 8 + blockSize newsize ≤ b.stop) :
    ∃ h', memTrim (b.start + 8) newsize h = (some (b.start + 8), h') ∧
      Inv h' (l₁ ++ giveBack sizeofMem minSize (blockSize newsize) b l₂) ∧
        Frame (l₁ ++ giveBack sizeofMem minSize (blockSize newsize) b l₂) h.ram h'.ram := by
  have hsize := le_blockSize newsize
  have hdvd := dvd_blockSize newsize
  have haligned := hinv.describes.aligned (b := b) (by simp)
  have hsep := (hinv.wf.giveBack (by decide) hsize (by rw [sizeofMem]; omega) hfits hused).separated
  have hhead := hinv.describes.head_free
  refine ⟨_, memTrim_eq hinv hfits, ?_⟩
  obtain ⟨cut, hcut⟩ : ∃ cut, b.start + 8 + blockSize newsize = cut := ⟨_, rfl⟩
  have hcut' : b.start + sizeofMem + blockSize newsize = cut := hcut
  rw [giveBack, hcut', hhead] at hsep ⊢
  rw [hcut] at hfits
  by_cases hend : cut = b.stop
  · rw [if_pos hend, if_pos hend]
    exact ⟨hinv, Frame.refl⟩
  rw [if_neg hend] at hsep ⊢
  rw [if_neg hend]
  cases hnext : (mem h.ram b.stop).used with
  | false =>
      have hmove : (!false) = true ∨ cut + (sizeofMem + minSize) ≤ b.stop := Or.inl rfl
      rw [hnext] at hhead hsep
      rw [if_pos hmove] at hsep ⊢
      rw [if_pos rfl]
      cases l₂ with
      | nil => cases hhead
      | cons n l₂ =>
          have hfree : n.used = false := by simpa using hhead
          have hmem := hinv.describes.split.2.2.2.2.2.2.1
          rw [glue_of_free rfl hfree] at hsep ⊢
          rw [hmem]
          exact putUnused_move hinv hused hfree hsize hcut (by omega) (by omega) hsep
  | true =>
      rw [hnext, Bool.not_true] at hhead hsep
      rw [if_neg (by simp)]
      have hroom : (false = true ∨ cut + (sizeofMem + minSize) ≤ b.stop) ↔ cut + 20 ≤ b.stop :=
        or_iff_right (by simp)
      have hglue : glue ⟨cut, b.stop, false⟩ l₂ = ⟨cut, b.stop, false⟩ :: l₂ := by
        cases l₂ with
        | nil => rfl
        | cons n l₂ => exact glue_of_head_used (by simpa using hhead)
      rw [hglue] at hsep ⊢
      simp only [Bool.not_true, hroom] at hsep ⊢
      by_cases hleft : cut + 20 ≤ b.stop
      · rw [if_pos hleft] at hsep ⊢
        rw [if_pos hleft]
        exact putUnused_insert hinv hused hsize hcut hleft (by omega) hsep
      · rw [if_neg hleft, if_neg hleft]
        exact ⟨hinv, Frame.refl⟩

end Trimming

/-! ### `mem_malloc` -/

section Allocating

variable {r r' : Ram} {h : Heap} {b : Block} {l l₁ l₂ : List Block} {a p size fuel : ℕ}

lemma Segment.length_le {c : ℕ} (hseg : Segment r p a c l) : a + 20 * l.length ≤ c := by
  induction l generalizing a p with
  | nil => exact Nat.le_of_eq hseg
  | cons b l ih =>
      have hroom := room_of_good hseg.2.1
      have hle := ih hseg.2.2.2
      have hstart := hseg.1
      rw [List.length_cons]
      omega

lemma searchFree_spec (hseg : Segment r p a memSize l) (hfuel : l.length < fuel) :
    searchFree r size fuel a = some ((alloc sizeofMem minSize size l).map Prod.fst) := by
  induction l generalizing a p fuel with
  | nil =>
      obtain ⟨fuel, rfl⟩ : ∃ n, fuel = n + 1 := ⟨fuel - 1, by simp at hfuel; omega⟩
      obtain rfl : a = memSize := hseg
      rw [searchFree, if_neg (by rw [memSize]; omega)]
      rfl
  | cons b l ih =>
      obtain ⟨fuel, rfl⟩ : ∃ n, fuel = n + 1 := ⟨fuel - 1, by simp at hfuel; omega⟩
      have htiles := hseg.tiles
      obtain ⟨rfl, hgood, hmem, hl⟩ := hseg
      have hroom := room_of_good hgood
      have hle : b.stop ≤ 1600 := hl.tiles.le
      have harea := areaSize_eq hmem hroom hle
      have hfits : (mem r b.start).used = false ∧ size ≤ areaSize r b.start ↔
          Fits sizeofMem size b := by
        rw [hmem, harea, Fits, sizeofMem]
        exact and_congr_right fun _ => by omega
      rw [searchFree]
      split_ifs with hlt hfit
      · rw [alloc, if_pos (hfits.mp hfit)]
        rfl
      · rw [alloc, if_neg (mt hfits.mpr hfit), hmem, Option.map_map,
          ih hl (by simpa using hfuel)]
        rfl
      · have hnone : ∀ x ∈ b :: l, ¬ Fits sizeofMem size x := by
          intro x hx hfit
          have hbounds := htiles.mem_bounds hx
          have hroom' : x.start + 8 + size ≤ x.stop := hfit.2
          rw [memSize] at *
          omega
        rw [alloc_eq_none_iff.mpr hnone]
        rfl

lemma adjustLfree_spec (hseg : Segment r p a memSize l) (hfuel : l.length < fuel) :
    adjustLfree r fuel a = some (lowest memSize l) := by
  induction l generalizing a p fuel with
  | nil =>
      obtain ⟨fuel, rfl⟩ : ∃ n, fuel = n + 1 := ⟨fuel - 1, by simp at hfuel; omega⟩
      obtain rfl : a = memSize := hseg
      rw [adjustLfree, if_neg (by simp)]
      rfl
  | cons b l ih =>
      obtain ⟨fuel, rfl⟩ : ∃ n, fuel = n + 1 := ⟨fuel - 1, by simp at hfuel; omega⟩
      obtain ⟨rfl, hgood, hmem, hl⟩ := hseg
      have hroom := room_of_good hgood
      have hle : b.stop ≤ 1600 := hl.tiles.le
      have hne : b.start ≠ 1600 := by omega
      rw [adjustLfree, hmem, lowest]
      cases hused : b.used with
      | true => 
          rw [if_pos ⟨rfl, hne⟩, if_pos rfl]
          exact ih hl (by simpa using hfuel)
      | false => rw [if_neg (by simp), if_neg (by simp)]

/-- The area that is taken: one header is written, or two and the predecessor of what follows. -/
lemma takeArea_spec (hd : Describes r (l₁ ++ b :: l₂)) (hsize : 12 ≤ size) (hdvd : 4 ∣ size)
    (hfits : b.start + 8 + size ≤ b.stop) :
    Describes (takeArea b.start size r) (l₁ ++ (allot sizeofMem minSize size b ++ l₂)) ∧
      Frame (l₁ ++ (allot sizeofMem minSize size b ++ l₂)) r (takeArea b.start size r) := by
  obtain ⟨h₁, hroom, hle, hmem, h₂⟩ := hd.split
  have haligned := hd.aligned (b := b) (by simp)
  have harea := areaSize_eq hmem hroom hle
  have hsplit : size + sizeofMem + minSize ≤ areaSize r b.start ↔
      b.start + sizeofMem + size + (sizeofMem + minSize) ≤ b.stop := by
    rw [harea, sizeofMem, minSize]
    omega
  rw [takeArea, allot]
  simp only [hsplit]
  by_cases hleft : b.start + sizeofMem + size + (sizeofMem + minSize) ≤ b.stop
  · rw [if_pos hleft, if_pos hleft]
    obtain ⟨cut, hcut⟩ : ∃ cut, b.start + 8 + size = cut := ⟨_, rfl⟩
    have hcut' : b.start + sizeofMem + size = cut := hcut
    rw [hcut'] at hleft ⊢
    have hleft' : cut + 20 ≤ b.stop := hleft
    have hmod : cut % 65536 = cut := Nat.mod_eq_of_lt (by omega)
    obtain ⟨r', hr'⟩ : ∃ r', setUsed (setNext (setPrev (setNext (setUsed r cut 0) cut b.stop) cut
        b.start) b.start cut) b.start 1 = r' := ⟨_, rfl⟩
    have hnext : mem (setUsed r cut 0) b.start = mem r b.start := mem_setUsed_of_ne (by omega)
    have hfirst : mem r' b.start = ⟨cut, lastStart 0 l₁, true⟩ := by
      rw [← hr', mem_setUsed, mem_setNext, mem_setPrev_of_ne (by omega),
        mem_setNext_of_ne (by omega), hnext, hmem, hmod]
      rfl
    have hsecond : mem r' cut = ⟨b.stop, b.start, false⟩ := by
      rw [← hr', mem_setUsed_of_ne (by omega), mem_setNext_of_ne (by omega), mem_setPrev,
        mem_setNext, mem_setUsed, Nat.mod_eq_of_lt (by omega), Nat.mod_eq_of_lt (by omega)]
      rfl
    have hsame : ∀ i, i < b.start ∨ b.stop ≤ i → r' i = r i := by
      intro i hi
      rw [← hr', setUsed_apply (by omega), setNext_apply (by omega), setPrev_apply (by omega),
        setNext_apply (by omega), setUsed_apply (by omega)]
    rw [hmod, hnext, hmem]
    dsimp only
    rw [hr', hsecond]
    refine describes_cut h₁ h₂ hd.top (by omega) hleft' haligned.1 (by omega) haligned.2 hfirst
      hsecond hsame ?_
    have hb : ∃ y ∈ l₁ ++ ⟨b.start, cut, true⟩ :: ⟨cut, b.stop, false⟩ :: l₂, y.start = b.start :=
      ⟨_, List.mem_append_right _ (List.mem_cons_self ..), rfl⟩
    have hc : ∃ y ∈ l₁ ++ ⟨b.start, cut, true⟩ :: ⟨cut, b.stop, false⟩ :: l₂, y.start = cut :=
      ⟨⟨cut, b.stop, false⟩, by simp, rfl⟩
    rw [← hr']
    exact ((Frame.setUsed hc).trans (Frame.setNext hc)).trans
      (((Frame.setPrev (Or.inr hc)).trans (Frame.setNext hb)).trans (Frame.setUsed hb))
  · rw [if_neg hleft, if_neg hleft]
    exact ⟨hd.mark, Frame.setUsed ⟨_, List.mem_append_right _ (List.mem_cons_self ..), rfl⟩⟩

/-- The header of the lowest free block says so. -/
lemma Segment.lowest_unused (hseg : Segment r p a memSize l) :
    lowest memSize l = memSize ∨ (mem r (lowest memSize l)).used = false := by
  induction l generalizing a p with
  | nil => exact Or.inl rfl
  | cons b l ih =>
      obtain ⟨rfl, -, hmem, hl⟩ := hseg
      cases hused : b.used with
      | true =>
          rw [lowest_of_used hused]
          exact ih hl
      | false => exact Or.inr (by rw [lowest_of_free hused, hmem, hused])

/-- `lfree` becomes the lowest free block after the block at its place was taken. -/
lemma updateLfree_spec (hd : Describes r (l₁ ++ (allot sizeofMem minSize size b ++ l₂)))
    (h₁ : Tiles 0 b.start l₁) (hfree : b.used = false) :
    updateLfree b.start ⟨r, lowest memSize (l₁ ++ b :: l₂), true⟩ =
      some ⟨r, lowest memSize (l₁ ++ (allot sizeofMem minSize size b ++ l₂)), true⟩ := by
  rw [updateLfree]
  rcases h₁.lowest_append with hall | ⟨q, hq, hlow⟩
  · obtain ⟨s, hs₁, hs₂⟩ := segment_append.mp hd.segment
    obtain rfl := h₁.end_unique hs₁.tiles
    have hlen : b.start + 20 * _ ≤ 1600 := hs₂.length_le
    have hassert : (decide (lowest memSize (allot sizeofMem minSize size b ++ l₂) = memSize) ||
        !(mem r (lowest memSize (allot sizeofMem minSize size b ++ l₂))).used) = true := by
      rcases hs₂.lowest_unused with hend | hunused
      · simp [hend]
      · simp [hunused]
    rw [hall, hall, lowest_of_free hfree, if_pos rfl]
    dsimp only
    rw [adjustLfree_spec hs₂ (by omega), Option.map_some, lwipAssert, hassert]
    rfl
  · rw [hlow, hlow, if_neg (by dsimp only; omega)]

/-- The search begins at the lowest free block, and misses nothing. -/
lemma Inv.searchFree_eq (hinv : Inv h l) (size : ℕ) :
    searchFree h.ram size 65536 h.lfree =
      some ((alloc sizeofMem minSize size l).map Prod.fst) := by
  obtain ⟨l₁, l₂, rfl, htiles, hused⟩ := hinv.wf.tiles.exists_lowest
  obtain ⟨s, h₁, h₂⟩ := segment_append.mp hinv.describes.segment
  obtain rfl := htiles.end_unique h₁.tiles
  have hlen : lowest 1600 (l₁ ++ l₂) + 20 * l₂.length ≤ 1600 := h₂.length_le
  rw [hinv.lfree, searchFree_spec h₂ (by omega), alloc_append, Option.map_map]
  · rfl
  · intro x hx hfit
    have hfree := hfit.1
    rw [hused x hx] at hfree
    cases hfree

/-- `mem_malloc` takes the lowest block that fits, and returns. -/
lemma memMalloc_spec {size : UInt16} {l' : List Block} (hinv : Inv h l) (hsize : size ≠ 0)
    (halloc : alloc sizeofMem minSize (blockSize size) l = some (p, l')) :
    ∃ h', memMalloc size h = some (some (p + 8), h') ∧ Inv h' l' ∧ Frame l' h.ram h'.ram := by
  have hsep := (hinv.wf.alloc (by decide) (le_blockSize size)
    (by have := dvd_blockSize size; rw [sizeofMem]; omega) halloc).separated
  have hsearch := hinv.searchFree_eq (blockSize size)
  rw [halloc] at hsearch
  obtain ⟨l₁, b, l₂, rfl, -, ⟨hfree, hfits⟩, rfl, rfl⟩ := alloc_eq_some halloc
  have hroom : b.start + 8 + blockSize size ≤ b.stop := hfits
  obtain ⟨h₁, -, hle, -, -⟩ := hinv.describes.split
  have haligned := hinv.describes.aligned (b := b) (by simp)
  obtain ⟨hd', hframe⟩ :=
    takeArea_spec hinv.describes (le_blockSize size) (dvd_blockSize size) hfits
  have hsmall : ¬ memSize < blockSize size := by rw [memSize]; omega
  have hlfree := hinv.lfree
  have hsane := hinv.sane
  obtain ⟨ram, lfree, sane⟩ := h
  obtain rfl : sane = true := hsane
  obtain rfl : lfree = _ := hlfree
  refine ⟨⟨takeArea b.start (blockSize size) ram, _, true⟩, ?_, ⟨hd', hsep, rfl, rfl⟩, hframe⟩
  -- the assertions hold
  have hend : b.start + sizeofMem + blockSize size ≤ memSize := by rw [sizeofMem, memSize]; omega
  have hmod : b.start % 4 = 0 := by omega
  have hmod' : (b.start + sizeofMem) % 4 = 0 := by rw [sizeofMem]; omega
  simp only [memMalloc, hsize, if_false, hsmall, hsearch, Option.map_some,
    updateLfree_spec hd' h₁.tiles hfree, lwipAssert, hend, hmod, hmod', decide_true, Bool.and_self]

/-- `mem_malloc` returns `NULL` if no block fits. -/
lemma memMalloc_eq_none {size : UInt16} (hinv : Inv h l)
    (hnone : alloc sizeofMem minSize (blockSize size) l = none) :
    memMalloc size h = some (none, h) := by
  have hsearch := hinv.searchFree_eq (blockSize size)
  rw [hnone] at hsearch
  rw [memMalloc, hsearch]
  split_ifs <;> rfl

end Allocating

end Stm32Ecm.Net
