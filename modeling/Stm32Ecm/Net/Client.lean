import Mathlib.Algebra.Order.BigOperators.Group.List
import Mathlib.Algebra.Order.Ring.Nat
import Mathlib.Data.List.InsertIdx
import Stm32Ecm.Library.Run
import Stm32Ecm.Net.Heap

/-!
The heap of lwIP under arbitrary sequences of calls.

A client keeps the pointers that `mem_malloc` has returned, frees and trims only these, and stores
bytes only inside what it has asked for (`Permitted`).  It asks for at most 65532 bytes:
`LWIP_MEM_ALIGN_SIZE` wraps to `0` above.

* `Blocks`: the same calls on a list of blocks, by first fit;
* `Sim`: the list describes the heap, and its blocks in use are those of the client;
* `heap_safe`: every call returns, no assertion fails, what the client holds does not overlap and
  keeps the bytes stored in it;
* `returned_eq`: the pointers are those of first fit;
* `returned_of_live_nil`: when everything has been freed, the heap serves the calls that follow
  as after `mem_init`.
-/

namespace Stm32Ecm.Net

open FirstFit Transition

/-- What the client keeps of an allocation: the pointer, the bytes it has asked for, and the bytes
it has stored. -/
structure Allocation where
  ptr : ℕ
  size : UInt16
  data : ℕ → Option UInt8

structure Client where
  heap : Heap
  live : List Allocation

/-- After `mem_init`. -/
def Client.initial : Client := ⟨memInit, []⟩

/-- The calls of the client, and its writes; `i` is one of its allocations. -/
inductive Call where
  | malloc (size : UInt16)
  | free (i : ℕ)
  | trim (i : ℕ) (newsize : UInt16)
  | store (i off : ℕ) (v : UInt8)
  deriving DecidableEq

/-- The client uses what it holds. -/
def Permitted (s : Client) : Call → Prop
  | .malloc size => size.toNat ≤ 65532
  | .free i => i < s.live.length
  | .trim i newsize => ∃ x, s.live[i]? = some x ∧ newsize ≤ x.size
  | .store i off _ => ∃ x, s.live[i]? = some x ∧ off < x.size.toNat

/-- A call, `none` if it does not return or there is no such allocation. -/
def Client.step (s : Client) : Call → Option Client
  | .malloc size =>
      (memMalloc size s.heap).map fun (p, h) =>
        match p with
        | none => { s with heap := h }
        | some p => ⟨h, s.live ++ [⟨p, size, fun _ => none⟩]⟩
  | .free i => s.live[i]?.map fun x => ⟨memFree (some x.ptr) s.heap, s.live.eraseIdx i⟩
  | .trim i newsize => s.live[i]?.map fun x =>
      match memTrim x.ptr newsize s.heap with
      | (none, h) => { s with heap := h }
      | (some _, h) => ⟨h, s.live.set i { x with size := newsize }⟩
  | .store i off v => s.live[i]?.map fun x =>
      { heap := { s.heap with ram := Memory.write s.heap.ram (x.ptr + off) [v] }
        live := s.live.set i { x with data := Function.update x.data off (some v) } }

/-- The pointers that a call returns. -/
def Client.returned (s : Client) : Call → List (Option ℕ)
  | .malloc size => ((memMalloc size s.heap).map Prod.fst).toList
  | .trim i newsize => (s.live[i]?.map fun x => (memTrim x.ptr newsize s.heap).1).toList
  | _ => []

/-- Every call is permitted when it is made. -/
def Disciplined : Client → List Call → Prop
  | _, [] => True
  | s, c :: cs => Permitted s c ∧ ∀ t, s.step c = some t → Disciplined t cs

instance (s : Client) (c : Call) : Decidable (Permitted s c) :=
  match c with
  | .malloc size => inferInstanceAs (Decidable (size.toNat ≤ 65532))
  | .free i => inferInstanceAs (Decidable (i < s.live.length))
  | .trim i newsize =>
      decidable_of_iff ((s.live[i]?.any fun x => decide (newsize ≤ x.size)) = true)
        (by simp [Permitted, Option.any_eq_true])
  | .store i off _ =>
      decidable_of_iff ((s.live[i]?.any fun x => decide (off < x.size.toNat)) = true)
        (by simp [Permitted, Option.any_eq_true])

instance decidableDisciplined : (s : Client) → (cs : List Call) → Decidable (Disciplined s cs)
  | _, [] => isTrue trivial
  | s, c :: cs =>
      match h : s.step c with
      | none => decidable_of_iff (Permitted s c) (by simp [Disciplined, h])
      | some t =>
          have := decidableDisciplined t cs
          decidable_of_iff (Permitted s c ∧ Disciplined t cs) (by simp [Disciplined, h])

/-! ### First fit -/

/-- The blocks of the heap, and the pointers of the client. -/
structure Blocks where
  blocks : List Block
  live : List ℕ
  deriving DecidableEq

def Blocks.initial : Blocks := ⟨[⟨0, memSize, false⟩], []⟩

/-- The block a request is served from. -/
def Blocks.request (a : Blocks) (size : UInt16) : Option (ℕ × List Block) :=
  if size = 0 then none else alloc sizeofMem minSize (blockSize size) a.blocks

def Blocks.step (a : Blocks) : Call → Option Blocks
  | .malloc size =>
      match a.request size with
      | none => some a
      | some (p, l) => some ⟨l, a.live ++ [p + sizeofMem]⟩
  | .free i => a.live[i]?.map fun p => ⟨release (p - sizeofMem) a.blocks, a.live.eraseIdx i⟩
  | .trim i newsize => a.live[i]?.map fun p =>
      { a with blocks := shrink sizeofMem minSize (p - sizeofMem) (blockSize newsize) a.blocks }
  | .store _ _ _ => some a

def Blocks.returned (a : Blocks) : Call → List (Option ℕ)
  | .malloc size => [(a.request size).map fun r => r.1 + sizeofMem]
  | .trim i _ => (a.live[i]?.map some).toList
  | _ => []

/-! ### The simulation -/

/-- The heap is described by the blocks, those in use belong to the client, and the bytes that it
has stored are there. -/
structure Sim (s : Client) (a : Blocks) : Prop where
  inv : Inv s.heap a.blocks
  live : s.live.map Allocation.ptr = a.live
  nodup : a.live.Nodup
  owned : ∀ b ∈ a.blocks, b.used = true → b.start + sizeofMem ∈ a.live
  room : ∀ x ∈ s.live, x.size.toNat ≤ 65532 ∧ ∃ b ∈ a.blocks, b.used = true ∧
    b.start + sizeofMem = x.ptr ∧ x.ptr + blockSize x.size ≤ b.stop ∧
      b.stop < x.ptr + blockSize x.size + (sizeofMem + minSize)
  data : ∀ x ∈ s.live, ∀ off < x.size.toNat, ∀ v, x.data off = some v →
    s.heap.ram (x.ptr + off) = v

section Simulation

variable {s : Client} {a : Blocks} {x : Allocation} {b : Block} {l l' : List Block} {r r' : Ram}
  {size newsize : UInt16} {i off : ℕ}

/-- A byte behind the header of one block is in no header. -/
lemma outside_of_mem {c d : ℕ} (h : Tiles c d l) (hgood : ∀ y ∈ l, Good sizeofMem minSize 4 y)
    (hb : b ∈ l) (hi : b.start + 8 ≤ i) (hi' : i < b.stop) :
    ∀ y ∈ l, i < y.start ∨ y.start + sizeofMem ≤ i := by
  intro y hy
  have hroom := room_of_good (hgood y hy)
  have hsize : sizeofMem = 8 := rfl
  rcases h.disjoint hb hy with rfl | hby | hyb
  · exact Or.inr hi
  · exact Or.inl (by omega)
  · exact Or.inr (by omega)

/-- What is stored behind the header of a block stays. -/
lemma Frame.data {h : Heap} (hf : Frame l r r') (hinv : Inv h l) (hb : b ∈ l)
    (hi : b.start + 8 ≤ i) (hi' : i < b.stop) : r' i = r i := by
  have hbounds := hinv.wf.tiles.mem_bounds hb
  exact hf i (Nat.lt_of_lt_of_le hi' hbounds.2.2)
    (outside_of_mem hinv.wf.tiles hinv.wf.good hb hi hi')

lemma blockSize_mono (hle : newsize ≤ size) (hsize : size.toNat ≤ 65532) :
    blockSize newsize ≤ blockSize size := by
  have hle' : newsize.toNat ≤ size.toNat := hle
  have halign : alignSize newsize.toNat ≤ alignSize size.toNat := by
    rw [alignSize, alignSize]
    omega
  rw [blockSize, blockSize, minSize]
  split_ifs <;> omega

lemma sim_initial : Sim Client.initial Blocks.initial where
  inv := {
    describes := ⟨⟨rfl, ⟨by decide, by decide, by decide⟩, by decide, rfl⟩, by decide⟩
    separated := List.isChain_singleton _
    lfree := rfl
    sane := rfl }
  live := rfl
  nodup := List.nodup_nil
  owned := by simp [Blocks.initial]
  room := by simp [Client.initial]
  data := by simp [Client.initial]

/-- A pointer of the client is that of a block in use. -/
lemma Sim.exists_block (hsim : Sim s a) {p : ℕ} (hp : p ∈ a.live) :
    ∃ b ∈ a.blocks, b.used = true ∧ b.start + sizeofMem = p := by
  rw [← hsim.live] at hp
  obtain ⟨x, hx, rfl⟩ := List.mem_map.mp hp
  obtain ⟨-, b, hb, hused, hptr, -⟩ := hsim.room x hx
  exact ⟨b, hb, hused, hptr⟩

/-- An allocation that keeps its block keeps its bytes. -/
lemma Sim.data_of_frame (hsim : Sim s a) {h : Heap} (hf : Frame l s.heap.ram r') (hinv : Inv h l)
    (hx : x ∈ s.live) (hb : b ∈ l) (hptr : b.start + sizeofMem = x.ptr)
    (hroom : x.ptr + blockSize newsize ≤ b.stop) (hsize : newsize.toNat ≤ 65532)
    (hle : newsize ≤ x.size) {v : UInt8} (hoff : off < newsize.toNat) (hv : x.data off = some v) :
    r' (x.ptr + off) = v := by
  have hle' : newsize.toNat ≤ x.size.toNat := hle
  have hblock := toNat_le_blockSize hsize
  have hptr' : b.start + 8 = x.ptr := hptr
  rw [hf.data hinv hb (by omega) (by omega)]
  exact hsim.data x hx off (by omega) v hv

lemma Sim.malloc (hsim : Sim s a) (hsize : size.toNat ≤ 65532) :
    ∃ t u, s.step (.malloc size) = some t ∧ a.step (.malloc size) = some u ∧ Sim t u ∧
      s.returned (.malloc size) = a.returned (.malloc size) := by
  rw [Client.step, Blocks.step, Client.returned, Blocks.returned]
  cases hreq : a.request size with
  | none =>
      have hmalloc : memMalloc size s.heap = some (none, s.heap) := by
        rw [Blocks.request] at hreq
        split_ifs at hreq with hzero
        · rw [memMalloc, if_pos hzero]
        · exact memMalloc_eq_none hsim.inv hreq
      rw [hmalloc]
      exact ⟨s, a, rfl, rfl, hsim, rfl⟩
  | some q =>
      obtain ⟨p, l⟩ := q
      rw [Blocks.request] at hreq
      split_ifs at hreq with hzero
      obtain ⟨h', hmalloc, hinv, hframe⟩ := memMalloc_spec hsim.inv hzero hreq
      obtain ⟨y, hy, hstart, hroom, hslack, hmem⟩ := alloc_used (by decide) hreq
      obtain ⟨l₁, b₀, l₂, hblocks, -, ⟨hfree, -⟩, hp, -⟩ := alloc_eq_some hreq
      have hnew : p + sizeofMem ∉ a.live := by
        intro hmem'
        obtain ⟨b, hb, hused, hptr⟩ := hsim.exists_block hmem'
        have heq : b = b₀ :=
          hsim.inv.wf.tiles.eq_of_start hb (by simp [hblocks]) (by omega)
        rw [heq, hfree] at hused
        cases hused
      rw [hmalloc]
      refine ⟨_, _, rfl, rfl, ?_, rfl⟩
      refine ⟨hinv, by rw [List.map_append, hsim.live]; rfl, ?_, ?_, ?_, ?_⟩
      · exact hsim.nodup.append (List.nodup_singleton _) (by simpa using hnew)
      · intro b hb hused
        rcases (hmem b hused).mp hb with hb | rfl
        · exact List.mem_append_left _ (hsim.owned b hb hused)
        · rw [hstart]
          exact List.mem_append_right _ (List.mem_singleton_self _)
      · intro x hx
        rcases List.mem_append.mp hx with hx | hx
        · obtain ⟨hx', b, hb, hused, hptr, hroom⟩ := hsim.room x hx
          exact ⟨hx', b, (hmem b hused).mpr (Or.inl hb), hused, hptr, hroom⟩
        · obtain rfl := List.mem_singleton.mp hx
          refine ⟨hsize, y, (hmem y hy).mpr (Or.inr rfl), hy, ?_, hroom, hslack⟩
          rw [hstart]
      · intro x hx off hoff v hv
        rcases List.mem_append.mp hx with hx | hx
        · obtain ⟨hx', b, hb, hused, hptr, hroom, -⟩ := hsim.room x hx
          exact hsim.data_of_frame hframe hinv hx ((hmem b hused).mpr (Or.inl hb)) hptr hroom hx'
            (Nat.le_refl _) hoff hv
        · obtain rfl := List.mem_singleton.mp hx
          cases hv

/-- The `i`-th allocation and its block. -/
lemma Sim.getElem? (hsim : Sim s a) (hx : s.live[i]? = some x) :
    a.live[i]? = some x.ptr ∧ x.size.toNat ≤ 65532 ∧ ∃ l₁ b l₂, a.blocks = l₁ ++ b :: l₂ ∧
      b.used = true ∧ b.start + sizeofMem = x.ptr ∧ x.ptr + blockSize x.size ≤ b.stop := by
  obtain ⟨hsize, b, hb, hused, hptr, hroom, -⟩ := hsim.room x (List.mem_of_getElem? hx)
  obtain ⟨l₁, l₂, hsplit⟩ := List.append_of_mem hb
  refine ⟨?_, hsize, l₁, b, l₂, hsplit, hused, hptr, hroom⟩
  rw [← hsim.live, List.getElem?_map, hx]
  rfl

/-- The other allocations have other pointers. -/
lemma Sim.ptr_ne (hsim : Sim s a) (hx : s.live[i]? = some x) {j : ℕ} {y : Allocation}
    (hy : s.live[j]? = some y) (hne : j ≠ i) : y.ptr ≠ x.ptr := by
  intro heq
  have hi := (hsim.getElem? hx).1
  have hj := (hsim.getElem? hy).1
  rw [heq, ← hi] at hj
  have hlt : j < a.live.length := by
    by_contra hge
    rw [List.getElem?_eq_none (Nat.not_lt.mp hge), hi] at hj
    cases hj
  exact hne ((List.getElem?_inj hlt hsim.nodup).mp hj)

lemma Sim.free (hsim : Sim s a) (hi : i < s.live.length) :
    ∃ t u, s.step (.free i) = some t ∧ a.step (.free i) = some u ∧ Sim t u := by
  obtain ⟨x, hx⟩ : ∃ x, s.live[i]? = some x := ⟨_, List.getElem?_eq_getElem hi⟩
  obtain ⟨hlive, hsize, l₁, b, l₂, hsplit, hused, hptr, hroom⟩ := hsim.getElem? hx
  have hinv := hsim.inv
  rw [hsplit] at hinv
  obtain ⟨hinv', hframe⟩ := memFree_spec hinv hused
  have hmem : ∀ y : Block, y.used = true →
      (y ∈ release b.start (l₁ ++ b :: l₂) ↔ y ∈ l₁ ++ b :: l₂ ∧ y.start ≠ b.start) :=
    fun y hy => release_used_iff hinv.wf.tiles hy
  have hother : ∀ y ∈ s.live.eraseIdx i, y ∈ s.live ∧ y.ptr ≠ x.ptr := by
    intro y hy
    obtain ⟨j, hne, hj⟩ := List.mem_eraseIdx_iff_getElem?.mp hy
    exact ⟨List.mem_of_getElem? hj, hsim.ptr_ne hx hj hne⟩
  rw [Client.step, Blocks.step, hx, hlive]
  refine ⟨_, _, rfl, rfl, ?_⟩
  dsimp only
  rw [← hptr, Nat.add_sub_cancel, hsplit]
  refine ⟨hinv', ?_, hsim.nodup.sublist (List.eraseIdx_sublist ..), ?_, ?_, ?_⟩
  · rw [← hsim.live, List.eraseIdx_map]
  · intro y hy hused'
    obtain ⟨hy, hne⟩ := (hmem y hused').mp hy
    have howned := hsim.owned y (hsplit ▸ hy) hused'
    obtain ⟨j, hj⟩ := List.mem_iff_getElem?.mp howned
    refine List.mem_eraseIdx_iff_getElem?.mpr ⟨j, ?_, hj⟩
    rintro rfl
    rw [hlive, ← hptr] at hj
    simp only [Option.some.injEq, Nat.add_right_cancel_iff] at hj
    exact hne hj.symm
  · intro y hy
    obtain ⟨hy, hne⟩ := hother y hy
    obtain ⟨hy', c, hc, hused', hptr', hroom'⟩ := hsim.room y hy
    refine ⟨hy', c, (hmem c hused').mpr ⟨hsplit ▸ hc, ?_⟩, hused', hptr', hroom'⟩
    rintro heq
    exact hne (by rw [← hptr', ← hptr, heq])
  · intro y hy off hoff v hv
    obtain ⟨hy, -⟩ := hother y hy
    obtain ⟨hy', c, hc, -, hptr', hroom', -⟩ := hsim.room y hy
    exact hsim.data_of_frame hframe hinv hy (hsplit ▸ hc) hptr' hroom' hy' (Nat.le_refl _) hoff hv

/-- What stands in a list with one entry replaced. -/
lemma mem_set_cases {α : Type*} {l : List α} {v y : α} (hy : y ∈ l.set i v) :
    y = v ∨ ∃ j, j ≠ i ∧ l[j]? = some y := by
  obtain ⟨j, hj⟩ := List.mem_iff_getElem?.mp hy
  rw [List.getElem?_set] at hj
  split_ifs at hj with heq hlt
  · exact Or.inl (Option.some.inj hj).symm
  · exact Or.inr ⟨j, Ne.symm heq, hj⟩

lemma set_of_getElem? {α : Type*} {l : List α} {v : α} (h : l[i]? = some v) : l.set i v = l := by
  obtain ⟨hlt, rfl⟩ := List.getElem?_eq_some_iff.mp h
  exact List.set_getElem_self hlt

lemma Sim.trim (hsim : Sim s a) (hx : s.live[i]? = some x) (hle : newsize ≤ x.size) :
    ∃ t u, s.step (.trim i newsize) = some t ∧ a.step (.trim i newsize) = some u ∧ Sim t u ∧
      s.returned (.trim i newsize) = a.returned (.trim i newsize) := by
  obtain ⟨hlive, hsize, l₁, b, l₂, hsplit, hused, hptr, hroom⟩ := hsim.getElem? hx
  have hinv := hsim.inv
  rw [hsplit] at hinv
  have hmono := blockSize_mono hle hsize
  have hptr' : b.start + 8 = x.ptr := hptr
  have hfits : b.start + 8 + blockSize newsize ≤ b.stop := by omega
  obtain ⟨h', htrim, hinv', hframe⟩ := memTrim_spec hinv hused hfits
  obtain ⟨y, hy, hstart, hroom', hslack, hmem⟩ :=
    giveBack_used minSize (by decide) hinv.wf.tiles hused hfits
  rw [hptr'] at htrim
  have hshrink : shrink sizeofMem minSize (x.ptr - sizeofMem) (blockSize newsize) a.blocks =
      l₁ ++ giveBack sizeofMem minSize (blockSize newsize) b l₂ := by
    rw [← hptr, Nat.add_sub_cancel, hsplit, shrink_append hinv.wf.tiles]
  rw [Client.step, Blocks.step, Client.returned, Blocks.returned, hx, hlive]
  refine ⟨⟨h', s.live.set i { x with size := newsize }⟩,
    ⟨l₁ ++ giveBack sizeofMem minSize (blockSize newsize) b l₂, a.live⟩, ?_, ?_,
    ⟨hinv', ?_, hsim.nodup, ?_, ?_, ?_⟩, ?_⟩
  · rw [Option.map_some, htrim]
  · rw [Option.map_some, hshrink]
  · rw [List.map_set, hsim.live]
    exact set_of_getElem? hlive
  · intro z hz hused'
    rcases (hmem z hused').mp hz with ⟨hz, -⟩ | rfl
    · exact hsim.owned z (hsplit ▸ hz) hused'
    · rw [hstart, hptr]
      exact List.mem_of_getElem? hlive
  · intro z hz
    rcases mem_set_cases hz with rfl | ⟨j, hne, hj⟩
    · refine ⟨Nat.le_trans hle hsize, y, (hmem y hy).mpr (Or.inr rfl), hy, ?_, ?_, ?_⟩
      · rw [hstart, hptr]
      · rw [← hptr]
        exact hroom'
      · rw [← hptr]
        exact hslack
    · obtain ⟨hz', c, hc, hused', hptr', hroom'⟩ := hsim.room z (List.mem_of_getElem? hj)
      refine ⟨hz', c, (hmem c hused').mpr (Or.inl ⟨hsplit ▸ hc, ?_⟩), hused', hptr', hroom'⟩
      rintro heq
      exact hsim.ptr_ne hx hj hne (by rw [← hptr', ← hptr, heq])
  · intro z hz off hoff v hv
    rcases mem_set_cases hz with rfl | ⟨j, hne, hj⟩
    · refine hsim.data_of_frame hframe hinv' (List.mem_of_getElem? hx)
        ((hmem y hy).mpr (Or.inr rfl)) ?_ ?_ (Nat.le_trans hle hsize) hle hoff hv
      · rw [hstart, hptr]
      · rw [← hptr]
        exact hroom'
    · obtain ⟨hz', c, hc, hused', hptr', hroom', -⟩ := hsim.room z (List.mem_of_getElem? hj)
      refine hsim.data_of_frame hframe hinv' (List.mem_of_getElem? hj)
        ((hmem c hused').mpr (Or.inl ⟨hsplit ▸ hc, ?_⟩)) hptr' hroom' hz' (Nat.le_refl _) hoff hv
      rintro heq
      exact hsim.ptr_ne hx hj hne (by rw [← hptr', ← hptr, heq])
  · rw [Option.map_some, htrim]
    rfl

/-- Headers are all that the blocks are read from. -/
lemma Inv.congr {h : Heap} (hinv : Inv h l)
    (heq : ∀ i, memSize ≤ i ∨ (∃ y ∈ l, y.start ≤ i ∧ i < y.start + sizeofMem) →
      r' i = h.ram i) : Inv { h with ram := r' } l := by
  have hseg : ∀ {p c k} {m : List Block}, (∀ y ∈ m, y ∈ l) → Segment h.ram p c k m →
      Segment r' p c k m := by
    intro p c k m
    induction m generalizing p c with
    | nil => exact fun _ hm => hm
    | cons y m ih =>
        rintro hsub ⟨rfl, hgood, hmem, hm⟩
        refine ⟨rfl, hgood, ?_, ih (fun z hz => hsub z (List.mem_cons_of_mem _ hz)) hm⟩
        rw [← hmem]
        exact mem_congr fun i hi hi' => heq i (Or.inr ⟨y, hsub y (List.mem_cons_self ..), hi, hi'⟩)
  refine ⟨⟨hseg (fun _ hy => hy) hinv.describes.segment, ?_⟩, hinv.separated, hinv.lfree, hinv.sane⟩
  rw [mem_congr fun i hi _ => heq i (Or.inl hi)]
  exact hinv.describes.top

/-- A byte inside an allocation is in no header, and in no other allocation. -/
lemma Sim.store (hsim : Sim s a) {v : UInt8} (hx : s.live[i]? = some x)
    (hoff : off < x.size.toNat) :
    ∃ t u, s.step (.store i off v) = some t ∧ a.step (.store i off v) = some u ∧ Sim t u := by
  obtain ⟨hlive, hsize, l₁, b, l₂, hsplit, hused, hptr, hroom⟩ := hsim.getElem? hx
  have hb : b ∈ a.blocks := by simp [hsplit]
  have hptr' : b.start + 8 = x.ptr := hptr
  have hblock := toNat_le_blockSize hsize
  have htiles := hsim.inv.wf.tiles
  have hbounds : b.stop ≤ 1600 := (htiles.mem_bounds hb).2.2
  have hout := outside_of_mem (i := x.ptr + off) htiles hsim.inv.wf.good hb (by omega) (by omega)
  have hwrite : ∀ j, j ≠ x.ptr + off →
      Memory.write s.heap.ram (x.ptr + off) [v] j = s.heap.ram j := by
    intro j hj
    rcases Nat.lt_or_gt_of_ne hj with hj | hj
    · exact Memory.write_apply_of_lt hj
    · exact Memory.write_apply_of_le hj
  rw [Client.step, Blocks.step, hx]
  refine ⟨_, _, rfl, rfl, ⟨hsim.inv.congr ?_, ?_, hsim.nodup, hsim.owned, ?_, ?_⟩⟩
  · intro j hj
    refine hwrite j ?_
    rintro rfl
    rcases hj with hj | ⟨y, hy, hlow, hhigh⟩
    · have : memSize = 1600 := rfl
      omega
    · rcases hout y hy with h | h <;> omega
  · dsimp only
    rw [List.map_set, hsim.live]
    exact set_of_getElem? hlive
  · intro z hz
    rcases mem_set_cases hz with rfl | ⟨j, -, hj⟩
    · exact hsim.room x (List.mem_of_getElem? hx)
    · exact hsim.room z (List.mem_of_getElem? hj)
  · intro z hz k hk w hw
    rcases mem_set_cases hz with rfl | ⟨j, hne, hj⟩
    · dsimp only at hw
      by_cases hk' : k = off
      · subst hk'
        rw [Function.update_self, Option.some.injEq] at hw
        have hself : Memory.write s.heap.ram (x.ptr + k) [v] (x.ptr + k) = v := by
          simp [Memory.write]
        exact hself.trans hw
      · rw [Function.update_of_ne hk'] at hw
        exact (hwrite _ (by dsimp only; omega)).trans
          (hsim.data x (List.mem_of_getElem? hx) k hk w hw)
    · obtain ⟨hz', c, hc, -, hptrc, hroomc, -⟩ := hsim.room z (List.mem_of_getElem? hj)
      have hblock' := toNat_le_blockSize hz'
      have hne' := hsim.ptr_ne hx hj hne
      have hptrc' : c.start + 8 = z.ptr := hptrc
      refine (hwrite _ ?_).trans (hsim.data z (List.mem_of_getElem? hj) k hk w hw)
      rcases htiles.disjoint hb hc with rfl | hbc | hbc <;> omega

/-- **One call**: it returns, and the pointer is that of first fit. -/
theorem Sim.step {c : Call} (hsim : Sim s a) (hperm : Permitted s c) :
    ∃ t u, s.step c = some t ∧ a.step c = some u ∧ Sim t u ∧ s.returned c = a.returned c := by
  cases c with
  | malloc size => exact hsim.malloc hperm
  | free i =>
      obtain ⟨t, u, ht, hu, hsim'⟩ := hsim.free hperm
      exact ⟨t, u, ht, hu, hsim', rfl⟩
  | trim i newsize =>
      obtain ⟨x, hx, hle⟩ := hperm
      exact hsim.trim hx hle
  | store i off v =>
      obtain ⟨x, hx, hoff⟩ := hperm
      obtain ⟨t, u, ht, hu, hsim'⟩ := hsim.store hx hoff
      exact ⟨t, u, ht, hu, hsim', rfl⟩

/-- **A run of calls**. -/
theorem Sim.run {cs : List Call} (hsim : Sim s a) (hcs : Disciplined s cs) :
    ∃ t u, run Client.step s cs = some t ∧ run Blocks.step a cs = some u ∧ Sim t u ∧
      observed Client.step Client.returned s cs = observed Blocks.step Blocks.returned a cs := by
  induction cs generalizing s a with
  | nil => exact ⟨s, a, rfl, rfl, hsim, rfl⟩
  | cons c cs ih =>
      obtain ⟨s', a', hs', ha', hsim', hret⟩ := hsim.step hcs.1
      obtain ⟨t, u, ht, hu, hsim'', hrets⟩ := ih hsim' (hcs.2 s' hs')
      refine ⟨t, u, run_cons_eq_some.mpr ⟨s', hs', ht⟩, run_cons_eq_some.mpr ⟨a', ha', hu⟩,
        hsim'', ?_⟩
      rw [observed_cons hs', observed_cons ha', hret, hrets]

end Simulation

/-! ### Clients over the same blocks -/

/-- The sizes that the client has asked for. -/
def Client.sizes (s : Client) : List UInt16 := s.live.map Allocation.size

section Sizes

variable {s t s' t' : Client} {a : Blocks} {c : Call}

lemma sizes_getElem? {i : ℕ} {x : Allocation} (hsizes : s.sizes = s'.sizes)
    (hx : s.live[i]? = some x) : ∃ x', s'.live[i]? = some x' ∧ x'.size = x.size := by
  have hi : s'.sizes[i]? = some x.size := by
    rw [← hsizes, Client.sizes, List.getElem?_map, hx]
    rfl
  rwa [Client.sizes, List.getElem?_map, Option.map_eq_some_iff] at hi

/-- What is permitted depends on the sizes only. -/
lemma Permitted.of_sizes (hsizes : s.sizes = s'.sizes) (hperm : Permitted s c) :
    Permitted s' c := by
  cases c with
  | malloc size => exact hperm
  | free i =>
      have hlen : s.live.length = s'.live.length := by
        simpa [Client.sizes] using congrArg List.length hsizes
      rw [Permitted, ← hlen]
      exact hperm
  | trim i newsize =>
      obtain ⟨x, hx, hle⟩ := hperm
      obtain ⟨x', hx', heq⟩ := sizes_getElem? hsizes hx
      exact ⟨x', hx', by rw [heq]; exact hle⟩
  | store i off v =>
      obtain ⟨x, hx, hoff⟩ := hperm
      obtain ⟨x', hx', heq⟩ := sizes_getElem? hsizes hx
      exact ⟨x', hx', by rw [heq]; exact hoff⟩

/-- Calls that return the same pointers leave the same sizes. -/
lemma sizes_step (hsizes : s.sizes = s'.sizes) (hret : s.returned c = s'.returned c)
    (ht : s.step c = some t) (ht' : s'.step c = some t') : t.sizes = t'.sizes := by
  cases c with
  | malloc size =>
      obtain ⟨⟨p, h⟩, hm, rfl⟩ := Option.map_eq_some_iff.mp ht
      obtain ⟨⟨p', h'⟩, hm', rfl⟩ := Option.map_eq_some_iff.mp ht'
      obtain rfl : p = p' := by simpa [Client.returned, hm, hm'] using hret
      cases p with
      | none => exact hsizes
      | some p =>
          simp only [Client.sizes, List.map_append] at hsizes ⊢
          rw [hsizes]
  | free i =>
      obtain ⟨x, -, rfl⟩ := Option.map_eq_some_iff.mp ht
      obtain ⟨x', -, rfl⟩ := Option.map_eq_some_iff.mp ht'
      simp only [Client.sizes] at hsizes ⊢
      rw [← List.eraseIdx_map, hsizes, List.eraseIdx_map]
  | trim i newsize =>
      obtain ⟨x, hx, rfl⟩ := Option.map_eq_some_iff.mp ht
      obtain ⟨x', hx', rfl⟩ := Option.map_eq_some_iff.mp ht'
      have hptr : (memTrim x.ptr newsize s.heap).1 = (memTrim x'.ptr newsize s'.heap).1 := by
        simpa [Client.returned, hx, hx'] using hret
      rcases hm : memTrim x.ptr newsize s.heap with ⟨p, h⟩
      rcases hm' : memTrim x'.ptr newsize s'.heap with ⟨p', h'⟩
      rw [hm, hm'] at hptr
      obtain rfl : p = p' := hptr
      cases p with
      | none => exact hsizes
      | some p =>
          simp only [Client.sizes, List.map_set] at hsizes ⊢
          rw [hsizes]
  | store i off v =>
      obtain ⟨x, hx, rfl⟩ := Option.map_eq_some_iff.mp ht
      obtain ⟨x', hx', rfl⟩ := Option.map_eq_some_iff.mp ht'
      obtain ⟨y, hy, heq⟩ := sizes_getElem? hsizes hx
      obtain rfl : x' = y := by rw [hx', Option.some.injEq] at hy; exact hy
      simp only [Client.sizes, List.map_set] at hsizes ⊢
      rw [hsizes, heq]

/-- Two clients of the same sizes over the same blocks are permitted the same calls. -/
lemma Disciplined.of_sizes {cs : List Call} (hsim : Sim s a) (hsim' : Sim s' a)
    (hsizes : s.sizes = s'.sizes) (hcs : Disciplined s cs) : Disciplined s' cs := by
  induction cs generalizing s s' a with
  | nil => trivial
  | cons c cs ih =>
      have hperm := hcs.1.of_sizes hsizes
      refine ⟨hperm, fun t' ht' => ?_⟩
      obtain ⟨t, u, ht, hu, hnext, hret⟩ := hsim.step hcs.1
      obtain ⟨v, w, hv, hw, hnext', hret'⟩ := hsim'.step hperm
      obtain rfl : v = t' := by rw [hv, Option.some.injEq] at ht'; exact ht'
      obtain rfl : w = u := by rw [hw, Option.some.injEq] at hu; exact hu
      exact ih hnext hnext' (sizes_step hsizes (hret.trans hret'.symm) ht hv) (hcs.2 t ht)

end Sizes

section Simulation

variable {s : Client} {a : Blocks}

/-- Two allocations do not meet, headers included. -/
lemma Sim.pairwise (hsim : Sim s a) :
    s.live.Pairwise fun x y =>
      x.ptr + x.size.toNat + 8 ≤ y.ptr ∨ y.ptr + y.size.toNat + 8 ≤ x.ptr := by
  have hnodup : s.live.Pairwise fun x y => x.ptr ≠ y.ptr := by
    have h := hsim.nodup
    rw [← hsim.live] at h
    exact List.pairwise_map.mp h
  refine hnodup.imp_of_mem fun {x y} hx hy hne => ?_
  obtain ⟨hx', b, hb, -, hptrb, hroomb, -⟩ := hsim.room x hx
  obtain ⟨hy', c, hc, -, hptrc, hroomc, -⟩ := hsim.room y hy
  have hxb := toNat_le_blockSize hx'
  have hyc := toNat_le_blockSize hy'
  have hptrb' : b.start + 8 = x.ptr := hptrb
  have hptrc' : c.start + 8 = y.ptr := hptrc
  rcases hsim.inv.wf.tiles.disjoint hb hc with rfl | hbc | hbc <;> omega

end Simulation

/-! ### Every run of calls -/

/-- **Memory safety of the heap**: whatever the client calls, every call returns, no assertion of
`mem.c` fails, and what the client holds is aligned, lies inside the heap and does not overlap;
every byte is the one that the client has stored there last. -/
theorem heap_safe {cs : List Call} (hcs : Disciplined Client.initial cs) :
    ∃ s, run Client.step Client.initial cs = some s ∧ s.heap.sane = true ∧
      (s.live.Pairwise fun x y =>
        x.ptr + x.size.toNat + 8 ≤ y.ptr ∨ y.ptr + y.size.toNat + 8 ≤ x.ptr) ∧
      ∀ x ∈ s.live, 8 ≤ x.ptr ∧ x.ptr % 4 = 0 ∧ x.ptr + x.size.toNat ≤ memSize ∧
        ∀ off < x.size.toNat, ∀ v, x.data off = some v → s.heap.ram (x.ptr + off) = v := by
  obtain ⟨s, a, hs, -, hsim, -⟩ := sim_initial.run hcs
  refine ⟨s, hs, hsim.inv.sane, hsim.pairwise, fun x hx => ?_⟩
  obtain ⟨hsize, b, hb, -, hptr, hroom, -⟩ := hsim.room x hx
  have hblock := toNat_le_blockSize hsize
  have hptr' : b.start + 8 = x.ptr := hptr
  have haligned := hsim.inv.describes.aligned hb
  have hend := (hsim.inv.wf.tiles.mem_bounds hb).2.2
  exact ⟨by omega, by omega, by omega, hsim.data x hx⟩

/-- The heap, after five calls. -/
theorem heap_safe_five :
    ∃ s, run Client.step Client.initial
        [.malloc 100, .store 0 5 42, .malloc 60, .trim 1 30, .free 0] = some s ∧
      s.heap.sane = true ∧
      (s.live.Pairwise fun x y =>
        x.ptr + x.size.toNat + 8 ≤ y.ptr ∨ y.ptr + y.size.toNat + 8 ≤ x.ptr) ∧
      ∀ x ∈ s.live, 8 ≤ x.ptr ∧ x.ptr % 4 = 0 ∧ x.ptr + x.size.toNat ≤ memSize ∧
        ∀ off < x.size.toNat, ∀ v, x.data off = some v → s.heap.ram (x.ptr + off) = v :=
  heap_safe (by decide +kernel)

/-- **First fit**: the pointers that the calls return are those of the list of blocks. -/
theorem returned_eq {cs : List Call} (hcs : Disciplined Client.initial cs) :
    observed Client.step Client.returned Client.initial cs =
      observed Blocks.step Blocks.returned Blocks.initial cs := by
  obtain ⟨s, a, -, -, -, hret⟩ := sim_initial.run hcs
  exact hret

/-- The first gap is too small for the third request. -/
theorem returned_eq_gap :
    observed Client.step Client.returned Client.initial
        [.malloc 100, .malloc 60, .free 0, .malloc 200, .malloc 40] =
      observed Blocks.step Blocks.returned Blocks.initial
        [.malloc 100, .malloc 60, .free 0, .malloc 200, .malloc 40] ∧
    observed Blocks.step Blocks.returned Blocks.initial
        [.malloc 100, .malloc 60, .free 0, .malloc 200, .malloc 40] =
      [some 8, some 116, some 184, some 8] :=
  ⟨returned_eq (by decide +kernel), by decide +kernel⟩

/-- The bytes of the blocks in use, against what was asked for: a header of 8 bytes, and less than
20 bytes that are too few for another block. -/
lemma Sim.sum_used_le {s : Client} {a : Blocks} (hsim : Sim s a) :
    (a.blocks.filter Block.used).length = s.live.length ∧
      ((a.blocks.filter Block.used).map Block.length).sum ≤
        (s.live.map fun x => blockSize x.size + 27).sum := by
  have hnodup : ((a.blocks.filter Block.used).map fun b => b.start + sizeofMem).Nodup := by
    have hstarts := hsim.inv.wf.tiles.nodup_start
    have hsub := hstarts.sublist ((List.filter_sublist (p := Block.used)).map Block.start)
    have hshift := hsub.map (add_left_injective sizeofMem)
    rw [List.map_map] at hshift
    exact hshift
  have hperm : ((a.blocks.filter Block.used).map fun b => b.start + sizeofMem).Perm
      (s.live.map Allocation.ptr) := by
    rw [hsim.live]
    refine (List.perm_ext_iff_of_nodup hnodup hsim.nodup).mpr fun p => ?_
    rw [List.mem_map]
    constructor
    · rintro ⟨b, hb, rfl⟩
      obtain ⟨hb, hused⟩ := List.mem_filter.mp hb
      exact hsim.owned b hb hused
    · intro hp
      obtain ⟨b, hb, hused, rfl⟩ := hsim.exists_block hp
      exact ⟨b, List.mem_filter.mpr ⟨hb, hused⟩, rfl⟩
  refine ⟨by simpa using hperm.length_eq, ?_⟩
  -- the bound of the allocation with a given pointer
  let w : ℕ → ℕ := fun p =>
    ((s.live.find? fun x => x.ptr = p).map fun x => blockSize x.size + 27).getD 0
  have hw : ∀ x ∈ s.live, w x.ptr = blockSize x.size + 27 := by
    intro x hx
    have hinj : (s.live.map Allocation.ptr).Nodup := by
      rw [hsim.live]
      exact hsim.nodup
    obtain ⟨y, hy⟩ : ∃ y, (s.live.find? fun y => y.ptr = x.ptr) = some y := by
      rw [← Option.isSome_iff_exists, List.find?_isSome]
      exact ⟨x, hx, by simp⟩
    have hptr : y.ptr = x.ptr := by simpa using List.find?_some hy
    have hyx : y = x := List.inj_on_of_nodup_map hinj (List.mem_of_find?_eq_some hy) hx hptr
    simp only [w, hy, hyx, Option.map_some, Option.getD_some]
  have hlen : ∀ b ∈ a.blocks.filter Block.used, b.length ≤ w (b.start + sizeofMem) := by
    intro b hb
    obtain ⟨hb, hused⟩ := List.mem_filter.mp hb
    have howned := hsim.owned b hb hused
    rw [← hsim.live] at howned
    obtain ⟨x, hx, hxp⟩ := List.mem_map.mp howned
    obtain ⟨-, c, hc, -, hptr, -, hslack⟩ := hsim.room x hx
    have hbc : b = c := hsim.inv.wf.tiles.eq_of_start hb hc (by omega)
    rw [← hxp, hw x hx, Block.length, hbc]
    have hptr' : c.start + 8 = x.ptr := hptr
    have hslack' : c.stop < x.ptr + blockSize x.size + 20 := hslack
    omega
  calc ((a.blocks.filter Block.used).map Block.length).sum
      ≤ ((a.blocks.filter Block.used).map fun b => w (b.start + sizeofMem)).sum :=
        List.sum_le_sum hlen
    _ = (((a.blocks.filter Block.used).map fun b => b.start + sizeofMem).map w).sum := by
        rw [List.map_map]
        rfl
    _ = ((s.live.map Allocation.ptr).map w).sum := (hperm.map w).sum_eq
    _ = (s.live.map fun x => blockSize x.size + 27).sum := by
        rw [List.map_map]
        exact congrArg List.sum (List.map_congr_left hw)

/-- **When a request is granted**: a request is refused only if what is held, with 27 bytes for each
allocation, and gaps that are too small, one more than there are allocations, fill the heap. -/
theorem malloc_granted {cs : List Call} {s : Client} {size : UInt16}
    (hcs : Disciplined Client.initial cs) (hs : run Client.step Client.initial cs = some s)
    (hsize : size ≠ 0)
    (hroom : (s.live.map fun x => blockSize x.size + 27).sum +
      (s.live.length + 1) * (blockSize size + 7) < memSize) :
    ∃ p h, memMalloc size s.heap = some (some p, h) := by
  obtain ⟨s', a, hs', -, hsim, -⟩ := sim_initial.run hcs
  obtain rfl : s = s' := by rw [hs, Option.some.injEq] at hs'; exact hs'
  cases halloc : alloc sizeofMem minSize (blockSize size) a.blocks with
  | some r =>
      obtain ⟨p, l⟩ := r
      obtain ⟨h, hmalloc, -, -⟩ := memMalloc_spec hsim.inv hsize halloc
      exact ⟨p + 8, h, hmalloc⟩
  | none =>
      exfalso
      have hnone := alloc_eq_none_iff.mp halloc
      have hgap : ∀ b ∈ a.blocks, b.used = false → b.length ≤ blockSize size + 7 := by
        intro b hb hfree
        have hfits : ¬ b.start + 8 + blockSize size ≤ b.stop := fun h => hnone b hb ⟨hfree, h⟩
        rw [Block.length]
        omega
      obtain ⟨hlen, hused⟩ := hsim.sum_used_le
      have hsum := hsim.inv.wf.tiles.sum_length
      have hle := (hsim.inv.separated.sum_length_le hgap).1
      rw [hlen] at hle
      omega

/-- With 700 bytes held, another 400 are granted. -/
theorem malloc_granted_beside :
    ∃ s, run Client.step Client.initial [.malloc 700] = some s ∧
      ∃ p h, memMalloc 400 s.heap = some (some p, h) := by
  have hs : (run Client.step Client.initial [.malloc 700]).isSome = true := by decide +kernel
  refine ⟨_, (Option.some_get hs).symm, ?_⟩
  exact malloc_granted (by decide +kernel) (Option.some_get hs).symm (by decide)
    (by decide +kernel +revert)

/-- **No memory is lost**: once everything has been freed, the calls that follow are answered as
by the heap after `mem_init`. -/
theorem returned_of_live_nil {cs ds : List Call} {s : Client}
    (hcs : Disciplined Client.initial cs) (hs : run Client.step Client.initial cs = some s)
    (hnil : s.live = []) (hds : Disciplined s ds) :
    observed Client.step Client.returned s ds =
      observed Client.step Client.returned Client.initial ds := by
  obtain ⟨s', a, hs', -, hsim, -⟩ := sim_initial.run hcs
  obtain rfl : s = s' := by rw [hs, Option.some.injEq] at hs'; exact hs'
  have hlive : a.live = [] := by rw [← hsim.live, hnil]; rfl
  have hblocks : a.blocks = [⟨0, memSize, false⟩] := by
    refine hsim.inv.wf.eq_singleton (by decide) fun b hb => ?_
    by_contra hused
    have howned := hsim.owned b hb (by simpa using hused)
    rw [hlive] at howned
    cases howned
  have ha : a = Blocks.initial := by
    obtain ⟨blocks, live⟩ := a
    obtain rfl : live = [] := hlive
    obtain rfl : blocks = _ := hblocks
    rfl
  rw [ha] at hsim
  have hsizes : s.sizes = Client.initial.sizes := by rw [Client.sizes, hnil]; rfl
  obtain ⟨-, -, -, -, -, hret⟩ := hsim.run hds
  obtain ⟨-, -, -, -, -, hret'⟩ := sim_initial.run (hds.of_sizes hsim sim_initial hsizes)
  rw [hret, hret']

/-- After two allocations and their release, all 1592 bytes can be had. -/
theorem returned_of_live_nil_two :
    ∃ s, run Client.step Client.initial [.malloc 100, .malloc 60, .free 0, .free 0] = some s ∧
      observed Client.step Client.returned s [.malloc 1592] =
        observed Client.step Client.returned Client.initial [.malloc 1592] := by
  have hs : (run Client.step Client.initial
      [.malloc 100, .malloc 60, .free 0, .free 0]).isSome = true := by decide +kernel
  refine ⟨_, (Option.some_get hs).symm, ?_⟩
  exact returned_of_live_nil (by decide +kernel) (Option.some_get hs).symm
    (List.eq_nil_of_length_eq_zero (by decide +kernel +revert)) (by decide +kernel +revert)

end Stm32Ecm.Net
