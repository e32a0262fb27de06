import Mathlib.Data.Nat.Find
import Stm32Ecm.Library.Chain
import Stm32Ecm.Dhcp.Handshake

/-!
The options of a message, as the grammar of RFC 2132 has them, and as `find_dhcp_option` and the
`switch` of `udp_recv_proc` treat them.

* `grammarNext`, `FirstOption`: a pad is a single byte, an end stops the parse, and every other
  option is a code, a length and a value that fits;
* `searchNext`: the positions `find_dhcp_option` looks at; it takes every byte for the code of an
  option with a length (`findDhcpOption_eq_some_iff`);
* `find_option_iff_grammar`: the search agrees with the grammar when the grammar meets no pad or
  end that the search could misread, and behind the first one that it does meet, there are bytes
  on which they disagree;
* `acts_on_message_type`: with the message type as the first option, the `switch` follows the
  grammar.
-/

namespace Stm32Ecm.Dhcp

open Chain

/-! ### The grammar and the search -/

/-- The position behind an option: code, length and value. -/
def optionEnd (attrs : ℕ → UInt8) (i : ℕ) : ℕ := i + (attrs (i + 1)).toNat + 2

/-- The grammar: `DHCP_PAD` = 0 is a single byte, `DHCP_END` = 255 stops the parse, every other
option must fit. -/
def grammarNext (attrs : ℕ → UInt8) (size i : ℕ) : Option ℕ :=
  if attrs i = 0 then if i < size then some (i + 1) else none
  else if attrs i = 255 then none
  else if optionEnd attrs i ≤ size then some (optionEnd attrs i) else none

/-- The search: every position holds the code of an option, and one that does not fit stops the
search. -/
def searchNext (attrs : ℕ → UInt8) (size : ℕ) (attr : UInt8) (i : ℕ) : Option ℕ :=
  if attrs i = attr then none
  else if optionEnd attrs i ≤ size then some (optionEnd attrs i) else none

/-- The grammar has an option with the code at this position. -/
structure OptionAt (attrs : ℕ → UInt8) (size : ℕ) (attr : UInt8) (i : ℕ) : Prop where
  starts : Reach (grammarNext attrs size) i
  code : attrs i = attr
  fits : optionEnd attrs i ≤ size

/-- The first such option. -/
def FirstOption (attrs : ℕ → UInt8) (size : ℕ) (attr : UInt8) (i : ℕ) : Prop :=
  OptionAt attrs size attr i ∧ ∀ j, OptionAt attrs size attr j → i ≤ j

/-- The search finds the first option of the grammar, and nothing when there is none. -/
def Agrees (attrs : ℕ → UInt8) (size : ℕ) (attr : UInt8) : Prop :=
  ∀ i, findDhcpOption attrs size attr = some i ↔ FirstOption attrs size attr i

/-- A pad with two bytes behind it, or an end with three: taken for an option, it can hide one or
reveal one. -/
def Misread (attrs : ℕ → UInt8) (size i : ℕ) : Prop :=
  (attrs i = 0 ∧ i + 2 < size) ∨ (attrs i = 255 ∧ i + 3 < size)

/-- Up to the first option with the code, the grammar meets none of these. -/
def PlainArea (attrs : ℕ → UInt8) (size : ℕ) (attr : UInt8) : Prop :=
  ∀ i, Reach (grammarNext attrs size) i → (∀ j < i, ¬ OptionAt attrs size attr j) →
    ¬ Misread attrs size i

/-- `find_dhcp_option` with the indices it reads, in order; `none` when the rounds run out. -/
def findDhcpOptionTrace (attrs : ℕ → UInt8) (size : ℕ) (attr : UInt8) :
    ℕ → ℕ → Option (List ℕ × Option ℕ)
  | 0, _ => none
  | fuel + 1, i =>
      if i + 1 < size then
        let next := i + (attrs (i + 1)).toNat + 2
        if next > size then some ([i + 1], none)
        else if attrs i = attr then some ([i + 1, i], some i)
        else (findDhcpOptionTrace attrs size attr fuel next).map fun out =>
          ((i + 1) :: i :: out.1, out.2)
      else some ([], none)

section Search

variable {attrs attrs' : ℕ → UInt8} {size i j : ℕ} {attr : UInt8}

lemma add_two_le_optionEnd : i + 2 ≤ optionEnd attrs i := by
  rw [optionEnd]
  omega

lemma forward_grammarNext : Forward (grammarNext attrs size) := by
  intro i k hk
  have hend : i + 2 ≤ optionEnd attrs i := add_two_le_optionEnd
  rw [grammarNext] at hk
  split_ifs at hk <;> rw [Option.some.injEq] at hk <;> omega

lemma searchNext_eq_some (h : searchNext attrs size attr i = some j) :
    attrs i ≠ attr ∧ optionEnd attrs i ≤ size ∧ j = optionEnd attrs i := by
  rw [searchNext] at h
  split_ifs at h with hattr hfits
  exact ⟨hattr, hfits, (Option.some.inj h).symm⟩

lemma forward_searchNext : Forward (searchNext attrs size attr) := by
  intro i k hk
  obtain ⟨-, -, rfl⟩ := searchNext_eq_some hk
  have hend : i + 2 ≤ optionEnd attrs i := add_two_le_optionEnd
  omega

lemma grammarNext_of_end (h : attrs i = 255) : grammarNext attrs size i = none := by
  rw [grammarNext, if_neg (by rw [h]; decide), if_pos h]

lemma grammarNext_of_pad (h : attrs i = 0) (hi : i < size) :
    grammarNext attrs size i = some (i + 1) := by
  rw [grammarNext, if_pos h, if_pos hi]

/-- What is neither a pad, nor an end, nor the option looked for, is passed over in the same
way. -/
lemma grammarNext_eq_searchNext (h₀ : attrs i ≠ 0) (h₁ : attrs i ≠ 255)
    (hattr : attrs i = attr → ¬ optionEnd attrs i ≤ size) :
    grammarNext attrs size i = searchNext attrs size attr i := by
  rw [grammarNext, searchNext, if_neg h₀, if_neg h₁]
  by_cases h : attrs i = attr
  · rw [if_pos h, if_neg (hattr h)]
  · rw [if_neg h]

/-- One round of the loop: the two tests on `i + 1` and on `next` are one. -/
lemma findDhcpOptionLoop_succ {fuel : ℕ} :
    findDhcpOptionLoop attrs size attr (fuel + 1) i =
      if optionEnd attrs i ≤ size then
        if attrs i = attr then some i
        else findDhcpOptionLoop attrs size attr fuel (optionEnd attrs i)
      else none := by
  have hend : i + 2 ≤ optionEnd attrs i := add_two_le_optionEnd
  rw [findDhcpOptionLoop]
  simp only [← optionEnd.eq_1]
  by_cases hfits : optionEnd attrs i ≤ size
  · rw [if_pos (by omega), if_neg (by omega), if_pos hfits]
  · rw [if_neg hfits]
    split_ifs <;> first | rfl | omega

/-- The loop, from a position it passes through. -/
lemma findDhcpOptionLoop_eq_some_iff {fuel : ℕ} (hi : Reach (searchNext attrs size attr) i)
    (hfuel : size ≤ i + fuel) :
    findDhcpOptionLoop attrs size attr fuel i = some j ↔
      i ≤ j ∧ Reach (searchNext attrs size attr) j ∧ attrs j = attr ∧
        optionEnd attrs j ≤ size := by
  have hendj : j + 2 ≤ optionEnd attrs j := add_two_le_optionEnd
  induction fuel generalizing i with
  | zero =>
      refine iff_of_false (by simp [findDhcpOptionLoop]) ?_
      rintro ⟨hij, -, -, hfits⟩
      omega
  | succ fuel ih =>
      -- once past `i`, the search has gone on from `i`
      have hpast : i < j → Reach (searchNext attrs size attr) j →
          attrs i ≠ attr ∧ optionEnd attrs i ≤ size ∧ optionEnd attrs i ≤ j := by
        intro hlt hj
        obtain ⟨k, hk, hkj⟩ := hi.next_le forward_searchNext hj hlt
        obtain ⟨hattr, hfits, rfl⟩ := searchNext_eq_some hk
        exact ⟨hattr, hfits, hkj⟩
      rw [findDhcpOptionLoop_succ]
      split_ifs with hfits hattr
      · rw [Option.some.injEq]
        constructor
        · rintro rfl
          exact ⟨Nat.le_refl _, hi, hattr, hfits⟩
        · rintro ⟨hij, hj, -, -⟩
          rcases Nat.lt_or_eq_of_le hij with hlt | heq
          · exact absurd hattr (hpast hlt hj).1
          · exact heq
      · have hstep : Reach (searchNext attrs size attr) (optionEnd attrs i) :=
          .step hi (by rw [searchNext, if_neg hattr, if_pos hfits])
        have hend : i + 2 ≤ optionEnd attrs i := add_two_le_optionEnd
        refine (ih hstep (by omega)).trans ⟨fun h => ⟨by omega, h.2⟩, ?_⟩
        rintro ⟨hij, hj, hcode, hfits'⟩
        rcases Nat.lt_or_eq_of_le hij with hlt | rfl
        · exact ⟨(hpast hlt hj).2.2, hj, hcode, hfits'⟩
        · exact absurd hcode hattr
      · refine iff_of_false (by simp) ?_
        rintro ⟨hij, hj, -, hfits'⟩
        rcases Nat.lt_or_eq_of_le hij with hlt | rfl
        · exact hfits (hpast hlt hj).2.1
        · exact hfits hfits'

/-- **What the search finds.** -/
lemma findDhcpOption_eq_some_iff :
    findDhcpOption attrs size attr = some j ↔
      Reach (searchNext attrs size attr) j ∧ attrs j = attr ∧ optionEnd attrs j ≤ size := by
  rw [findDhcpOption, findDhcpOptionLoop_eq_some_iff .zero (by omega)]
  simp

/-- **The search returns**, and reads below `size` only. -/
lemma findDhcpOptionTrace_eq {fuel : ℕ} (hi : i ≤ size) (hfuel : size < i + fuel) :
    ∃ reads, findDhcpOptionTrace attrs size attr fuel i =
        some (reads, findDhcpOptionLoop attrs size attr fuel i) ∧ ∀ l ∈ reads, l < size := by
  induction fuel generalizing i with
  | zero => omega
  | succ fuel ih =>
      rw [findDhcpOptionTrace, findDhcpOptionLoop]
      simp only
      split_ifs with hsize hnext hattr
      · exact ⟨_, rfl, by simp [hsize]⟩
      · exact ⟨_, rfl, by simp [hsize]; omega⟩
      · obtain ⟨reads, hreads, hlt⟩ := @ih (i + (attrs (i + 1)).toNat + 2) (by omega) (by omega)
        rw [hreads]
        refine ⟨_, rfl, ?_⟩
        simp only [List.mem_cons, forall_eq_or_imp]
        exact ⟨hsize, by omega, hlt⟩
      · exact ⟨_, rfl, by simp⟩

/-- The grammar does not get past an end. -/
lemma ne_end_of_lt (hi : Reach (grammarNext attrs size) i) (hj : Reach (grammarNext attrs size) j)
    (hlt : i < j) : attrs i ≠ 255 := by
  intro h
  obtain ⟨k, hk, -⟩ := hi.next_le forward_grammarNext hj hlt
  rw [grammarNext_of_end h] at hk
  cases hk

/-- Up to the first misreading, and up to the first option with the code, the search goes where
the grammar goes. -/
lemma reach_searchNext_of_grammar (hi : Reach (grammarNext attrs size) i) (hroom : i + 2 ≤ size)
    (hnone : ∀ j < i, ¬ OptionAt attrs size attr j)
    (hmis : ∀ j < i, Reach (grammarNext attrs size) j → ¬ Misread attrs size j) :
    Reach (searchNext attrs size attr) i :=
  hi.of_agree forward_grammarNext fun l hl hgl _ =>
    grammarNext_eq_searchNext (fun h => hmis l hl hgl (Or.inl ⟨h, by omega⟩))
      (ne_end_of_lt hgl hi hl) fun h hfits => hnone l hl ⟨hgl, h, hfits⟩

/-- Without misreadings before it, the first option of the grammar is on the way of the search. -/
lemma reach_searchNext_of_first (hplain : PlainArea attrs size attr)
    (hi : FirstOption attrs size attr i) : Reach (searchNext attrs size attr) i := by
  obtain ⟨⟨hreach, -, hfits⟩, hfirst⟩ := hi
  have hend : i + 2 ≤ optionEnd attrs i := add_two_le_optionEnd
  have hnone : ∀ j < i, ¬ OptionAt attrs size attr j := fun j hj hopt => by
    have hle := hfirst j hopt
    omega
  exact reach_searchNext_of_grammar hreach (by omega) hnone fun l hl hgl =>
    hplain l hgl fun j hj => hnone j (by omega)

lemma OptionAt.exists_first (h : OptionAt attrs size attr j) :
    ∃ i ≤ j, FirstOption attrs size attr i := by
  classical
  have hex : ∃ i, OptionAt attrs size attr i := ⟨j, h⟩
  exact ⟨Nat.find hex, Nat.find_min' hex h, Nat.find_spec hex, fun l hl => Nat.find_min' hex hl⟩

/-- The search does not get past the option it looks for. -/
lemma not_lt_of_reach_searchNext (hi : Reach (searchNext attrs size attr) i)
    (hj : Reach (searchNext attrs size attr) j) (hcode : attrs i = attr) : ¬ i < j := by
  intro hlt
  obtain ⟨k, hk, -⟩ := hi.next_le forward_searchNext hj hlt
  exact (searchNext_eq_some hk).1 hcode

/-- Without misreadings, what the search finds is the first option of the grammar. -/
lemma firstOption_of_reach_searchNext (hplain : PlainArea attrs size attr)
    (hi : Reach (searchNext attrs size attr) i) (hcode : attrs i = attr)
    (hfits : optionEnd attrs i ≤ size) : FirstOption attrs size attr i := by
  have hnone : ∀ j < i, ¬ OptionAt attrs size attr j := by
    intro j hj hopt
    obtain ⟨k, hkj, hk⟩ := hopt.exists_first
    exact not_lt_of_reach_searchNext (reach_searchNext_of_first hplain hk) hi hk.1.code (by omega)
  have hend : i + 2 ≤ optionEnd attrs i := add_two_le_optionEnd
  have hreach : Reach (grammarNext attrs size) i := by
    refine hi.of_agree forward_searchNext fun l hl hsl hgl => ?_
    have hmis := hplain l hgl fun j hj => hnone j (by omega)
    obtain ⟨k, hk, hki⟩ := hsl.next_le forward_searchNext hi hl
    obtain ⟨-, -, rfl⟩ := searchNext_eq_some hk
    have hlend : l + 2 ≤ optionEnd attrs l := add_two_le_optionEnd
    exact (grammarNext_eq_searchNext (fun h => hmis (Or.inl ⟨h, by omega⟩))
      (fun h => hmis (Or.inr ⟨h, by omega⟩)) fun h hlfits => hnone l hl ⟨hgl, h, hlfits⟩).symm
  refine ⟨⟨hreach, hcode, hfits⟩, fun j hj => ?_⟩
  by_contra hlt
  exact hnone j (by omega) hj

/-- **Agreement.** -/
lemma agrees_of_plainArea (hplain : PlainArea attrs size attr) : Agrees attrs size attr := by
  intro i
  rw [findDhcpOption_eq_some_iff]
  constructor
  · rintro ⟨hi, hcode, hfits⟩
    exact firstOption_of_reach_searchNext hplain hi hcode hfits
  · intro hi
    exact ⟨reach_searchNext_of_first hplain hi, hi.1.code, hi.1.fits⟩

/-! ### Behind a misreading -/

/-- Both readers depend on the bytes up to the position they have reached. -/
lemma reach_grammarNext_congr (h : ∀ l ≤ i, attrs' l = attrs l)
    (hi : Reach (grammarNext attrs size) i) : Reach (grammarNext attrs' size) i := by
  refine hi.of_agree forward_grammarNext fun l hl _ _ => ?_
  rw [grammarNext, grammarNext, optionEnd, optionEnd, h l (by omega), h (l + 1) hl]

lemma reach_searchNext_congr (h : ∀ l ≤ i, attrs' l = attrs l)
    (hi : Reach (searchNext attrs size attr) i) : Reach (searchNext attrs' size attr) i := by
  refine hi.of_agree forward_searchNext fun l hl _ _ => ?_
  rw [searchNext, searchNext, optionEnd, optionEnd, h l (by omega), h (l + 1) hl]

/-- The first misreading is reached by both. -/
lemma exists_misread (hplain : ¬ PlainArea attrs size attr) :
    ∃ i, Reach (grammarNext attrs size) i ∧ Reach (searchNext attrs size attr) i ∧
      Misread attrs size i := by
  classical
  simp only [PlainArea, not_forall, not_not] at hplain
  have hex : ∃ i, Reach (grammarNext attrs size) i ∧ (∀ j < i, ¬ OptionAt attrs size attr j) ∧
      Misread attrs size i := by
    obtain ⟨i, hi, hnone, hmis⟩ := hplain
    exact ⟨i, hi, hnone, hmis⟩
  obtain ⟨hi, hnone, hmis⟩ := Nat.find_spec hex
  have hroom : Nat.find hex + 2 ≤ size := by
    rcases hmis with ⟨-, h⟩ | ⟨-, h⟩ <;> omega
  refine ⟨Nat.find hex, hi, reach_searchNext_of_grammar hi hroom hnone fun l hl hgl h => ?_, hmis⟩
  exact Nat.find_min hex hl ⟨hgl, fun j hj => hnone j (by omega), h⟩

/-- **A pad hides an option**: put behind it, the search misses it. -/
lemma not_agrees_of_pad (h₀ : attr ≠ 0) (hi : Reach (grammarNext attrs size) i)
    (hi' : Reach (searchNext attrs size attr) i) (hpad : attrs i = 0) (hroom : i + 2 < size)
    (hcode : attrs (i + 1) = attr) (hlen : attrs (i + 2) = 0) : ¬ Agrees attrs size attr := by
  intro hagrees
  have hopt : OptionAt attrs size attr (i + 1) := by
    refine ⟨.step hi (grammarNext_of_pad hpad (by omega)), hcode, ?_⟩
    rw [optionEnd, hlen, UInt8.toNat_zero]
    omega
  obtain ⟨j, hj, hfirst⟩ := hopt.exists_first
  obtain ⟨hjreach, hjcode, -⟩ := findDhcpOption_eq_some_iff.mp ((hagrees j).mpr hfirst)
  have hji : j ≠ i := by
    rintro rfl
    exact h₀ (hjcode.symm.trans hpad)
  have hle := not_lt_of_reach_searchNext hjreach hi' hjcode
  -- so the search found it at `i + 1`, but from `i` it goes to `i + 2` at least
  obtain ⟨k, hk, hkj⟩ := hi'.next_le forward_searchNext hjreach (by omega)
  obtain ⟨-, -, rfl⟩ := searchNext_eq_some hk
  have hend : i + 2 ≤ optionEnd attrs i := add_two_le_optionEnd
  omega

/-- **An end does not stop the search**: an option put behind it is found. -/
lemma not_agrees_of_end (h₁ : attr ≠ 255) (hi : Reach (grammarNext attrs size) i)
    (hi' : Reach (searchNext attrs size attr) i) (hstop : attrs i = 255) (hroom : i + 3 < size)
    (hskip : attrs (i + 1) = 0) (hcode : attrs (i + 2) = attr) (hlen : attrs (i + 3) = 0) :
    ¬ Agrees attrs size attr := by
  intro hagrees
  have hend : optionEnd attrs i = i + 2 := by
    rw [optionEnd, hskip, UInt8.toNat_zero]
  have hnext : searchNext attrs size attr i = some (i + 2) := by
    rw [searchNext, if_neg fun h => h₁ (h.symm.trans hstop), hend, if_pos (by omega)]
  have hfound : findDhcpOption attrs size attr = some (i + 2) := by
    refine findDhcpOption_eq_some_iff.mpr ⟨.step hi' hnext, hcode, ?_⟩
    rw [optionEnd, hlen, UInt8.toNat_zero]
    omega
  exact ne_end_of_lt hi ((hagrees _).mp hfound).1.starts (by omega) hstop

/-- Behind the first misreading there are bytes on which the search disagrees. -/
lemma exists_not_agrees (h₀ : attr ≠ 0) (h₁ : attr ≠ 255) (hplain : ¬ PlainArea attrs size attr) :
    ∃ i attrs', Reach (grammarNext attrs size) i ∧ Misread attrs size i ∧
      (∀ l ≤ i, attrs' l = attrs l) ∧ ¬ Agrees attrs' size attr := by
  obtain ⟨i, hi, hi', hmis⟩ := exists_misread hplain
  have hkeep : ∀ bs : List UInt8, ∀ l ≤ i, Memory.write attrs (i + 1) bs l = attrs l :=
    fun bs l hl => Memory.write_apply_of_lt (by omega)
  rcases hmis with ⟨hpad, hroom⟩ | ⟨hstop, hroom⟩
  · refine ⟨i, Memory.write attrs (i + 1) [attr, 0], hi, Or.inl ⟨hpad, hroom⟩, hkeep _, ?_⟩
    refine not_agrees_of_pad h₀ (reach_grammarNext_congr (hkeep _) hi)
      (reach_searchNext_congr (hkeep _) hi') ?_ hroom ?_ ?_
    · rw [hkeep _ i (Nat.le_refl i), hpad]
    · simp [Memory.write]
    · simp [Memory.write]
  · refine ⟨i, Memory.write attrs (i + 1) [0, attr, 0], hi, Or.inr ⟨hstop, hroom⟩, hkeep _, ?_⟩
    refine not_agrees_of_end h₁ (reach_grammarNext_congr (hkeep _) hi)
      (reach_searchNext_congr (hkeep _) hi') ?_ hroom ?_ ?_ ?_
    · rw [hkeep _ i (Nat.le_refl i), hstop]
    · simp [Memory.write]
    · simp [Memory.write]
    · simp [Memory.write]

end Search

/-- **Option lookup and the option grammar.**  `find_dhcp_option` returns, and reads indices below
`size` only.  It agrees with the grammar if the grammar, up to the first option with the code,
meets no pad and no end that a reader with one stride for all bytes could misread; and for the
first of those that it does meet, there are bytes to put behind it on which the search
disagrees. -/
theorem find_option_iff_grammar (attrs : ℕ → UInt8) (size : ℕ) (attr : UInt8) (h₀ : attr ≠ 0)
    (h₁ : attr ≠ 255) :
    (∃ reads, findDhcpOptionTrace attrs size attr (size + 1) 0 =
        some (reads, findDhcpOption attrs size attr) ∧ ∀ l ∈ reads, l < size) ∧
      (PlainArea attrs size attr → Agrees attrs size attr) ∧
      (¬ PlainArea attrs size attr → ∃ i attrs', Reach (grammarNext attrs size) i ∧
        Misread attrs size i ∧ (∀ l ≤ i, attrs' l = attrs l) ∧ ¬ Agrees attrs' size attr) := by
  refine ⟨?_, agrees_of_plainArea, exists_not_agrees h₀ h₁⟩
  obtain ⟨reads, hreads, hlt⟩ :=
    @findDhcpOptionTrace_eq attrs size 0 attr (size + 1) (Nat.zero_le size) (by omega)
  refine ⟨reads, ?_, hlt⟩
  rw [hreads, findDhcpOptionLoop_add size 1 (by omega), findDhcpOption]

/-- A request as a client writes it: message type, requested address, end. -/
def plainRequest : List UInt8 := [53, 1, 3, 50, 4, 192, 168, 7, 2, 255]

/-- The same options with a pad between them. -/
def paddedRequest : List UInt8 := [53, 1, 3, 0, 50, 4, 192, 168, 7, 2, 255]

/-- The area as an array. -/
def area (bs : List UInt8) : ℕ → UInt8 := fun i => bs.getD i 0

theorem find_option_plainRequest :
    findDhcpOption (area plainRequest) 10 50 = some 3 ∧
      FirstOption (area plainRequest) 10 50 3 := by
  have hfound : findDhcpOption (area plainRequest) 10 50 = some 3 := by decide
  refine ⟨hfound, ?_⟩
  refine ((find_option_iff_grammar (area plainRequest) 10 50 (by decide) (by decide)).2.1
    (fun i _ _ hmis => ?_) 3).mp hfound
  have hno : ∀ i < 8, area plainRequest i ≠ 0 ∧ area plainRequest i ≠ 255 := by decide
  rcases hmis with ⟨h, hroom⟩ | ⟨h, hroom⟩
  · exact (hno i (by omega)).1 h
  · exact (hno i (by omega)).2 h

/-- The pad hides the requested address, which the grammar has at position 4. -/
theorem padded_request_missed :
    FirstOption (area paddedRequest) 11 50 4 ∧ findDhcpOption (area paddedRequest) 11 50 = none ∧
      ¬ Agrees (area paddedRequest) 11 50 := by
  have hmissed : findDhcpOption (area paddedRequest) 11 50 = none := by decide
  have hstarts : Reach (grammarNext (area paddedRequest) 11) 4 :=
    .step (.step .zero (show _ = some 3 by decide)) (by decide)
  have hfirst : FirstOption (area paddedRequest) 11 50 4 := by
    refine ⟨⟨hstarts, by decide, by decide⟩, fun j hj => ?_⟩
    have hcode : ∀ j < 4, area paddedRequest j ≠ 50 := by decide
    by_contra hlt
    exact hcode j (by omega) hj.code
  refine ⟨hfirst, hmissed, fun hagrees => ?_⟩
  have hfound := (hagrees 4).mpr hfirst
  rw [hmissed] at hfound
  cases hfound

/-! ### The message type -/

/-- The cases of the `switch` in `udp_recv_proc`. -/
inductive MessageCase where
  | discover
  | request
  | ignored
  deriving DecidableEq, Repr

/-- The case taken on the assembled message. -/
def switchCase (d : ℕ → UInt8) : MessageCase :=
  if messageType d = 1 then .discover else if messageType d = 3 then .request else .ignored

/-- What is done in it. -/
def MessageCase.act (c : DhcpConfig) (alloc : Bool) (s : DhcpServer) :
    MessageCase → DhcpServer × Option (List UInt8)
  | .discover => Dhcp.discover c alloc s
  | .request => Dhcp.request c alloc s
  | .ignored => (s, none)

/-- The options of a message, behind the header and the cookie. -/
def messageOptions (payload : List UInt8) : ℕ → UInt8 := fun i => payload.getD (dpOptions + i) 0

/-- The grammar finds the option 53, wherever it stands, with one byte, the message type. -/
def HasMessageType (payload : List UInt8) (msgType : UInt8) : Prop :=
  ∃ i, FirstOption (messageOptions payload) (payload.length - dpOptions) 53 i ∧
    messageOptions payload (i + 1) = 1 ∧ messageOptions payload (i + 2) = msgType

/-- A `BOOTREQUEST` = 1 with the magic cookie and a message type. -/
structure DhcpMessage (payload : List UInt8) (msgType : UInt8) : Prop where
  op : payload[0]? = some 1
  cookie : (payload.drop 236).take 4 = magicCookie
  type : HasMessageType payload msgType

lemma dispatch_eq (c : DhcpConfig) (alloc : Bool) (s : DhcpServer) :
    dispatch c alloc s = (switchCase s.data).act c alloc s := by
  rw [dispatch, switchCase]
  split_ifs <;> rfl

section MessageType

variable {payload : List UInt8} {d : ℕ → UInt8} {msgType : UInt8}

lemma switchCase_eq_discover : switchCase d = .discover ↔ messageType d = 1 := by
  rw [switchCase]
  split_ifs with h₁ h₃ <;> simp [h₁]

lemma switchCase_eq_request : switchCase d = .request ↔ messageType d = 3 := by
  rw [switchCase]
  split_ifs with h₁ h₃
  · simp [h₁]
  · simp [h₃]
  · simp [h₃]

/-- A long enough datagram brings its own byte for the `switch`. -/
lemma messageType_assemble (hlen : 243 ≤ payload.length) :
    messageType (assemble d payload) = messageOptions payload 2 := by
  rw [messageType, assemble, Memory.write, if_pos (Nat.zero_le _), Nat.sub_zero,
    List.getElem?_take_of_lt (by decide), messageOptions, List.getD_eq_getElem?_getD,
    List.getElem?_eq_getElem (show dpOptions + 2 < payload.length from hlen), Option.getD_some,
    Option.getD_some]

/-- With the message type as the first option, the grammar finds it there. -/
lemma hasMessageType_iff (hlen : 243 ≤ payload.length)
    (hcode : messageOptions payload 0 = 53) (hone : messageOptions payload 1 = 1) :
    HasMessageType payload msgType ↔ messageOptions payload 2 = msgType := by
  have hfirst : FirstOption (messageOptions payload) (payload.length - dpOptions) 53 0 := by
    refine ⟨⟨.zero, hcode, ?_⟩, fun j _ => Nat.zero_le j⟩
    rw [optionEnd, hone, dpOptions]
    simp only [UInt8.reduceToNat]
    omega
  constructor
  · rintro ⟨i, ⟨-, hleast⟩, -, htype⟩
    obtain rfl : i = 0 := Nat.le_zero.mp (hleast 0 hfirst.1)
    exact htype
  · intro htype
    exact ⟨0, hfirst, hone, htype⟩

end MessageType

/-- **The message type decides.**  A datagram whose first option is the message type is acted on
as a discovery (a request) exactly if the grammar finds the type 1 (3) in it.  Neither `dp_op` nor
the magic cookie are looked at. -/
theorem acts_on_message_type (c : DhcpConfig) (s : DhcpServer) (p : Datagram)
    (hlen : 243 ≤ p.payload.length) (hcode : messageOptions p.payload 0 = 53)
    (hone : messageOptions p.payload 1 = 1) :
    udpRecvProc c s p = (switchCase (assemble s.data p.payload)).act c p.alloc
        { s with data := assemble s.data p.payload } ∧
      (switchCase (assemble s.data p.payload) = .discover ↔ HasMessageType p.payload 1) ∧
      (switchCase (assemble s.data p.payload) = .request ↔ HasMessageType p.payload 3) := by
  refine ⟨dispatch_eq c p.alloc _, ?_, ?_⟩
  · rw [switchCase_eq_discover, messageType_assemble hlen, hasMessageType_iff hlen hcode hone]
  · rw [switchCase_eq_request, messageType_assemble hlen, hasMessageType_iff hlen hcode hone]

/-- A message with a given `dp_op` and the given options. -/
def messageOf (op : UInt8) (options : List UInt8) : List UInt8 :=
  op :: List.replicate 235 0 ++ magicCookie ++ options

theorem acts_on_message_type_request :
    switchCase (assemble (boot mainEntries).data (messageOf 1 plainRequest)) = .request ∧
      HasMessageType (messageOf 1 plainRequest) 3 := by
  have hcase : switchCase (assemble (boot mainEntries).data (messageOf 1 plainRequest)) =
      .request := by
    decide +kernel
  exact ⟨hcase, (acts_on_message_type mainConfig (boot mainEntries)
    ⟨messageOf 1 plainRequest, true⟩ (by decide +kernel) (by decide +kernel)
    (by decide +kernel)).2.2.mp hcase⟩

/-- A reply of another server is acted on as a discovery; a discovery that gives the client
identifier first is ignored. -/
theorem message_misclassified :
    (switchCase (assemble (boot mainEntries).data (messageOf 2 [53, 1, 1, 255])) = .discover ∧
        ¬ DhcpMessage (messageOf 2 [53, 1, 1, 255]) 1) ∧
      (switchCase (assemble (boot mainEntries).data (messageOf 1 [61, 1, 0, 53, 1, 1, 255])) =
          .ignored ∧
        DhcpMessage (messageOf 1 [61, 1, 0, 53, 1, 1, 255]) 1) := by
  refine ⟨⟨by decide +kernel, fun h => ?_⟩, by decide +kernel, ?_⟩
  · have hop := h.op
    rw [messageOf] at hop
    cases hop
  · refine ⟨rfl, by decide +kernel, 3, ⟨⟨?_, by decide +kernel, by decide +kernel⟩,
      fun j hj => ?_⟩, by decide +kernel, by decide +kernel⟩
    · exact .step .zero (by decide +kernel)
    · have hcode : ∀ j < 3, messageOptions (messageOf 1 [61, 1, 0, 53, 1, 1, 255]) j ≠ 53 := by
        decide +kernel
      by_contra hlt
      exact hcode j (by omega) hj.code

end Stm32Ecm.Dhcp
