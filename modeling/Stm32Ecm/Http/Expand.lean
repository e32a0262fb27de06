import Mathlib.Data.List.Chain
import Mathlib.Data.List.Induction
import Stm32Ecm.Http.Ssi

/-!
What a page with server-side includes stands for, read in one go.

* `Scan.read`: one byte of the page, for a reader that knows how much of a tag it has seen;
* `Page.push`, `readPage`: the page so far, with the inserts in the place of its tags; `expand` is
  the page as a whole;
* `Ssi.scan`: what the parser of `httpd.c` has seen; `Ssi.scan_onNone` and its companions say that
  its steps are those of `Scan.read`;
* `expand_pieces`: a page that consists of texts and tags is expanded tag by tag.
-/

namespace Stm32Ecm.Http

/-! ### One byte -/

/-- What has been seen of a tag: nothing, the first bytes of the lead-in, the first bytes of the
name, or the name and the first bytes of the lead-out. -/
inductive Scan where
  | text
  | leadin (i : ℕ)
  | name (n : List UInt8)
  | leadout (n : List UInt8) (i : ℕ)
  deriving DecidableEq

/-- The next byte, and the name of the tag if it is complete now.  A byte that does not fit ends
the tag and is not looked at again. -/
def Scan.read (s : Scan) (c : UInt8) : Scan × Option (List UInt8) :=
  match s with
  | .text => (if c = 60 then .leadin 1 else .text, none)
  | .leadin i =>
      (if c = leadIn.getD i 0 then if i + 1 = leadIn.length then .name [] else .leadin (i + 1)
        else .text, none)
  | .name n =>
      (if n = [] ∧ isBlank c then .name []
        else if c = 45 ∨ isBlank c then
          if n = [] then .text else .leadout n (if c = 45 then 1 else 0)
        else if n.length < maxTagNameLen then .name (n ++ [c])
        else .text, none)
  | .leadout n i =>
      if i = 0 ∧ isBlank c then (.leadout n 0, none)
      else if c = leadOut.getD i 0 then
        if i + 1 = leadOut.length then (.text, some (n.takeWhile (· ≠ 0)))
        else (.leadout n (i + 1), none)
      else (.text, none)

/-! ### A page -/

/-- A page so far: what stands before a tag that has begun, that tag as far as it has been read,
and the names of the tags before it. -/
structure Page where
  scan : Scan
  done : List UInt8
  held : List UInt8
  names : List (List UInt8)
  deriving DecidableEq

def Page.empty : Page := ⟨.text, [], [], []⟩

/-- The next byte; a tag that is complete makes room for its insert. -/
def Page.push (inserts : List (List UInt8)) (p : Page) (c : UInt8) : Page :=
  match p.scan.read c with
  | (s, some n) => ⟨s, p.done ++ inserts.getD p.names.length [], [], p.names ++ [n]⟩
  | (.text, none) => ⟨.text, p.done ++ p.held ++ [c], [], p.names⟩
  | (s, none) => ⟨s, p.done, p.held ++ [c], p.names⟩

def readPage (inserts : List (List UInt8)) (data : List UInt8) : Page :=
  data.foldl (Page.push inserts) Page.empty

/-- The bytes so far, where a tag that is not complete is text. -/
def Page.bytes (p : Page) : List UInt8 := p.done ++ p.held

/-- **The page**, with its inserts. -/
def expand (inserts : List (List UInt8)) (data : List UInt8) : List UInt8 :=
  (readPage inserts data).bytes

/-- The names of the tags of a page. -/
def tagNames (data : List UInt8) : List (List UInt8) := (readPage [] data).names

section Pages

variable {inserts more : List (List UInt8)} {data : List UInt8} {c : UInt8} {p : Page}
  {n : List UInt8} {s t : Scan}

lemma readPage_concat :
    readPage inserts (data ++ [c]) = (readPage inserts data).push inserts c := by
  rw [readPage, List.foldl_concat, readPage]

lemma push_of_tag (inserts : List (List UInt8)) (h : p.scan.read c = (s, some n)) :
    p.push inserts c =
      ⟨s, p.done ++ inserts.getD p.names.length [], [], p.names ++ [n]⟩ := by
  rw [Page.push, h]

lemma push_of_text (inserts : List (List UInt8)) (h : p.scan.read c = (.text, none)) :
    p.push inserts c = ⟨.text, p.done ++ p.held ++ [c], [], p.names⟩ := by
  rw [Page.push, h]

lemma push_of_none (inserts : List (List UInt8)) (h : p.scan.read c = (s, none)) (hs : s ≠ .text) :
    p.push inserts c = ⟨s, p.done, p.held ++ [c], p.names⟩ := by
  rw [Page.push, h]
  cases s <;> simp at hs ⊢

/-- A complete tag is followed by text. -/
lemma read_tag (h : s.read c = (t, some n)) : t = .text := by
  cases s with
  | text => simp [Scan.read] at h
  | leadin i => simp [Scan.read] at h
  | name m => simp [Scan.read] at h
  | leadout m i =>
      rw [Scan.read] at h
      split_ifs at h
      · cases h
      · cases h
        rfl
      · cases h
      · cases h

/-- The three ways a byte is read. -/
lemma push_cases (inserts : List (List UInt8)) (p : Page) (c : UInt8) :
    (∃ n, p.scan.read c = (.text, some n) ∧ p.push inserts c =
        ⟨.text, p.done ++ inserts.getD p.names.length [], [], p.names ++ [n]⟩) ∨
      (p.scan.read c = (.text, none) ∧
        p.push inserts c = ⟨.text, p.done ++ p.held ++ [c], [], p.names⟩) ∨
      ∃ s, s ≠ .text ∧ p.scan.read c = (s, none) ∧
        p.push inserts c = ⟨s, p.done, p.held ++ [c], p.names⟩ := by
  cases h : p.scan.read c with
  | mk s o =>
      cases o with
      | some n =>
          obtain rfl := read_tag h
          exact Or.inl ⟨n, rfl, push_of_tag inserts h⟩
      | none =>
          by_cases hs : s = .text
          · subst hs
            exact Or.inr (Or.inl ⟨rfl, push_of_text inserts h⟩)
          · exact Or.inr (Or.inr ⟨s, hs, rfl, push_of_none inserts h hs⟩)

/-- What the inserts do not change. -/
lemma readPage_frame (inserts inserts' : List (List UInt8)) (data : List UInt8) :
    (readPage inserts data).scan = (readPage inserts' data).scan ∧
      (readPage inserts data).held = (readPage inserts' data).held ∧
        (readPage inserts data).names = (readPage inserts' data).names := by
  induction data using List.reverseRecOn with
  | nil => exact ⟨rfl, rfl, rfl⟩
  | append_singleton data c ih =>
      obtain ⟨hscan, hheld, hnames⟩ := ih
      rw [readPage_concat, readPage_concat]
      rcases push_cases inserts (readPage inserts data) c with
        ⟨n, h, hp⟩ | ⟨h, hp⟩ | ⟨s, hs, h, hp⟩
      · rw [hp, push_of_tag _ (hscan ▸ h), hnames]
        exact ⟨rfl, rfl, rfl⟩
      · rw [hp, push_of_text _ (hscan ▸ h), hnames]
        exact ⟨rfl, rfl, rfl⟩
      · rw [hp, push_of_none _ (hscan ▸ h) hs, hnames, hheld]
        exact ⟨rfl, rfl, rfl⟩

/-- Only the inserts of the tags that have been read count. -/
lemma readPage_append (more : List (List UInt8))
    (h : (readPage inserts data).names.length ≤ inserts.length) :
    readPage (inserts ++ more) data = readPage inserts data := by
  induction data using List.reverseRecOn with
  | nil => rfl
  | append_singleton data c ih =>
      rw [readPage_concat] at h ⊢
      rw [readPage_concat]
      rcases push_cases inserts (readPage inserts data) c with
        ⟨n, hr, hp⟩ | ⟨hr, hp⟩ | ⟨s, hs, hr, hp⟩
      · rw [hp, List.length_append, List.length_singleton] at h
        rw [ih (by omega), hp, push_of_tag _ hr, List.getD_append _ _ _ _ (by omega)]
      · rw [hp] at h
        rw [ih h, hp, push_of_text _ hr]
      · rw [hp] at h
        rw [ih h, hp, push_of_none _ hr hs]

/-- While no tag has begun, nothing is held back. -/
lemma held_eq_nil (h : (readPage inserts data).scan = .text) :
    (readPage inserts data).held = [] := by
  induction data using List.reverseRecOn with
  | nil => rfl
  | append_singleton data c ih =>
      rw [readPage_concat] at h ⊢
      rcases push_cases inserts (readPage inserts data) c with
        ⟨n, hr, hp⟩ | ⟨hr, hp⟩ | ⟨s, hs, hr, hp⟩
      · rw [hp]
      · rw [hp]
      · rw [hp] at h
        exact absurd h hs

end Pages

/-! ### The parser of `httpd.c` -/

/-- What the parser has seen.  At the end of the lead-in it moves on one round later. -/
def Ssi.scan (s : Ssi) : Scan :=
  match s.tagState with
  | .none | .sending => .text
  | .leadin => if s.tagIndex = leadIn.length then .name [] else .leadin s.tagIndex
  | .found => .name (s.tagName.take s.tagIndex)
  | .leadout => .leadout s.tagName s.tagIndex

/-- The bounds of the index and of the name. -/
def Ssi.Bounded (s : Ssi) : Prop :=
  match s.tagState with
  | .none | .sending => True
  | .leadin => s.tagIndex ≤ leadIn.length
  | .found => s.tagIndex ≤ s.tagName.length ∧ s.tagIndex ≤ maxTagNameLen
  | .leadout => s.tagIndex < leadOut.length ∧ s.tagName.length ≤ maxTagNameLen

section Steps

variable {s : Ssi} {c : UInt8}

@[simp] lemma leadIn_length : leadIn.length = 5 := by decide

@[simp] lemma leadOut_length : leadOut.length = 3 := by decide

@[simp] lemma leadIn_zero : leadIn.getD 0 0 = 60 := by decide

@[simp] lemma leadOut_zero : leadOut.getD 0 0 = 45 := by decide

lemma scan_onNone (hs : s.tagState = .none) :
    s.scan.read c = ((s.onNone c).scan, none) ∧ (s.onNone c).Bounded := by
  rw [Ssi.onNone, leadIn_zero]
  split_ifs with hc
  · simp [Ssi.scan, hs, Scan.read, hc, Ssi.next, Ssi.Bounded]
  · simp [Ssi.scan, hs, Scan.read, hc, Ssi.next, Ssi.Bounded]

/-- The lead-in is complete: no byte is read. -/
lemma scan_onLeadin_end (hs : s.tagState = .leadin) (hi : s.tagIndex = leadIn.length) :
    (s.onLeadin c).scan = s.scan ∧ (s.onLeadin c).Bounded := by
  rw [Ssi.onLeadin, if_pos hi]
  simp [Ssi.scan, hs, hi, Ssi.Bounded]

lemma scan_onLeadin (hs : s.tagState = .leadin) (hb : s.Bounded)
    (hi : s.tagIndex ≠ leadIn.length) :
    s.scan.read c = ((s.onLeadin c).scan, none) ∧ (s.onLeadin c).Bounded := by
  have hle : s.tagIndex ≤ leadIn.length := by simpa only [Ssi.Bounded, hs] using hb
  have hscan : s.scan = .leadin s.tagIndex := by simp only [Ssi.scan, hs, if_neg hi]
  rw [hscan, Ssi.onLeadin, if_neg hi, Scan.read]
  by_cases hc : c = leadIn.getD s.tagIndex 0
  · rw [if_pos hc, if_pos hc]
    constructor
    · simp only [Ssi.scan, Ssi.next, hs]
    · simp only [Ssi.Bounded, Ssi.next, hs]
      omega
  · rw [if_neg hc, if_neg hc]
    exact ⟨rfl, trivial⟩

lemma scan_onFound (hs : s.tagState = .found) (hb : s.Bounded) :
    s.scan.read c = ((s.onFound c).scan, none) ∧ (s.onFound c).Bounded := by
  obtain ⟨hlen, hmax⟩ : s.tagIndex ≤ s.tagName.length ∧ s.tagIndex ≤ maxTagNameLen := by
    simpa only [Ssi.Bounded, hs] using hb
  have hscan : s.scan = .name (s.tagName.take s.tagIndex) := by simp only [Ssi.scan, hs]
  have hnil : s.tagName.take s.tagIndex = [] ↔ s.tagIndex = 0 := by
    rw [← List.length_eq_zero_iff, List.length_take, Nat.min_eq_left hlen]
  have hlength : (s.tagName.take s.tagIndex).length = s.tagIndex := by
    rw [List.length_take, Nat.min_eq_left hlen]
  rw [hscan, Ssi.onFound, Scan.read]
  simp only [hnil, hlength, leadOut_zero]
  by_cases hblank : s.tagIndex = 0 ∧ isBlank c = true
  · rw [if_pos hblank, if_pos hblank]
    refine ⟨?_, ?_⟩
    · simp only [Ssi.scan, Ssi.next, hs, hblank.1, List.take_zero]
    · simp only [Ssi.Bounded, Ssi.next, hs]
      exact ⟨hlen, hmax⟩
  rw [if_neg hblank, if_neg hblank]
  by_cases hend : c = 45 ∨ isBlank c = true
  · rw [if_pos hend, if_pos hend]
    by_cases hzero : s.tagIndex = 0
    · rw [if_pos hzero, if_pos hzero]
      exact ⟨rfl, trivial⟩
    · rw [if_neg hzero, if_neg hzero]
      refine ⟨rfl, ?_⟩
      simp only [Ssi.Bounded, Ssi.next, hlength, leadOut_length]
      exact ⟨by split_ifs <;> omega, hmax⟩
  rw [if_neg hend, if_neg hend]
  by_cases hlt : s.tagIndex < maxTagNameLen
  · rw [if_pos hlt, if_pos hlt]
    have htake : (s.tagName.take s.tagIndex ++ [c]).take (s.tagIndex + 1) =
        s.tagName.take s.tagIndex ++ [c] :=
      List.take_of_length_le (by rw [List.length_append, hlength, List.length_singleton])
    refine ⟨?_, ?_⟩
    · simp only [Ssi.scan, Ssi.next, hs, htake]
    · simp only [Ssi.Bounded, Ssi.next, hs, List.length_append, hlength, List.length_singleton]
      omega
  · rw [if_neg hlt, if_neg hlt]
    exact ⟨rfl, trivial⟩

lemma complete_iff : s.complete c = true ↔
    s.tagState = .leadout ∧ s.tagIndex = 2 ∧ c = leadOut.getD s.tagIndex 0 := by
  simp [Ssi.complete, and_assoc]

lemma scan_onLeadout (hs : s.tagState = .leadout) (hb : s.Bounded) (hc : s.complete c = false) :
    s.scan.read c = ((s.onLeadout c).scan, none) ∧ (s.onLeadout c).Bounded := by
  obtain ⟨hlen, hmax⟩ : s.tagIndex < leadOut.length ∧ s.tagName.length ≤ maxTagNameLen := by
    simpa only [Ssi.Bounded, hs] using hb
  rw [leadOut_length] at hlen
  have hscan : s.scan = .leadout s.tagName s.tagIndex := by simp only [Ssi.scan, hs]
  rw [hscan, Ssi.onLeadout, Scan.read]
  by_cases hblank : s.tagIndex = 0 ∧ isBlank c = true
  · rw [if_pos hblank, if_pos hblank]
    refine ⟨?_, ?_⟩
    · simp only [Ssi.scan, Ssi.next, hs, hblank.1]
    · simp only [Ssi.Bounded, Ssi.next, hs, leadOut_length]
      exact ⟨hlen, hmax⟩
  rw [if_neg hblank, if_neg hblank]
  by_cases hnext : c = leadOut.getD s.tagIndex 0
  · have hlast : s.tagIndex ≠ leadOut.length - 1 := by
      intro hlast
      rw [complete_iff.mpr ⟨hs, hlast, hnext⟩] at hc
      cases hc
    rw [if_pos hnext, if_pos hnext, if_neg hlast, if_neg (by rw [leadOut_length] at *; omega)]
    refine ⟨?_, ?_⟩
    · simp only [Ssi.scan, Ssi.next, hs]
    · simp only [Ssi.Bounded, Ssi.next, hs, leadOut_length]
      rw [leadOut_length] at hlast
      exact ⟨by omega, hmax⟩
  · rw [if_neg hnext, if_neg hnext]
    exact ⟨rfl, trivial⟩

/-- The tag is complete. -/
lemma scan_complete (hc : s.complete c = true) :
    s.scan.read c = (.text, some (s.tagName.takeWhile (· ≠ 0))) := by
  obtain ⟨hs, hi, hc⟩ := complete_iff.mp hc
  have hscan : s.scan = .leadout s.tagName s.tagIndex := by simp only [Ssi.scan, hs]
  have hlast : s.tagIndex + 1 = leadOut.length := by rw [hi, leadOut_length]
  rw [hscan, Scan.read, if_neg (by simp [hi]), if_pos hc, if_pos hlast]

end Steps

/-! ### Texts and tags -/

/-- A text and the tag behind it, with the blanks around its name. -/
structure Piece where
  text : List UInt8
  before : List UInt8
  name : List UInt8
  after : List UInt8

/-- Text in which no lead-in begins: `<` is not followed by `!`, nor is it the last byte. -/
def Plain (t : List UInt8) : Prop :=
  (t.IsChain fun a b => ¬ (a = 60 ∧ b = 33)) ∧ ∀ c ∈ t.getLast?, c ≠ 60

/-- A tag that the parser accepts. -/
structure Piece.Valid (q : Piece) : Prop where
  plain : Plain q.text
  before : ∀ c ∈ q.before, isBlank c = true
  after : ∀ c ∈ q.after, isBlank c = true
  name : ∀ c ∈ q.name, isBlank c = false ∧ c ≠ 45 ∧ c ≠ 0
  nonempty : q.name ≠ []
  short : q.name.length ≤ maxTagNameLen

/-- The bytes of the tag. -/
def Piece.tag (q : Piece) : List UInt8 := leadIn ++ (q.before ++ (q.name ++ (q.after ++ leadOut)))

/-- The bytes of the tag but the last. -/
def Piece.start (q : Piece) : List UInt8 :=
  leadIn ++ (q.before ++ (q.name ++ (q.after ++ [45, 45])))

/-- The page as it is written. -/
def render : List Piece → List UInt8 → List UInt8
  | [], last => last
  | q :: qs, last => q.text ++ (q.tag ++ render qs last)

/-- The page with the inserts in the place of the tags. -/
def fill : List (List UInt8) → List Piece → List UInt8 → List UInt8
  | _, [], last => last
  | inserts, q :: qs, last => q.text ++ (inserts.headD [] ++ fill inserts.tail qs last)

/-- Bytes that are held back: the reader is inside a tag after each of them. -/
def Scan.hold : Scan → List UInt8 → Option Scan
  | s, [] => some s
  | s, c :: l =>
      match s.read c with
      | (_, some _) => none
      | (t, none) => if t = .text then none else t.hold l

section Pieces

variable {inserts : List (List UInt8)} {p : Page} {s t u : Scan} {c : UInt8}
  {l l' ws m : List UInt8} {q : Piece} {qs : List Piece}

lemma hold_cons (h : s.read c = (t, none)) (ht : t ≠ .text) : s.hold (c :: l) = t.hold l := by
  rw [Scan.hold, h]
  exact if_neg ht

lemma hold_append : s.hold (l ++ l') = (s.hold l).bind fun t => t.hold l' := by
  induction l generalizing s with
  | nil => rfl
  | cons c l ih =>
      rw [List.cons_append, Scan.hold, Scan.hold]
      rcases s.read c with ⟨t, _ | n⟩
      · dsimp only
        split_ifs
        · rfl
        · exact ih
      · rfl

lemma foldl_of_hold (h : s.hold l = some t) (hp : p.scan = s) (hne : l ≠ []) :
    l.foldl (Page.push inserts) p = ⟨t, p.done, p.held ++ l, p.names⟩ := by
  induction l generalizing s p with
  | nil => exact absurd rfl hne
  | cons c l ih =>
      rw [Scan.hold] at h
      cases hr : s.read c with
      | mk u o =>
          cases o with
          | some n => rw [hr] at h; cases h
          | none =>
              rw [hr] at h
              dsimp only at h
              split_ifs at h with hu
              rw [List.foldl_cons, push_of_none _ (hp ▸ hr) hu]
              cases l with
              | nil =>
                  obtain rfl : u = t := by simpa [Scan.hold] using h
                  rfl
              | cons d l =>
                  rw [ih h rfl (by simp), List.append_assoc, List.singleton_append]

/-- Blanks in front of the name, or of the lead-out. -/
lemma hold_blanks (hws : ∀ c ∈ ws, isBlank c = true) :
    (Scan.name []).hold ws = some (.name []) ∧
      (Scan.leadout m 0).hold ws = some (.leadout m 0) := by
  induction ws with
  | nil => exact ⟨rfl, rfl⟩
  | cons c ws ih =>
      obtain ⟨hc, hws⟩ := List.forall_mem_cons.mp hws
      obtain ⟨hname, hleadout⟩ := ih hws
      constructor
      · rw [hold_cons (t := .name []) (by simp [Scan.read, hc]) (by simp), hname]
      · rw [hold_cons (t := .leadout m 0) (by simp [Scan.read, hc]) (by simp), hleadout]

lemma hold_name (hl : ∀ c ∈ l, isBlank c = false ∧ c ≠ 45 ∧ c ≠ 0)
    (hlen : (m ++ l).length ≤ maxTagNameLen) : (Scan.name m).hold l = some (.name (m ++ l)) := by
  induction l generalizing m with
  | nil => rw [List.append_nil]; rfl
  | cons c l ih =>
      obtain ⟨⟨hblank, hc, -⟩, hl⟩ := List.forall_mem_cons.mp hl
      have hlt : m.length < maxTagNameLen := by
        rw [List.length_append, List.length_cons] at hlen
        omega
      rw [hold_cons (t := .name (m ++ [c])) (by simp [Scan.read, hblank, hc, hlt]) (by simp),
        ih hl (by simpa using hlen), List.append_assoc, List.singleton_append]

lemma tag_eq : q.tag = q.start ++ [62] := by simp [Piece.tag, Piece.start, leadOut, bytes]

lemma start_ne_nil : q.start ≠ [] := by simp [Piece.start, leadIn, bytes]

/-- All of a tag but its last byte is held back. -/
lemma hold_tag (hq : q.Valid) : Scan.text.hold q.start = some (.leadout q.name 2) := by
  have hlead : Scan.text.hold leadIn = some (.name []) := by decide
  have hname : (Scan.name []).hold q.name = some (.name q.name) := hold_name hq.name hq.short
  have hne := hq.nonempty
  rw [Piece.start, hold_append, hlead, Option.bind_some, hold_append,
    (hold_blanks (m := []) hq.before).1, Option.bind_some, hold_append, hname, Option.bind_some]
  -- the byte behind the name is a blank or the first of the lead-out
  cases hafter : q.after with
  | nil =>
      rw [List.nil_append, hold_cons (t := .leadout q.name 1) (by simp [Scan.read, hne, isBlank])
        (by simp), hold_cons (t := .leadout q.name 2) (by simp [Scan.read, leadOut, bytes])
        (by simp)]
      rfl
  | cons c ws =>
      have hafter' := hq.after
      rw [hafter] at hafter'
      obtain ⟨hc, hws⟩ := List.forall_mem_cons.mp hafter'
      have hc45 : c ≠ 45 := by
        rintro rfl
        revert hc
        decide
      rw [List.cons_append, hold_cons (t := .leadout q.name 0) (by simp [Scan.read, hne, hc, hc45])
        (by simp), hold_append, (hold_blanks hws).2, Option.bind_some,
        hold_cons (t := .leadout q.name 1) (by simp [Scan.read, isBlank, leadOut, bytes]) (by simp),
        hold_cons (t := .leadout q.name 2) (by simp [Scan.read, leadOut, bytes]) (by simp)]
      rfl

/-- The last byte of the tag. -/
lemma read_last (hq : q.Valid) : (Scan.leadout q.name 2).read 62 = (.text, some q.name) := by
  have hread : (Scan.leadout q.name 2).read 62 = (.text, some (q.name.takeWhile (· ≠ 0))) := by
    simp [Scan.read, leadOut, bytes]
  have hzero : q.name.takeWhile (· ≠ 0) = q.name :=
    List.takeWhile_eq_self_iff.mpr fun c hc => by simpa using (hq.name c hc).2.2
  rw [hread, hzero]

/-- A tag is read as a whole. -/
lemma foldl_tag (hq : q.Valid) (hp : p.scan = .text) :
    q.tag.foldl (Page.push inserts) p =
      ⟨.text, p.done ++ inserts.getD p.names.length [], [], p.names ++ [q.name]⟩ := by
  rw [tag_eq, List.foldl_append, foldl_of_hold (hold_tag hq) hp start_ne_nil, List.foldl_cons,
    List.foldl_nil]
  exact push_of_tag _ (read_last hq)

/-- Text is read as text; after `<` one byte is passed over. -/
lemma foldl_plain (inserts : List (List UInt8)) (hl : Plain l) :
    (∀ p : Page, p.scan = .text → p.held = [] →
      l.foldl (Page.push inserts) p = ⟨.text, p.done ++ l, [], p.names⟩) ∧
    (∀ p : Page, p.scan = .leadin 1 → l ≠ [] → (∀ c ∈ l.head?, c ≠ 33) →
      l.foldl (Page.push inserts) p = ⟨.text, p.done ++ p.held ++ l, [], p.names⟩) := by
  induction l with
  | nil =>
      refine ⟨?_, fun p _ h => absurd rfl h⟩
      rintro ⟨scan, done, held, names⟩ rfl rfl
      simp
  | cons c l ih =>
      obtain ⟨hchain, hlast⟩ := hl
      have hl : Plain l := by
        refine ⟨hchain.tail, fun d hd => hlast d ?_⟩
        cases l with
        | nil => cases hd
        | cons e l => exact hd
      obtain ⟨htext, hleadin⟩ := ih hl
      constructor
      · rintro ⟨scan, done, held, names⟩ rfl rfl
        rw [List.foldl_cons]
        by_cases hc : c = 60
        · have hne : l ≠ [] := by
            rintro rfl
            exact hlast c rfl hc
          have hhead : ∀ d ∈ l.head?, d ≠ 33 := fun d hd h33 =>
            (List.isChain_cons.mp hchain).1 d hd ⟨hc, h33⟩
          rw [push_of_none _ (s := .leadin 1) (by simp [Scan.read, hc]) (by simp),
            hleadin _ rfl hne hhead]
          simp
        · rw [push_of_text _ (by simp [Scan.read, hc]), htext _ rfl rfl]
          simp
      · rintro ⟨scan, done, held, names⟩ rfl - hhead
        have hc : c ≠ 33 := hhead c rfl
        have hread : (Scan.leadin 1).read c = (.text, none) := by
          simp [Scan.read, leadIn, bytes, hc]
        rw [List.foldl_cons, push_of_text _ hread, htext _ rfl rfl]
        simp

/-- A page is read piece by piece. -/
lemma foldl_render (hqs : ∀ q ∈ qs, q.Valid) (hl : Plain l) :
    ∀ p : Page, p.scan = .text → p.held = [] →
      (render qs l).foldl (Page.push inserts) p =
        ⟨.text, p.done ++ fill (inserts.drop p.names.length) qs l, [],
          p.names ++ qs.map Piece.name⟩ := by
  induction qs with
  | nil =>
      intro p hp hheld
      rw [render, (foldl_plain inserts hl).1 p hp hheld, fill, List.map_nil, List.append_nil]
  | cons q qs ih =>
      obtain ⟨hq, hqs⟩ := List.forall_mem_cons.mp hqs
      intro p hp hheld
      rw [render, List.foldl_append, List.foldl_append, (foldl_plain inserts hq.plain).1 p hp hheld,
        foldl_tag hq rfl, ih hqs _ rfl rfl]
      simp [fill]

end Pieces

/-- **A page of texts and tags** is expanded tag by tag. -/
lemma expand_pieces (inserts : List (List UInt8)) {qs : List Piece} {last : List UInt8}
    (hqs : ∀ q ∈ qs, q.Valid) (hlast : Plain last) :
    expand inserts (render qs last) = fill inserts qs last ∧
      tagNames (render qs last) = qs.map Piece.name := by
  have hread : ∀ inserts, readPage inserts (render qs last) =
      ⟨.text, fill inserts qs last, [], qs.map Piece.name⟩ :=
    fun inserts => foldl_render hqs hlast Page.empty rfl rfl
  constructor
  · rw [expand, hread]
    exact List.append_nil _
  · rw [tagNames, hread]

end Stm32Ecm.Http
