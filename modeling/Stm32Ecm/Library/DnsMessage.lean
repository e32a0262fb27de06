import Mathlib.Algebra.GroupWithZero.Nat
import Mathlib.Data.List.Basic
import Mathlib.Data.List.GetD
import Mathlib.Tactic.Common

/-!
The message format of RFC 1035.

* `parseLabels`: a name is a sequence of labels of at most 63 bytes, closed by a zero byte or by a
  pointer to an earlier position of the message, where the name goes on;
* `parseQuestion`, `parseRecord`, `parseMessage`: a message is a header with four counts and as
  many questions and records as they say, and nothing behind them;
* `encodeName`: a name without pointers; `parseLabels_encodeName` says when it is a name of the
  grammar, and `encodeName_append_inj` that it can be read in one way only.
-/

namespace DnsMessage

/-- A question. -/
structure Question where
  name : List (List UInt8)
  qtype : ℕ
  qclass : ℕ
  deriving DecidableEq, Repr

/-- A resource record. -/
structure Record where
  name : List (List UInt8)
  rtype : ℕ
  rclass : ℕ
  ttl : ℕ
  rdata : List UInt8
  deriving DecidableEq, Repr

/-- A message. -/
structure Message where
  id : ℕ
  qr : Bool
  questions : List Question
  answers : List Record
  authority : List Record
  additional : List Record
  deriving DecidableEq, Repr

/-- Two bytes, high byte first. -/
def word (a b : UInt8) : ℕ := 256 * a.toNat + b.toNat

/-- A name, from a suffix of the message on, and the bytes behind it.  A name without a loop of
pointers visits a position at most once, so that `msg.length` rounds are enough. -/
def parseLabels (msg : List UInt8) : ℕ → List UInt8 → Option (List (List UInt8) × List UInt8)
  | 0, _ => none
  | _ + 1, [] => none
  | fuel + 1, b :: bs =>
      if b = 0 then some ([], bs)
      else if b.toNat < 64 then
        if b.toNat ≤ bs.length then
          (parseLabels msg fuel (bs.drop b.toNat)).map fun out => (bs.take b.toNat :: out.1, out.2)
        else none
      else if 192 ≤ b.toNat then
        bs.head?.bind fun c =>
          -- the position the pointer leads to comes before the pointer
          if 256 * (b.toNat - 192) + c.toNat + (bs.length + 1) < msg.length then
            (parseLabels msg fuel (msg.drop (256 * (b.toNat - 192) + c.toNat))).map fun out =>
              (out.1, bs.tail)
          else none
      else none

/-- The bytes a name takes without pointers. -/
def nameOctets (ls : List (List UInt8)) : ℕ := (ls.map fun l => l.length + 1).sum + 1

/-- A name of at most 255 bytes. -/
def parseName (msg bs : List UInt8) : Option (List (List UInt8) × List UInt8) :=
  (parseLabels msg msg.length bs).filter fun out => nameOctets out.1 ≤ 255

/-- A name, a type and a class. -/
def parseQuestion (msg bs : List UInt8) : Option (Question × List UInt8) :=
  (parseName msg bs).bind fun out =>
    match out.2 with
    | t₁ :: t₂ :: c₁ :: c₂ :: rest => some (⟨out.1, word t₁ t₂, word c₁ c₂⟩, rest)
    | _ => none

/-- A name, a type, a class, a time to live, and as many bytes of data as the length says. -/
def parseRecord (msg bs : List UInt8) : Option (Record × List UInt8) :=
  (parseName msg bs).bind fun out =>
    match out.2 with
    | t₁ :: t₂ :: c₁ :: c₂ :: l₁ :: l₂ :: l₃ :: l₄ :: n₁ :: n₂ :: rest =>
        if word n₁ n₂ ≤ rest.length then
          some (⟨out.1, word t₁ t₂, word c₁ c₂, 65536 * word l₁ l₂ + word l₃ l₄,
            rest.take (word n₁ n₂)⟩, rest.drop (word n₁ n₂))
        else none
    | _ => none

/-- A given number of items. -/
def parseMany {α : Type} (p : List UInt8 → Option (α × List UInt8)) :
    ℕ → List UInt8 → Option (List α × List UInt8)
  | 0, bs => some ([], bs)
  | n + 1, bs => (p bs).bind fun x => (parseMany p n x.2).map fun xs => (x.1 :: xs.1, xs.2)

/-- A field of the header. -/
def field (msg : List UInt8) (off : ℕ) : ℕ := word (msg.getD off 0) (msg.getD (off + 1) 0)

/-- A field behind the first part of a message. -/
lemma field_append {msg rest : List UInt8} {off i : ℕ} (hoff : off = msg.length + i) :
    field (msg ++ rest) off = field rest i := by
  rw [field, field, hoff, Nat.add_assoc, List.getD_append_right _ _ _ _ (by omega),
    List.getD_append_right _ _ _ _ (by omega), Nat.add_sub_cancel_left, Nat.add_sub_cancel_left]

/-- **A message**: a header of twelve bytes, what it counts, and nothing else. -/
def parseMessage (msg : List UInt8) : Option Message :=
  if msg.length < 12 then none
  else
    (parseMany (parseQuestion msg) (field msg 4) (msg.drop 12)).bind fun qs =>
      (parseMany (parseRecord msg) (field msg 6) qs.2).bind fun an =>
        (parseMany (parseRecord msg) (field msg 8) an.2).bind fun ns =>
          (parseMany (parseRecord msg) (field msg 10) ns.2).bind fun ar =>
            if ar.2 = [] then
              some ⟨field msg 0, decide (128 ≤ (msg.getD 2 0).toNat), qs.1, an.1, ns.1, ar.1⟩
            else none

/-- A name without pointers. -/
def encodeName (ls : List (List UInt8)) : List UInt8 :=
  ls.flatMap (fun l => UInt8.ofNat l.length :: l) ++ [0]

section Names

variable {msg rest rest' l : List UInt8} {ls ls' : List (List UInt8)} {fuel : ℕ}

@[simp] lemma encodeName_nil : encodeName [] = [0] := rfl

lemma encodeName_cons : encodeName (l :: ls) = UInt8.ofNat l.length :: (l ++ encodeName ls) := by
  simp [encodeName]

lemma toNat_ofNat_length (h : l.length < 256) : (UInt8.ofNat l.length).toNat = l.length := by
  rw [UInt8.toNat_ofNat']
  omega

lemma ofNat_length_ne_zero (h : l ≠ [] ∧ l.length < 256) : UInt8.ofNat l.length ≠ 0 := by
  intro hzero
  have hnat := toNat_ofNat_length h.2
  have hpos := List.length_pos_of_ne_nil h.1
  rw [hzero, UInt8.toNat_zero] at hnat
  omega

lemma length_encodeName : (encodeName ls).length = nameOctets ls := by
  induction ls with
  | nil => rfl
  | cons l ls ih =>
      rw [encodeName_cons, List.length_cons, List.length_append, ih]
      simp only [nameOctets, List.map_cons, List.sum_cons]
      omega

lemma length_lt_nameOctets : ls.length < nameOctets ls := by
  induction ls with
  | nil => decide
  | cons l ls ih =>
      simp only [nameOctets, List.map_cons, List.sum_cons, List.length_cons] at ih ⊢
      omega

lemma length_add_two_le_nameOctets (h : l ∈ ls) : l.length + 2 ≤ nameOctets ls := by
  induction ls with
  | nil => cases h
  | cons l' ls ih =>
      simp only [nameOctets, List.map_cons, List.sum_cons] at ih ⊢
      rcases List.mem_cons.mp h with rfl | h
      · omega
      · have hle := ih h
        omega

/-- **A name without pointers** is one of the grammar if its labels have at most 63 bytes.  Longer
ones, up to 191 bytes, start with a byte that has no meaning in the grammar. -/
lemma parseLabels_encodeName (hfuel : ls.length < fuel)
    (hls : ∀ l ∈ ls, l ≠ [] ∧ l.length < 192) :
    parseLabels msg fuel (encodeName ls ++ rest) =
      if ∀ l ∈ ls, l.length < 64 then some (ls, rest) else none := by
  induction ls generalizing fuel with
  | nil =>
      obtain ⟨fuel, rfl⟩ : ∃ n, fuel = n + 1 := ⟨fuel - 1, by omega⟩
      simp [parseLabels]
  | cons l ls ih =>
      obtain ⟨fuel, rfl⟩ : ∃ n, fuel = n + 1 := ⟨fuel - 1, by omega⟩
      obtain ⟨hne, hlt⟩ := hls l (by simp)
      have hlt' : l.length < 256 := by omega
      have ih' := @ih fuel (by simpa using hfuel) fun l' hl' => hls l' (by simp [hl'])
      rw [encodeName_cons, List.cons_append, List.append_assoc, parseLabels,
        if_neg (ofNat_length_ne_zero ⟨hne, hlt'⟩), toNat_ofNat_length hlt']
      by_cases hshort : l.length < 64
      · rw [if_pos hshort, if_pos (by simp), List.drop_left, List.take_left, ih']
        simp only [List.mem_cons, forall_eq_or_imp, hshort, true_and]
        split_ifs <;> rfl
      · rw [if_neg hshort, if_neg (by omega), if_neg fun h => hshort (h l (by simp))]

/-- A pointer, and what it leads to. -/
lemma parseLabels_pointer {b c : UInt8} (hb : 192 ≤ b.toNat) :
    parseLabels msg (fuel + 1) (b :: c :: rest) =
      if 256 * (b.toNat - 192) + c.toNat + (rest.length + 2) < msg.length then
        (parseLabels msg fuel (msg.drop (256 * (b.toNat - 192) + c.toNat))).map fun out =>
          (out.1, rest)
      else none := by
  have hzero : b ≠ 0 := by
    rintro rfl
    exact absurd hb (by decide)
  rw [parseLabels, if_neg hzero, if_neg (by omega), if_pos hb]
  rfl

lemma parseName_encodeName (hlen : ls.length < msg.length) (hocts : nameOctets ls ≤ 255)
    (hls : ∀ l ∈ ls, l ≠ [] ∧ l.length < 192) :
    parseName msg (encodeName ls ++ rest) =
      if ∀ l ∈ ls, l.length < 64 then some (ls, rest) else none := by
  rw [parseName, parseLabels_encodeName hlen hls]
  split_ifs
  · simp [hocts]
  · rfl

lemma parseQuestion_encodeName {t₁ t₂ c₁ c₂ : UInt8} (hlen : ls.length < msg.length)
    (hocts : nameOctets ls ≤ 255) (hls : ∀ l ∈ ls, l ≠ [] ∧ l.length < 192) :
    parseQuestion msg (encodeName ls ++ t₁ :: t₂ :: c₁ :: c₂ :: rest) =
      if ∀ l ∈ ls, l.length < 64 then some (⟨ls, word t₁ t₂, word c₁ c₂⟩, rest) else none := by
  rw [parseQuestion, parseName_encodeName hlen hocts hls]
  split_ifs <;> rfl

/-- Nothing is left for another record. -/
lemma parseMany_parseRecord_nil {n : ℕ} :
    parseMany (parseRecord msg) n [] = if n = 0 then some ([], []) else none := by
  cases n with
  | zero => rfl
  | succ n =>
      have hnone : parseLabels msg msg.length [] = none := by
        cases msg.length <;> rfl
      rw [if_neg (by omega), parseMany, parseRecord, parseName, hnone]
      rfl

/-- Names without pointers can be read in one way only. -/
lemma encodeName_append_inj (hls : ∀ l ∈ ls, l ≠ [] ∧ l.length < 256)
    (hls' : ∀ l ∈ ls', l ≠ [] ∧ l.length < 256)
    (h : encodeName ls ++ rest = encodeName ls' ++ rest') : ls = ls' ∧ rest = rest' := by
  induction ls generalizing ls' with
  | nil =>
      cases ls' with
      | nil => exact ⟨rfl, List.append_cancel_left h⟩
      | cons l' ls' =>
          rw [encodeName_cons] at h
          exact absurd (List.cons.inj h).1.symm (ofNat_length_ne_zero (hls' l' (by simp)))
  | cons l ls ih =>
      cases ls' with
      | nil =>
          rw [encodeName_cons] at h
          exact absurd (List.cons.inj h).1 (ofNat_length_ne_zero (hls l (by simp)))
      | cons l' ls' =>
          rw [encodeName_cons, encodeName_cons, List.cons_append, List.cons_append,
            List.append_assoc, List.append_assoc] at h
          obtain ⟨hlen, htail⟩ := List.cons.inj h
          have hlen' : l.length = l'.length := by
            rw [← toNat_ofNat_length (hls l (by simp)).2, hlen,
              toNat_ofNat_length (hls' l' (by simp)).2]
          obtain ⟨rfl, hname⟩ := List.append_inj htail hlen'
          obtain ⟨rfl, hrest⟩ := ih (fun x hx => hls x (by simp [hx]))
            (fun x hx => hls' x (by simp [hx])) hname
          exact ⟨rfl, hrest⟩

end Names

end DnsMessage
