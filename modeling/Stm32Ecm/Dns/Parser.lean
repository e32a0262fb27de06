import Stm32Ecm.Dns.Server

/-!
The parser of the DNS server, exactly.

* `Access`, `labelTrace`, `parseTrace`: the same parser with every byte it reads of the datagram
  and writes to the name, and with `none` if its rounds ran out;
* `labelTrace_eq`: the rounds suffice, and every access lies in its buffer;
* `IsQuestion`: labels, a zero byte and four more bytes, the joined labels of at most 127 bytes;
* `labelLoop_encodeName`: such labels are accepted, and the name is what they are joined to;
* `parseNextQuery_exact`: hence nothing else is, and what the query holds then.
-/

namespace Stm32Ecm.Dns

open DnsMessage

/-! ### Accesses -/

/-- A byte of the datagram that is read or a byte of the name that is written. -/
inductive Access where
  | read (i : ℕ)
  | write (i : ℕ)

/-- The access lies within the first `size` bytes of the datagram or within the name. -/
def Access.Within (size : ℕ) : Access → Prop
  | .read i => i < size
  | .write i => i < dnsMaxHostNameLen

/-- `memcpy`, byte by byte. -/
def memcpyTrace (dst src n : ℕ) : List Access :=
  (List.range n).flatMap fun i => [.read (src + i), .write (dst + i)]

/-- The write of the separator, if there is one. -/
def Cursor.separateTrace (c : Cursor) : List Access := if 0 < c.lables then [.write c.len] else []

/-- `labelLoop` with its accesses. -/
def labelTrace (data : ℕ → UInt8) :
    ℕ → Cursor → Option (List Access × Except (ℤ × (ℕ → UInt8)) Cursor)
  | 0, _ => none
  | fuel + 1, c =>
      if c.size = 0 then some ([], .error (-1, c.name))
      else
        let lableLen := (data c.ptr).toNat
        let read := [Access.read c.ptr]
        let c := { c with ptr := c.ptr + 1, size := c.size - 1 }
        if lableLen = 0 then some (read, .ok c)
        else if 0 < c.lables ∧ c.len = dnsMaxHostNameLen then some (read, .error (-2, c.name))
        else
          let read := read ++ c.separateTrace
          let c := c.separate
          if lableLen > c.size then some (read, .error (-1, c.name))
          else if c.len + lableLen ≥ dnsMaxHostNameLen then some (read, .error (-2, c.name))
          else
            (labelTrace data fuel (c.copyLabel data lableLen)).map fun out =>
              (read ++ memcpyTrace c.len c.ptr lableLen ++ out.1, out.2)

/-- `parseNextQuery` with its accesses. -/
def parseTrace (data : ℕ → UInt8) (size : ℕ) (query : DnsQuery) :
    Option (List Access × ℤ × DnsQuery) :=
  match labelTrace data (size + 1) ⟨0, size, 0, 0, query.name⟩ with
  | none => none
  | some (as, .error (err, name)) => some (as, err, { query with name })
  | some (as, .ok c) =>
      if c.size < 4 then some (as, -1, { query with name := c.name })
      else
        some (as ++ [.write c.len, .read c.ptr, .read (c.ptr + 1), .read (c.ptr + 2),
            .read (c.ptr + 3)],
          c.ptr + 4, { name := Memory.write c.name c.len [0]
                       type := getUint16 data c.ptr
                       Class := getUint16 data (c.ptr + 2) })

section Accesses

variable {data : ℕ → UInt8} {c c' : Cursor} {fuel size bound : ℕ} {query : DnsQuery}

lemma memcpyTrace_within {dst src n : ℕ} (hsrc : src + n ≤ bound)
    (hdst : dst + n ≤ dnsMaxHostNameLen) : ∀ a ∈ memcpyTrace dst src n, a.Within bound := by
  intro a ha
  obtain ⟨i, hi, ha⟩ := List.mem_flatMap.mp ha
  have hlt := List.mem_range.mp hi
  rcases List.mem_pair.mp ha with rfl | rfl
  · exact show src + i < bound by omega
  · exact show dst + i < dnsMaxHostNameLen by omega

/-- The loop of the parser keeps within the bytes that are left and within the name, and it stops
with as many rounds as there are bytes and one more. -/
lemma labelTrace_eq (hfuel : c.size < fuel) (hlen : c.len < dnsMaxHostNameLen)
    (hbound : c.ptr + c.size = bound) :
    ∃ as, labelTrace data fuel c = some (as, labelLoop data fuel c) ∧
      ∀ a ∈ as, a.Within bound := by
  induction fuel generalizing c with
  | zero => omega
  | succ fuel ih =>
      rw [labelTrace, labelLoop]
      by_cases hsize : c.size = 0
      · exact ⟨[], by rw [if_pos hsize, if_pos hsize], by simp⟩
      have hread : ∀ a ∈ [Access.read c.ptr], a.Within bound := by
        intro a ha
        rw [List.mem_singleton.mp ha]
        exact show c.ptr < bound by omega
      have hsep : ∀ a ∈ [Access.read c.ptr] ++ c.separateTrace, a.Within bound := by
        refine List.forall_mem_append.mpr ⟨hread, fun a ha => ?_⟩
        rw [Cursor.separateTrace] at ha
        split_ifs at ha
        · rw [List.mem_singleton.mp ha]
          exact hlen
        · cases ha
      simp only [if_neg hsize]
      split_ifs with hzero hfull hfits hlong
      · exact ⟨_, rfl, hread⟩
      · exact ⟨_, rfl, hread⟩
      · exact ⟨_, rfl, hsep⟩
      · exact ⟨_, rfl, hsep⟩
      · generalize hb : Cursor.separate { c with ptr := c.ptr + 1, size := c.size - 1 } = b at *
        have hptr : b.ptr = c.ptr + 1 := by rw [← hb, Cursor.ptr_separate]
        have hbsize : b.size = c.size - 1 := by rw [← hb, Cursor.size_separate]
        obtain ⟨as, has, hwithin⟩ := @ih (b.copyLabel data (data c.ptr).toNat)
          (by simp only [Cursor.copyLabel]; omega) (by simp only [Cursor.copyLabel]; omega)
          (by simp only [Cursor.copyLabel]; omega)
        rw [has]
        refine ⟨_, rfl, List.forall_mem_append.mpr ⟨List.forall_mem_append.mpr ⟨hsep, ?_⟩, hwithin⟩⟩
        exact memcpyTrace_within (by omega) (by omega)

lemma labelLoop_len_lt (hlen : c.len < dnsMaxHostNameLen) (h : labelLoop data fuel c = .ok c') :
    c'.len < dnsMaxHostNameLen := by
  induction fuel generalizing c with
  | zero => cases h
  | succ fuel ih =>
      obtain ⟨-, ⟨-, rfl⟩ | ⟨b, -, -, -, -, -, -, hshort, hrec⟩⟩ := labelLoop_succ_eq_ok h
      · exact hlen
      · exact ih hshort hrec

/-- **Safety** of the parser: it stops, and every access lies in its buffer. -/
lemma parseTrace_eq : ∃ as, parseTrace data size query =
    some (as, parseNextQuery data size query) ∧ ∀ a ∈ as, a.Within size := by
  have hpos : 0 < dnsMaxHostNameLen := by decide
  obtain ⟨as, has, hwithin⟩ := @labelTrace_eq data ⟨0, size, 0, 0, query.name⟩ (size + 1) size
    (Nat.lt_succ_self size) hpos (Nat.zero_add size)
  rw [parseTrace, parseNextQuery, has]
  cases hloop : labelLoop data (size + 1) ⟨0, size, 0, 0, query.name⟩ with
  | error e => exact ⟨as, rfl, hwithin⟩
  | ok c =>
      obtain ⟨ls, -, -, hptr, hsize, -⟩ := labelLoop_eq_ok hpos hloop
      have hlen := labelLoop_len_lt hpos hloop
      simp only at hptr hsize ⊢
      split_ifs with hfour
      · exact ⟨as, rfl, hwithin⟩
      · refine ⟨_, rfl, List.forall_mem_append.mpr ⟨hwithin, fun a ha => ?_⟩⟩
        simp only [List.mem_cons, List.not_mem_nil, or_false] at ha
        rcases ha with rfl | rfl | rfl | rfl | rfl
        · exact hlen
        all_goals
          simp only [Access.Within]
          omega

end Accesses

/-! ### Questions -/

/-- The labels with a dot between each two. -/
def joined (ls : List (List UInt8)) : List UInt8 := List.intercalate [46] ls

/-- **A question**: the first `size` bytes start with labels of one to 255 bytes, each behind its
length, a zero byte and four more bytes, and the labels have at most 127 bytes with the dots. -/
structure IsQuestion (data : ℕ → UInt8) (size : ℕ) (ls : List (List UInt8)) : Prop where
  labels : ∀ l ∈ ls, l ≠ [] ∧ l.length < 256
  bytes : Memory.read data 0 (nameOctets ls) = encodeName ls
  behind : nameOctets ls + 4 ≤ size
  short : (joined ls).length ≤ 127

section Questions

variable {data : ℕ → UInt8} {c : Cursor} {fuel size : ℕ} {query : DnsQuery} {l : List UInt8}
  {ls : List (List UInt8)}

lemma nameOctets_cons : nameOctets (l :: ls) = l.length + 1 + nameOctets ls := by
  simp only [nameOctets, List.map_cons, List.sum_cons]
  omega

/-- A label and the rest, each label of the rest behind a dot. -/
lemma joined_cons : joined (l :: ls) = l ++ ls.flatMap (46 :: ·) := by
  induction ls generalizing l with
  | nil => simp [joined, List.intercalate]
  | cons l' ls ih =>
      have hstep : joined (l :: l' :: ls) = l ++ 46 :: joined (l' :: ls) := by
        simp [joined, List.intercalate]
      rw [hstep, ih, List.flatMap_cons, List.cons_append]

lemma length_flatMap_dot : (ls.flatMap (46 :: ·)).length + 1 = nameOctets ls := by
  induction ls with
  | nil => rfl
  | cons l ls ih =>
      rw [List.flatMap_cons, List.length_append, List.length_cons, nameOctets_cons]
      omega

lemma length_joined_le (h : nameOctets ls ≤ 129) : (joined ls).length ≤ 127 := by
  cases ls with
  | nil => simp [joined, List.intercalate]
  | cons l ls =>
      have hdots := @length_flatMap_dot ls
      rw [nameOctets_cons] at h
      rw [joined_cons, List.length_append]
      omega

/-- The separator the parser writes before a label. -/
def Cursor.dot (c : Cursor) : List UInt8 := if 0 < c.lables then [46] else []

lemma Cursor.separate_eq :
    c.separate = { c with name := Memory.write c.name c.len c.dot
                          len := c.len + c.dot.length } := by
  rw [Cursor.separate, Cursor.dot]
  split_ifs
  · rfl
  · rw [Memory.write_nil]
    rfl

/-- One round, at a label. -/
lemma labelLoop_label (hl : l ≠ [] ∧ l.length < 256)
    (hread : Memory.read data c.ptr (l.length + 1) = UInt8.ofNat l.length :: l)
    (hsize : l.length + 1 ≤ c.size) (hlen : c.len + (c.dot ++ l).length < dnsMaxHostNameLen) :
    labelLoop data (fuel + 1) c =
      labelLoop data fuel ⟨c.ptr + (l.length + 1), c.size - (l.length + 1),
        c.len + (c.dot ++ l).length, c.lables + 1,
        Memory.write c.name c.len (c.dot ++ l)⟩ := by
  rw [Memory.read_succ] at hread
  obtain ⟨hbyte, hlabel⟩ := List.cons.inj hread
  have hnat : (data c.ptr).toNat = l.length := by rw [hbyte, toNat_ofNat_length hl.2]
  have hpos := List.length_pos_of_ne_nil hl.1
  rw [List.length_append] at hlen ⊢
  rw [labelLoop, if_neg (by omega)]
  simp only [hnat]
  rw [if_neg (by omega), if_neg (by omega), Cursor.separate_eq]
  have hdot : Cursor.dot { c with ptr := c.ptr + 1, size := c.size - 1 } = c.dot := rfl
  simp only [hdot, Cursor.copyLabel]
  rw [if_neg (by omega), if_neg (by omega), hlabel, Memory.write_append]
  have hptr : c.ptr + 1 + l.length = c.ptr + (l.length + 1) := by omega
  have hrest : c.size - 1 - l.length = c.size - (l.length + 1) := by omega
  rw [hptr, hrest, Nat.add_assoc]

/-- The rounds behind the first label. -/
lemma labelLoop_encodeName (hfuel : ls.length < fuel) (hls : ∀ l ∈ ls, l ≠ [] ∧ l.length < 256)
    (hread : Memory.read data c.ptr (nameOctets ls) = encodeName ls)
    (hsize : nameOctets ls ≤ c.size) (hlabels : 0 < c.lables)
    (hlen : c.len + (ls.flatMap (46 :: ·)).length < dnsMaxHostNameLen) :
    labelLoop data fuel c = .ok ⟨c.ptr + nameOctets ls, c.size - nameOctets ls,
      c.len + (ls.flatMap (46 :: ·)).length, c.lables + ls.length,
      Memory.write c.name c.len (ls.flatMap (46 :: ·))⟩ := by
  induction ls generalizing c fuel with
  | nil =>
      obtain ⟨fuel, rfl⟩ : ∃ n, fuel = n + 1 := ⟨fuel - 1, by omega⟩
      simp only [nameOctets, List.map_nil, List.sum_nil, Nat.zero_add, encodeName_nil] at hread
      simp only [nameOctets, List.map_nil, List.sum_nil] at hsize
      have hzero : data c.ptr = 0 := (List.cons.inj hread).1
      rw [labelLoop, if_neg (by omega)]
      simp only [hzero, UInt8.toNat_zero, if_true]
      simp [nameOctets]
  | cons l ls ih =>
      obtain ⟨fuel, rfl⟩ : ∃ n, fuel = n + 1 := ⟨fuel - 1, by omega⟩
      have hdot : c.dot = [46] := if_pos hlabels
      rw [nameOctets_cons] at hread hsize
      rw [encodeName_cons, Memory.read_add, ← List.cons_append] at hread
      obtain ⟨hlabel, hrest⟩ := List.append_inj hread (by simp)
      rw [List.flatMap_cons, List.length_append] at hlen
      rw [labelLoop_label (hls l (by simp)) hlabel (by omega)
        (by rw [hdot, List.singleton_append]; omega), ih (by simpa using hfuel)
        (fun l' hl' => hls l' (by simp [hl'])) hrest (by simp only; omega) (Nat.succ_pos _)
        (by simp only; rw [hdot, List.singleton_append]; omega)]
      simp only [Memory.write_append]
      simp only [hdot, List.singleton_append, nameOctets_cons, List.flatMap_cons,
        List.length_append, List.length_cons]
      congr 2 <;> omega

/-- **Acceptance**: the loop takes the labels of a question and joins them. -/
lemma IsQuestion.labelLoop_eq (h : IsQuestion data size ls) (name : ℕ → UInt8) :
    labelLoop data (size + 1) ⟨0, size, 0, 0, name⟩ = .ok ⟨nameOctets ls, size - nameOctets ls,
      (joined ls).length, ls.length, Memory.write name 0 (joined ls)⟩ := by
  have hsize := h.behind
  have hbytes := h.bytes
  have hshort := h.short
  have hfuel := @length_lt_nameOctets ls
  cases ls with
  | nil =>
      have hzero : data 0 = 0 := (List.cons.inj hbytes).1
      have hpos : 1 + 4 ≤ size := hsize
      rw [labelLoop, if_neg (show ¬ size = 0 by omega)]
      simp only [hzero, UInt8.toNat_zero, if_true]
      simp [nameOctets, joined, List.intercalate]
  | cons l ls =>
      rw [nameOctets_cons] at hsize hfuel hbytes
      rw [encodeName_cons, Memory.read_add, ← List.cons_append] at hbytes
      obtain ⟨hlabel, hrest⟩ := List.append_inj hbytes (by simp)
      rw [joined_cons, List.length_append] at hshort
      have hfirst := @labelLoop_label data ⟨0, size, 0, 0, name⟩ size l (h.labels l (by simp))
        hlabel (show l.length + 1 ≤ size by omega)
        (show 0 + l.length < dnsMaxHostNameLen by rw [dnsMaxHostNameLen]; omega)
      rw [List.length_cons] at hfuel
      rw [hfirst, labelLoop_encodeName (by omega) (fun l' hl' => h.labels l' (by simp [hl'])) hrest
        (by simp only; omega) Nat.one_pos
        (show 0 + l.length + _ < dnsMaxHostNameLen by rw [dnsMaxHostNameLen]; omega)]
      simp only [Memory.write_append]
      simp only [Cursor.dot, Nat.lt_irrefl, if_false, List.nil_append, nameOctets_cons, joined_cons,
        List.length_append, List.length_cons, Nat.zero_add]
      congr 2 <;> omega

/-- **The query** of a question. -/
lemma IsQuestion.parseNextQuery_eq (h : IsQuestion data size ls) :
    parseNextQuery data size query =
      (Int.ofNat (nameOctets ls + 4), ⟨Memory.write query.name 0 (joined ls ++ [0]),
        getUint16 data (nameOctets ls), getUint16 data (nameOctets ls + 2)⟩) := by
  have hbehind := h.behind
  have hzero : Memory.write (Memory.write query.name 0 (joined ls)) (joined ls).length [0] =
      Memory.write query.name 0 (joined ls ++ [0]) := by
    rw [← Memory.write_append, Nat.zero_add]
  rw [parseNextQuery, h.labelLoop_eq]
  simp only
  rw [if_neg (by omega), hzero]
  rfl

/-- What the parser accepts is a question. -/
lemma exists_isQuestion (h : 0 ≤ (parseNextQuery data size query).1) :
    ∃ ls, IsQuestion data size ls := by
  obtain ⟨ls, hne, hocts, hread, hsize, -⟩ := parseNextQuery_labels h
  refine ⟨ls, fun l hl => ⟨hne l hl, ?_⟩, hread, hsize, ?_⟩
  · have hle := length_add_two_le_nameOctets hl
    omega
  · exact length_joined_le hocts

/-- A question has one sequence of labels only. -/
lemma IsQuestion.labels_unique {ls' : List (List UInt8)} (h : IsQuestion data size ls)
    (h' : IsQuestion data size ls') : ls = ls' := by
  have hsplit : ∀ {ls}, IsQuestion data size ls → ∃ rest, Memory.read data 0 size =
      encodeName ls ++ rest := by
    intro ls h
    have hbehind := h.behind
    obtain ⟨k, rfl⟩ : ∃ k, size = nameOctets ls + k := ⟨size - nameOctets ls, by omega⟩
    exact ⟨Memory.read data (0 + nameOctets ls) k, by rw [Memory.read_add, h.bytes]⟩
  obtain ⟨rest, hrest⟩ := hsplit h
  obtain ⟨rest', hrest'⟩ := hsplit h'
  exact (encodeName_append_inj h.labels h'.labels (hrest.symm.trans hrest')).1

end Questions

/-- **The parser, exactly.**  For all bytes, every length and whatever the query held before:

* the parser stops, reads only the first `size` bytes and writes only the 128 bytes of the name;
* it returns a length rather than an error if and only if the bytes start with a question;
* for a question with labels `ls` the length is that of the labels with their length bytes, the
  zero byte and the four bytes behind it, the name is the joined labels and a zero byte, and the
  type and the class are the two words behind the zero byte. -/
theorem parseNextQuery_exact (data : ℕ → UInt8) (size : ℕ) (query : DnsQuery) :
    (∃ as, parseTrace data size query = some (as, parseNextQuery data size query) ∧
      ∀ a ∈ as, a.Within size) ∧
    (0 ≤ (parseNextQuery data size query).1 ↔ ∃ ls, IsQuestion data size ls) ∧
    ∀ ls, IsQuestion data size ls →
      (parseNextQuery data size query).1 = ((ls.map fun l => 1 + l.length).sum + 5 : ℕ) ∧
      (ls.map fun l => 1 + l.length).sum + 5 ≤ size ∧
      Memory.read (parseNextQuery data size query).2.name 0 ((joined ls).length + 1) =
        joined ls ++ [0] ∧
      (parseNextQuery data size query).2.type =
        getUint16 data ((ls.map fun l => 1 + l.length).sum + 1) ∧
      (parseNextQuery data size query).2.Class =
        getUint16 data ((ls.map fun l => 1 + l.length).sum + 3) := by
  refine ⟨parseTrace_eq, ⟨exists_isQuestion, ?_⟩, ?_⟩
  · rintro ⟨ls, h⟩
    rw [h.parseNextQuery_eq]
    exact Int.natCast_nonneg _
  · intro ls h
    have hocts : nameOctets ls = (ls.map fun l => 1 + l.length).sum + 1 := by
      simp only [nameOctets, Nat.add_comm 1]
    have hbehind := h.behind
    have hread := @Memory.read_write_self _ query.name 0 (joined ls ++ [0])
    rw [List.length_append] at hread
    rw [h.parseNextQuery_eq]
    refine ⟨?_, by omega, hread, ?_, ?_⟩
    · rw [hocts]
      rfl
    · rw [hocts]
    · rw [hocts]

end Stm32Ecm.Dns
