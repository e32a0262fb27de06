import Stm32Ecm.Http.Expand

/-!
The loop of `http_send_data_ssi` follows the page.

* `Sending.page`: the page as far as it has been parsed; `Searching` and `Inserting` say what has
  been sent of it, while a tag is looked for and while an insert is sent;
* `httpWrite_len`, `sendParsed_spec`, `sendBeforeTag_spec`, `sendInsert_of_lt`: what a write does;
* `Searching.read`, `Searching.found`, `Inserting.inserted`, `Inserting.done`: a byte is read, a
  tag is complete, its insert is sent, the search goes on;
* `round_spec`: a round of the loop keeps the invariants and makes `Sending.work` less;
  `ssiLoop_spec`: the loop ends;
* `httpSendDataSsi_spec`: a call returns, between two calls `Boundary` holds, and a call that finds
  the connection `Ready` makes progress.

The length of a page has 16 bits, as `len` has.
-/

namespace Stm32Ecm.Http

/-! ### Bytes of the page -/

/-- The bytes of the page from `a` to `b`. -/
def slice (data : List UInt8) (a b : ℕ) : List UInt8 := (data.drop a).take (b - a)

section Slices

variable {data : List UInt8} {a b c : ℕ}

@[simp] lemma slice_self : slice data a a = [] := by simp [slice]

lemma slice_append (hab : a ≤ b) (hbc : b ≤ c) :
    slice data a b ++ slice data b c = slice data a c := by
  have hdrop : data.drop b = (data.drop a).drop (b - a) := by
    rw [List.drop_drop, Nat.add_sub_cancel' hab]
  rw [slice, slice, slice, hdrop, ← List.take_add]
  congr 1
  omega

lemma slice_zero : slice data 0 b = data.take b := by
  rw [slice, List.drop_zero, Nat.sub_zero]

lemma slice_add : slice data a (a + b) = (data.drop a).take b := by
  rw [slice, Nat.add_sub_cancel_left]

lemma slice_succ (hab : a ≤ b) (hb : b < data.length) :
    slice data a (b + 1) = slice data a b ++ [data.getD b 0] := by
  rw [← slice_append hab (Nat.le_add_right b 1), slice_add, List.drop_eq_getElem_cons hb,
    List.take_succ_cons, List.take_zero, List.getD_eq_getElem _ _ hb]

lemma take_succ_getD (hb : b < data.length) :
    data.take (b + 1) = data.take b ++ [data.getD b 0] := by
  rw [← slice_zero, ← slice_zero, slice_succ (Nat.zero_le b) hb]

end Slices

/-! ### The inserts -/

/-- The decimal digits of a 32-bit number. -/
lemma length_decimal_le (n : UInt32) : (decimal n).length ≤ 10 := by
  have hlt : n.toNat < 10 ^ 10 := lt_trans n.toNat_lt (by decide)
  rw [decimal, List.length_map]
  exact (Nat.length_toDigits_le_iff (by decide) (by decide)).mpr hlt

lemma length_ssiHandler_le (now : UInt32) (f : Flags) (i : ℕ) :
    (ssiHandler now f i).length ≤ 10 := by
  match i with
  | 0 => exact length_decimal_le now
  | 1 | 2 | _ + 3 => simp [ssiHandler, flagDigit]

/-- An insert fits its buffer. -/
lemma length_getTagInsert_le {now : UInt32} {f : Flags} {name : List UInt8}
    (h : name.length ≤ maxTagNameLen) : (getTagInsert now f name).length ≤ 33 := by
  rw [getTagInsert]
  cases ssiTagsTable.idxOf? name with
  | none =>
      have hname : name.length ≤ 8 := h
      simp only [List.length_append, bytes, List.length_map, String.length_toList]
      have hfront : "<b>***UNKNOWN TAG ".length = 18 := by decide
      have hback : "***</b>".length = 7 := by decide
      omega
  | some i => exact (length_ssiHandler_le now f i).trans (by decide)

/-! ### Pages and tags -/

/-- The last byte completes a tag. -/
def EndsWithTag (data : List UInt8) : Prop :=
  ∃ d c n, data = d ++ [c] ∧ ((readPage [] d).scan.read c).2 = some n

section Ends

variable {data d : List UInt8} {c : UInt8} {n : List UInt8} {inserts : List (List UInt8)}

lemma not_endsWithTag_nil : ¬ EndsWithTag [] := by
  rintro ⟨d, c, n, h, -⟩
  simp at h

lemma endsWithTag_concat (inserts : List (List UInt8)) :
    EndsWithTag (d ++ [c]) ↔ ((readPage inserts d).scan.read c).2.isSome = true := by
  rw [(readPage_frame inserts [] d).1, Option.isSome_iff_exists]
  constructor
  · rintro ⟨d', c', n, h, hread⟩
    obtain ⟨rfl, rfl⟩ := List.append_singleton_inj.mp h
    exact ⟨n, hread⟩
  · rintro ⟨n, hread⟩
    exact ⟨d, c, n, rfl, hread⟩

lemma endsWithTag_take_succ {b : ℕ} (inserts : List (List UInt8)) (hb : b < data.length) :
    EndsWithTag (data.take (b + 1)) ↔
      ((readPage inserts (data.take b)).scan.read (data.getD b 0)).2.isSome = true := by
  rw [take_succ_getD hb, endsWithTag_concat inserts]

/-- A byte with which no tag is complete is one more byte of the page. -/
lemma push_read (inserts : List (List UInt8)) {p : Page} {s : Scan}
    (h : p.scan.read c = (s, none)) :
    (p.push inserts c).scan = s ∧ (p.push inserts c).names = p.names ∧
      (p.push inserts c).bytes = p.bytes ++ [c] ∧
        (s ≠ .text → (p.push inserts c).held = p.held ++ [c]) := by
  by_cases hs : s = .text
  · subst hs
    rw [push_of_text _ h]
    exact ⟨rfl, rfl, List.append_nil _, fun h => absurd rfl h⟩
  · rw [push_of_none _ h hs]
    exact ⟨rfl, rfl, (List.append_assoc _ _ _).symm, fun _ => rfl⟩

end Ends

/-! ### What has been sent -/

section Invariant

variable {σ : Type*} (data : List UInt8) (s t : Sending σ)

/-- The page as far as it has been parsed, with the inserts so far. -/
def Sending.page : Page :=
  readPage (s.tags.map Prod.snd) (data.take (data.length - s.ssi.parseLeft))

/-- The tags are those of the page, and the handler was asked for their inserts. -/
structure Common : Prop where
  parseLeft : s.ssi.parseLeft ≤ data.length
  left : s.file + s.left = data.length
  names : (s.page data).names = s.tags.map Prod.fst
  inserts : ∀ t ∈ s.tags, ∃ now f, t.2 = getTagInsert now f t.1

/-- A tag is looked for.  What has been sent, and what has been parsed behind it, is the page so
far; nothing is sent behind a tag before the next tag is found or the page is at its end. -/
structure Searching : Prop extends Common data s where
  state : s.ssi.tagState ≠ .sending
  bounded : s.ssi.Bounded
  parsed : s.ssi.parsed + s.ssi.parseLeft = data.length
  scan : (s.page data).scan = s.ssi.scan
  file : s.file ≤ s.ssi.parsed
  sent : s.sent ++ slice data s.file s.ssi.parsed = (s.page data).bytes
  tag : s.ssi.scan ≠ .text → s.ssi.parseLeft = 0 ∨
    s.file ≤ s.ssi.tagStarted ∧ s.ssi.tagStarted < s.ssi.parsed ∧
      (s.page data).held = slice data s.ssi.tagStarted s.ssi.parsed
  behind : s.ssi.parseLeft ≠ 0 → s.file = 0 ∨ EndsWithTag (data.take s.file)
  last : s.ssi.parseLeft = 0 → ¬ EndsWithTag data

/-- A tag has been found; what stands before it or its insert is sent. -/
structure Inserting : Prop extends Common data s where
  state : s.ssi.tagState = .sending
  tagEnd : s.ssi.tagEnd + s.ssi.parseLeft = data.length
  parsed : s.ssi.parsed = s.ssi.tagStarted
  started : s.ssi.tagStarted < s.ssi.tagEnd
  scan : (s.page data).scan = .text
  ends : EndsWithTag (data.take s.ssi.tagEnd)
  short : s.ssi.tagInsert.length ≤ 33
  insert : (s.tags.map Prod.snd).getLast? = some s.ssi.tagInsert
  sent :
    s.file ≤ s.ssi.tagStarted ∧ s.ssi.tagIndex = 0 ∧
        s.sent ++ slice data s.file s.ssi.tagStarted ++ s.ssi.tagInsert = (s.page data).done ∨
      s.file = s.ssi.tagEnd ∧ s.ssi.tagIndex ≤ s.ssi.tagInsert.length ∧
        s.sent ++ s.ssi.tagInsert.drop s.ssi.tagIndex = (s.page data).done
  last : s.ssi.parseLeft = 0 → s.ssi.tagIndex = 0
  start : s.ssi.tagStarted + (readPage [] (data.take (s.ssi.tagEnd - 1))).held.length + 1 =
    s.ssi.tagEnd
  lost : s.ssi.parseLeft = 0 → s.file = s.ssi.tagEnd →
    s.ssi.tagStarted = 0 ∨ EndsWithTag (data.take s.ssi.tagStarted)

/-- `t` is `s` with `k` more bytes of the page sent. -/
structure Moved (k : ℕ) : Prop where
  ssi : t.ssi = s.ssi
  tags : t.tags = s.tags
  file : t.file = s.file + k
  left : t.left = s.left - k
  sent : t.sent = s.sent ++ slice data s.file (s.file + k)

end Invariant

section Moves

variable {σ : Type*} {data : List UInt8} {s t : Sending σ} {k : ℕ}

lemma Common.moved (h : Common data s) (m : Moved data s t k) (hk : s.file + k ≤ data.length) :
    Common data t where
  parseLeft := m.ssi ▸ h.parseLeft
  left := by
    have hleft := h.left
    rw [m.file, m.left]
    omega
  names := by
    rw [Sending.page, m.ssi, m.tags]
    exact h.names
  inserts := m.tags ▸ h.inserts

/-- More of what is parsed is sent; before the end of the page this does not happen. -/
lemma Searching.moved (h : Searching data s) (m : Moved data s t k)
    (hk : s.file + k ≤ s.ssi.parsed) (hend : s.ssi.parseLeft = 0 ∨ k = 0) :
    Searching data t := by
  have hpage : t.page data = s.page data := by rw [Sending.page, Sending.page, m.ssi, m.tags]
  have hparsed := h.parsed
  refine
    { h.toCommon.moved m (by omega) with
      state := m.ssi ▸ h.state
      bounded := m.ssi ▸ h.bounded
      parsed := m.ssi ▸ hparsed
      scan := by rw [hpage, m.ssi, h.scan]
      file := by rw [m.file, m.ssi]; exact hk
      sent := ?_
      tag := ?_
      behind := ?_
      last := m.ssi ▸ h.last }
  · rw [hpage, ← h.sent, m.sent, m.file, m.ssi, List.append_assoc,
      slice_append (Nat.le_add_right _ k) hk]
  · rw [m.ssi, m.file, hpage]
    intro hs
    rcases hend with hend | rfl
    · exact Or.inl hend
    · exact h.tag hs
  · rw [m.ssi, m.file]
    intro hleft
    rcases hend with hend | rfl
    · exact absurd hend hleft
    · exact h.behind hleft

/-- More of what stands before the tag is sent. -/
lemma Inserting.moved (h : Inserting data s) (m : Moved data s t k)
    (hk : s.file + k ≤ s.ssi.tagStarted ∨ k = 0) : Inserting data t := by
  have hpage : t.page data = s.page data := by rw [Sending.page, Sending.page, m.ssi, m.tags]
  have hend := h.tagEnd
  have hstarted := h.started
  have hfile : s.file ≤ s.ssi.tagEnd := by rcases h.sent with hs | hs <;> omega
  refine
    { h.toCommon.moved m (by omega) with
      state := m.ssi ▸ h.state
      tagEnd := m.ssi ▸ hend
      parsed := m.ssi ▸ h.parsed
      started := m.ssi ▸ hstarted
      scan := by rw [hpage, h.scan]
      ends := m.ssi ▸ h.ends
      short := m.ssi ▸ h.short
      insert := m.ssi ▸ m.tags ▸ h.insert
      sent := ?_
      last := m.ssi ▸ h.last
      start := m.ssi ▸ h.start
      lost := ?_ }
  · rw [hpage, m.ssi, m.file, m.sent]
    rcases h.sent with ⟨hle, hindex, hsent⟩ | ⟨heq, hindex, hsent⟩
    · have hk' : s.file + k ≤ s.ssi.tagStarted := by omega
      refine Or.inl ⟨hk', hindex, ?_⟩
      rw [← hsent, List.append_assoc s.sent, slice_append (Nat.le_add_right _ k) hk']
    · obtain rfl : k = 0 := by omega
      refine Or.inr ⟨heq, hindex, ?_⟩
      rw [Nat.add_zero, slice_self, List.append_nil, hsent]
  · rw [m.ssi, m.file]
    intro hleft hfile'
    rcases hk with hk | rfl
    · omega
    · exact h.lost hleft hfile'

end Moves

/-! ### Writing -/

section Write

variable {σ : Type*} (tcp : Tcp σ) {data : List UInt8} {s : Sending σ}

lemma httpWriteLoop_len_le (ptr : List UInt8) (n : ℕ) (w : σ) {len : ℕ} (hlen : len ≠ 0) :
    (httpWriteLoop tcp ptr n w len).2.1 ≤ len ∧
      ((httpWriteLoop tcp ptr n w len).1 = .ok → 0 < (httpWriteLoop tcp ptr n w len).2.1) := by
  induction n generalizing w len with
  | zero => exact ⟨le_rfl, fun h => (by cases h)⟩
  | succ n ih =>
      rw [httpWriteLoop]
      rcases hw : tcp.write w (ptr.take len) with ⟨e, w'⟩
      cases e with
      | ok => exact ⟨le_rfl, fun _ => Nat.pos_of_ne_zero hlen⟩
      | other => exact ⟨le_rfl, fun h => (by cases h)⟩
      | mem =>
          dsimp only
          generalize hl : (if tcp.sndbuf w' = 0 ∨ tcpSndQueuelen ≤ (tcp.sndqueuelen w').toNat
            then 1 else len / 2) = l
          have hle : l ≤ len := by split_ifs at hl <;> omega
          split_ifs with h1
          · obtain ⟨hle', hpos⟩ := ih w' (by omega : l ≠ 0)
            exact ⟨hle'.trans hle, hpos⟩
          · exact ⟨hle, fun h => (by cases h)⟩

/-- What `http_write` leaves in `len`; nothing at all is always written. -/
lemma httpWrite_len (w : σ) (ptr : List UInt8) (len : ℕ) :
    (httpWrite tcp w ptr len).2.1 ≤ len ∧
      (len = 0 → (httpWrite tcp w ptr len).1 = .ok) ∧
        (len ≠ 0 → (httpWrite tcp w ptr len).1 = .ok → 0 < (httpWrite tcp w ptr len).2.1) := by
  rw [httpWrite]
  split_ifs with h0
  · exact ⟨Nat.zero_le _, fun _ => rfl, fun h => absurd h0 h⟩
  · obtain ⟨hle, hpos⟩ := httpWriteLoop_len_le tcp ptr 17 w h0
    exact ⟨hle, fun h => absurd h h0, fun _ => hpos⟩

lemma limit_le (s : Sending σ) :
    s.limit tcp ≤ s.ssi.parsed - s.file ∧ s.limit tcp ≤ (tcp.sndbuf s.pcb).toNat := by
  rw [Sending.limit]
  split_ifs <;> omega

/-- `len` bytes are written, or fewer, or none. -/
lemma sendParsed_spec (data : List UInt8) (hfile : s.file ≤ s.ssi.parsed) :
    ∃ k, Moved data s (s.sendParsed tcp data) k ∧ s.file + k ≤ s.ssi.parsed ∧
      (s.sendParsed tcp data).len ≤ s.limit tcp ∧
        ((s.sendParsed tcp data).err = .ok → (s.sendParsed tcp data).len = k) := by
  obtain ⟨hlimit, -⟩ := limit_le tcp s
  obtain ⟨hle, -, -⟩ := httpWrite_len tcp s.pcb (data.drop s.file) (s.limit tcp)
  rw [Sending.sendParsed, Sending.write, Sending.advance]
  dsimp only
  generalize httpWrite tcp s.pcb (data.drop s.file) (s.limit tcp) = r at hle ⊢
  split_ifs with hok
  · refine ⟨r.2.1, ⟨rfl, rfl, rfl, rfl, ?_⟩, by omega, hle, fun _ => rfl⟩
    rw [slice_add]
  · refine ⟨0, ⟨rfl, rfl, rfl, rfl, ?_⟩, hfile, hle, fun h => absurd h hok⟩
    rw [Nat.add_zero, slice_self, List.append_nil]

/-- Nothing stands before the tag any more: it counts as sent. -/
lemma Inserting.passed (h : Inserting data s) (hfile : s.file = s.ssi.tagStarted) {w : σ} {len : ℕ}
    (hlost : s.ssi.parseLeft = 0 →
      s.ssi.tagStarted = 0 ∨ EndsWithTag (data.take s.ssi.tagStarted)) {e : Err} {b : Bool}
    {left : ℕ} (hleft : s.ssi.tagEnd + left = data.length) :
    Inserting data
      ⟨w, s.ssi.tagEnd, left, s.ssi, len, e, b, s.sent, s.tags⟩ := by
  have hstarted := h.started
  refine
    { parseLeft := h.parseLeft
      left := hleft
      names := h.names
      inserts := h.inserts
      state := h.state
      tagEnd := h.tagEnd
      parsed := h.parsed
      started := hstarted
      scan := h.scan
      ends := h.ends
      short := h.short
      insert := h.insert
      sent := ?_
      last := h.last
      start := h.start
      lost := fun h0 _ => hlost h0 }
  rcases h.sent with ⟨-, hindex, hsent⟩ | ⟨heq, -, -⟩
  · refine Or.inr ⟨rfl, ?_, ?_⟩
    · rw [hindex]
      exact Nat.zero_le _
    · rw [hfile, slice_self, List.append_nil] at hsent
      rw [hindex, List.drop_zero]
      exact hsent
  · omega

/-- When nothing is left before the tag, nothing is written. -/
lemma sendBeforeTag_of_eq (heq : s.file = s.ssi.tagStarted)
    (hstarted : s.ssi.tagStarted < s.ssi.tagEnd) (hend : s.ssi.tagEnd < 65536) (hpos : 0 < s.len) :
    s.sendBeforeTag tcp data =
      ⟨s.pcb, s.ssi.tagEnd, s.left - (s.ssi.tagEnd - s.ssi.tagStarted), s.ssi,
        s.ssi.tagEnd - s.ssi.tagStarted, .ok, true, s.sent, s.tags⟩ := by
  have hlen : (if (s.ssi.tagStarted : ℤ) - s.file < s.len
      then (((s.ssi.tagStarted : ℤ) - s.file) % 65536).toNat else s.len) = 0 := by
    rw [if_pos (by omega)]
    omega
  have hmod : (0 + (s.ssi.tagEnd - s.ssi.tagStarted)) % 65536 =
      s.ssi.tagEnd - s.ssi.tagStarted := by
    omega
  have hfile : s.file + (s.ssi.tagEnd - s.ssi.tagStarted) = s.ssi.tagEnd := by omega
  rw [Sending.sendBeforeTag, Sending.write, Sending.advance]
  dsimp only
  rw [hlen, httpWrite, if_pos rfl]
  simp only [heq.ge, and_self, if_true, hmod, List.take_zero, List.append_nil, decide_true,
    Bool.or_true, hfile]

/-- When something is left before the tag, it is sent, or some of it, or nothing. -/
lemma sendBeforeTag_of_lt (data : List UInt8) (hlt : s.file < s.ssi.tagStarted)
    (hmax : s.len ≤ 65535) :
    ∃ k, Moved data s (s.sendBeforeTag tcp data) k ∧ s.file + k ≤ s.ssi.tagStarted ∧
      (s.sendBeforeTag tcp data).len ≤ s.len ∧
        ((s.sendBeforeTag tcp data).err = .ok →
          (s.sendBeforeTag tcp data).len = k ∧ (0 < s.len → 0 < k)) := by
  have hlen : (if (s.ssi.tagStarted : ℤ) - s.file < s.len
      then (((s.ssi.tagStarted : ℤ) - s.file) % 65536).toNat else s.len) =
        min s.len (s.ssi.tagStarted - s.file) := by
    split_ifs <;> omega
  obtain ⟨hle, -, hok⟩ := httpWrite_len tcp s.pcb (data.drop s.file)
    (min s.len (s.ssi.tagStarted - s.file))
  rw [Sending.sendBeforeTag, Sending.write, Sending.advance]
  dsimp only
  rw [hlen]
  generalize httpWrite tcp s.pcb (data.drop s.file) (min s.len (s.ssi.tagStarted - s.file)) = r
    at hle hok ⊢
  have hnot : ¬ (r.1 = .ok ∧ s.ssi.tagStarted ≤ s.file) := by omega
  rw [if_neg hnot]
  split_ifs with he
  · refine ⟨r.2.1, ⟨rfl, rfl, rfl, rfl, ?_⟩, by omega, by dsimp only; omega, fun _ => ⟨rfl, ?_⟩⟩
    · rw [slice_add]
    · intro hpos
      exact hok (by omega) he
  · refine ⟨0, ⟨rfl, rfl, rfl, rfl, ?_⟩, hlt.le, by dsimp only; omega, fun h => absurd h he⟩
    rw [Nat.add_zero, slice_self, List.append_nil]

/-- What stands before the tag is sent, or some of it, or nothing. -/
lemma sendBeforeTag_spec (h : Inserting data s) (hdata : data.length < 65536)
    (hfile : s.file < s.ssi.tagEnd) (hpos : 0 < s.len) (hmax : s.len ≤ 65535)
    (hlost : s.ssi.parseLeft = 0 → s.file = s.ssi.tagStarted →
      s.ssi.tagStarted = 0 ∨ EndsWithTag (data.take s.ssi.tagStarted)) :
    Inserting data (s.sendBeforeTag tcp data) ∧ (s.sendBeforeTag tcp data).ssi = s.ssi ∧
      (s.sendBeforeTag tcp data).left ≤ s.left ∧ (s.sendBeforeTag tcp data).len ≤ 65535 ∧
        ((s.sendBeforeTag tcp data).err = .ok → 0 < (s.sendBeforeTag tcp data).len ∧
          (s.sendBeforeTag tcp data).left < s.left) := by
  have hbefore : s.file ≤ s.ssi.tagStarted := by rcases h.sent with hs | hs <;> omega
  have hend := h.tagEnd
  have hstarted := h.started
  have hleft := h.left
  rcases Nat.eq_or_lt_of_le hbefore with heq | hlt
  · rw [sendBeforeTag_of_eq tcp heq hstarted (by omega) hpos]
    refine ⟨h.passed heq (fun h0 => hlost h0 heq) (by omega), rfl, Nat.sub_le _ _, ?_,
      fun _ => ⟨?_, ?_⟩⟩
    · dsimp only
      omega
    · exact Nat.sub_pos_of_lt hstarted
    · dsimp only
      omega
  · obtain ⟨k, m, hk, hlen, hok⟩ := sendBeforeTag_of_lt tcp data hlt hmax
    refine ⟨h.moved m (Or.inl hk), m.ssi, m.left ▸ Nat.sub_le _ _, hlen.trans hmax, fun he => ?_⟩
    obtain ⟨hlenk, hkpos⟩ := hok he
    have hk0 := hkpos hpos
    rw [hlenk, m.left]
    exact ⟨hk0, by omega⟩

/-- Some of the insert is sent, or nothing. -/
lemma sendInsert_of_lt (hlt : s.ssi.tagIndex < s.ssi.tagInsert.length) :
    ∃ k e w, s.sendInsert tcp =
        ⟨w, s.file, s.left, { s.ssi with tagIndex := s.ssi.tagIndex + k },
          (s.sendInsert tcp).len, e, (s.sendInsert tcp).dataToSend,
          s.sent ++ slice s.ssi.tagInsert s.ssi.tagIndex (s.ssi.tagIndex + k), s.tags⟩ ∧
      s.ssi.tagIndex + k ≤ s.ssi.tagInsert.length ∧ (s.sendInsert tcp).len ≤ s.len ∧
        (e = .ok → (s.sendInsert tcp).len = k ∧ (0 < s.len → 0 < k)) := by
  obtain ⟨hle, -, hok⟩ := httpWrite_len tcp s.pcb (s.ssi.tagInsert.drop s.ssi.tagIndex)
    (min s.len (s.ssi.tagInsert.length - s.ssi.tagIndex))
  simp only [Sending.sendInsert, if_pos hlt, Sending.write]
  generalize httpWrite tcp s.pcb (s.ssi.tagInsert.drop s.ssi.tagIndex)
    (min s.len (s.ssi.tagInsert.length - s.ssi.tagIndex)) = r at hle hok ⊢
  split_ifs with he
  · refine ⟨r.2.1, r.1, r.2.2, ?_, by omega, by dsimp only; omega, fun _ => ⟨rfl, fun hpos => ?_⟩⟩
    · rw [slice_add]
    · exact hok (by omega) he
  · refine ⟨0, r.1, r.2.2, ?_, hlt.le, by dsimp only; omega, fun h => absurd h he⟩
    rw [Nat.add_zero, slice_self, List.append_nil]

lemma Inserting.inserted (h : Inserting data s) (hfile : s.file = s.ssi.tagEnd)
    (hleft : s.ssi.parseLeft ≠ 0) {k : ℕ} (hk : s.ssi.tagIndex + k ≤ s.ssi.tagInsert.length)
    (len : ℕ) (e : Err) (w : σ) (b : Bool) :
    Inserting data
      ⟨w, s.file, s.left, { s.ssi with tagIndex := s.ssi.tagIndex + k }, len, e, b,
        s.sent ++ slice s.ssi.tagInsert s.ssi.tagIndex (s.ssi.tagIndex + k), s.tags⟩ := by
  have hstarted := h.started
  refine
    { parseLeft := h.parseLeft
      left := h.left
      names := h.names
      inserts := h.inserts
      state := h.state
      tagEnd := h.tagEnd
      parsed := h.parsed
      started := hstarted
      scan := h.scan
      ends := h.ends
      short := h.short
      insert := h.insert
      sent := Or.inr ⟨hfile, hk, ?_⟩
      last := fun h0 => absurd h0 hleft
      start := h.start
      lost := fun h0 => absurd h0 hleft }
  rcases h.sent with ⟨hle, -, -⟩ | ⟨-, -, hsent⟩
  · omega
  · have hdrop : (s.ssi.tagInsert.drop s.ssi.tagIndex).drop k =
        s.ssi.tagInsert.drop (s.ssi.tagIndex + k) := List.drop_drop
    rw [slice_add, List.append_assoc, ← hdrop, List.take_append_drop]
    exact hsent

/-- The insert has been sent: the search goes on behind the tag. -/
lemma Inserting.done (h : Inserting data s) (hfile : s.file = s.ssi.tagEnd)
    (hleft : s.ssi.parseLeft ≠ 0) (hindex : s.ssi.tagInsert.length ≤ s.ssi.tagIndex) :
    Searching data
      { s with
        ssi := { s.ssi with tagIndex := 0, tagState := .none, parsed := s.ssi.tagEnd } } := by
  have hstarted := h.started
  refine
    { parseLeft := h.parseLeft
      left := h.left
      names := h.names
      inserts := h.inserts
      state := by simp
      bounded := trivial
      parsed := h.tagEnd
      scan := h.scan
      file := hfile.le
      sent := ?_
      tag := fun hs => absurd rfl hs
      behind := fun _ => Or.inr (hfile ▸ h.ends)
      last := fun h0 => absurd h0 hleft }
  have hheld : (s.page data).held = [] := held_eq_nil h.scan
  rcases h.sent with ⟨hle, -, -⟩ | ⟨-, -, hsent⟩
  · omega
  · rw [List.drop_eq_nil_of_le hindex, List.append_nil] at hsent
    change s.sent ++ slice data s.file s.ssi.tagEnd = (s.page data).bytes
    rw [hfile, slice_self, List.append_nil, Page.bytes, hheld, List.append_nil, hsent]

end Write

/-! ### Searching -/

/-- `t` is the parser `s` after the byte `c`, with which no tag was complete. -/
structure Reads (s t : Ssi) (c : UInt8) : Prop where
  parsed : t.parsed = s.parsed + 1
  parseLeft : t.parseLeft = s.parseLeft - 1
  read : s.scan.read c = (t.scan, none)
  state : t.tagState ≠ .sending
  bounded : t.Bounded
  begun : s.scan = .text → t.scan ≠ .text → t.tagStarted = s.parsed
  kept : s.scan ≠ .text → t.tagStarted = s.tagStarted

section Reading

variable {s : Ssi} {c : UInt8}

lemma scan_eq_text (hs : s.tagState ≠ .sending) : s.scan = .text ↔ s.tagState = .none := by
  rw [Ssi.scan]
  cases h : s.tagState with
  | none => simp
  | sending => exact absurd h hs
  | leadin =>
      dsimp only
      split_ifs <;> simp
  | found => simp
  | leadout => simp

lemma reads_onNone (hs : s.tagState = .none) : Reads s (s.onNone c) c := by
  obtain ⟨hread, hbounded⟩ := scan_onNone (c := c) hs
  have htext : s.scan = .text := (scan_eq_text (by simp [hs])).mpr hs
  rw [Ssi.onNone] at hread hbounded ⊢
  split_ifs at hread hbounded ⊢ with hc
  · exact
      { parsed := rfl
        parseLeft := rfl
        read := hread
        state := by simp [Ssi.next]
        bounded := hbounded
        begun := fun _ _ => rfl
        kept := fun h => absurd htext h }
  · refine
      { parsed := rfl
        parseLeft := rfl
        read := hread
        state := by simp [Ssi.next, hs]
        bounded := hbounded
        begun := fun _ h => absurd ?_ h
        kept := fun _ => rfl }
    exact (scan_eq_text (by simp [Ssi.next, hs])).mpr hs

/-- A state that keeps the start of the tag. -/
lemma reads_of_tag (htext : s.scan ≠ .text) {t : Ssi} (hparsed : t.parsed = s.parsed + 1)
    (hleft : t.parseLeft = s.parseLeft - 1) (hstarted : t.tagStarted = s.tagStarted)
    (hstate : t.tagState ≠ .sending) (h : s.scan.read c = (t.scan, none) ∧ t.Bounded) :
    Reads s t c where
  parsed := hparsed
  parseLeft := hleft
  read := h.1
  state := hstate
  bounded := h.2
  begun := fun h => absurd h htext
  kept := fun _ => hstarted

lemma reads_onLeadin (hs : s.tagState = .leadin) (hb : s.Bounded)
    (hi : s.tagIndex ≠ leadIn.length) : Reads s (s.onLeadin c) c := by
  have htext : s.scan ≠ .text := fun h => by simp [(scan_eq_text (by simp [hs])).mp h] at hs
  have h := scan_onLeadin (c := c) hs hb hi
  rw [Ssi.onLeadin, if_neg hi] at h ⊢
  split_ifs at h ⊢
  · exact reads_of_tag htext rfl rfl rfl (by simp [Ssi.next, hs]) h
  · exact reads_of_tag htext rfl rfl rfl (by simp [Ssi.next]) h

lemma reads_onFound (hs : s.tagState = .found) (hb : s.Bounded) : Reads s (s.onFound c) c := by
  have htext : s.scan ≠ .text := fun h => by simp [(scan_eq_text (by simp [hs])).mp h] at hs
  have h := scan_onFound (c := c) hs hb
  rw [Ssi.onFound] at h ⊢
  split_ifs at h ⊢ <;> exact reads_of_tag htext rfl rfl rfl (by simp [Ssi.next, hs]) h

lemma reads_onLeadout (hs : s.tagState = .leadout) (hb : s.Bounded) (hc : s.complete c = false) :
    Reads s (s.onLeadout c) c := by
  have htext : s.scan ≠ .text := fun h => by simp [(scan_eq_text (by simp [hs])).mp h] at hs
  have h := scan_onLeadout (c := c) hs hb hc
  rw [Ssi.onLeadout] at h ⊢
  split_ifs at h ⊢ <;> exact reads_of_tag htext rfl rfl rfl (by simp [Ssi.next, hs]) h

end Reading

section Search

variable {σ : Type*} {data : List UInt8} {s : Sending σ}

/-- The next byte belongs to the page so far. -/
lemma Searching.readPage_succ (h : Searching data s) (hleft : s.ssi.parseLeft ≠ 0)
    (inserts : List (List UInt8)) :
    readPage inserts (data.take (data.length - (s.ssi.parseLeft - 1))) =
      (readPage inserts (data.take (data.length - s.ssi.parseLeft))).push inserts
        (data.getD s.ssi.parsed 0) := by
  have hparsed := h.parsed
  have hsucc : data.length - (s.ssi.parseLeft - 1) = s.ssi.parsed + 1 := by omega
  have hlength : data.length - s.ssi.parseLeft = s.ssi.parsed := by omega
  rw [hsucc, hlength, take_succ_getD (by omega), readPage_concat]

/-- A byte is read. -/
lemma Searching.read (h : Searching data s) (hleft : s.ssi.parseLeft ≠ 0) {t : Ssi}
    (r : Reads s.ssi t (data.getD s.ssi.parsed 0)) : Searching data { s with ssi := t } := by
  have hparsed := h.parsed
  have hfile := h.file
  have hsent := h.sent
  have hread : (s.page data).scan.read (data.getD s.ssi.parsed 0) = (t.scan, none) := by
    rw [h.scan, r.read]
  have hpage : ({ s with ssi := t } : Sending σ).page data =
      (s.page data).push (s.tags.map Prod.snd) (data.getD s.ssi.parsed 0) := by
    rw [Sending.page, r.parseLeft, h.readPage_succ hleft]
    rfl
  obtain ⟨hscan, hnames, hbytes, hheld⟩ := push_read (s.tags.map Prod.snd) hread
  refine
    { parseLeft := ?_
      left := h.left
      names := ?_
      inserts := h.inserts
      state := r.state
      bounded := r.bounded
      parsed := ?_
      scan := ?_
      file := ?_
      sent := ?_
      tag := fun htext => ?_
      behind := fun _ => h.behind hleft
      last := fun h0 => ?_ }
  · rw [r.parseLeft]
    exact (Nat.sub_le _ _).trans h.parseLeft
  · rw [hpage, hnames]
    exact h.names
  · rw [r.parsed, r.parseLeft]
    omega
  · rw [hpage, hscan]
  · rw [r.parsed]
    exact hfile.trans (Nat.le_add_right _ 1)
  · rw [hpage, hbytes, r.parsed, slice_succ hfile (by omega), ← hsent, List.append_assoc]
  · rw [hpage, hheld htext, r.parsed]
    by_cases hbefore : s.ssi.scan = .text
    · -- a tag begins with this byte
      rw [r.begun hbefore htext]
      have hnil : (s.page data).held = [] := held_eq_nil (h.scan.trans hbefore)
      refine Or.inr ⟨hfile, Nat.lt_succ_self _, ?_⟩
      rw [slice_succ le_rfl (by omega), slice_self, hnil]
    · rw [r.kept hbefore]
      rcases h.tag hbefore with h0 | ⟨hle, hlt, heq⟩
      · exact absurd h0 hleft
      · refine Or.inr ⟨hle, hlt.trans (Nat.lt_succ_self _), ?_⟩
        rw [slice_succ hlt.le (by omega), heq]
  · rw [r.parseLeft] at h0
    have hlength : data.length - s.ssi.parseLeft = s.ssi.parsed := by omega
    rw [Sending.page, hlength] at hread
    rw [← List.take_of_length_le (i := s.ssi.parsed + 1) (l := data) (by omega),
      endsWithTag_take_succ (s.tags.map Prod.snd) (by omega), hread]
    simp

/-- The tag that is complete with the next byte. -/
def Sending.found (s : Sending σ) (insert : List UInt8) : Sending σ :=
  { s with
    ssi := { s.ssi with
      parseLeft := s.ssi.parseLeft - 1
      tagInsert := insert
      tagIndex := 0
      tagState := .sending
      tagEnd := s.ssi.parsed + 1
      parsed := s.ssi.tagStarted }
    tags := s.tags ++ [(s.ssi.tagName.takeWhile (· ≠ 0), insert)] }

/-- A tag is complete: its insert belongs to the page. -/
lemma Searching.found (h : Searching data s) (hleft : s.ssi.parseLeft ≠ 0)
    (hc : s.ssi.complete (data.getD s.ssi.parsed 0) = true) (now : UInt32) (f : Flags) :
    Inserting data
      (s.found (getTagInsert now f (s.ssi.tagName.takeWhile (· ≠ 0)))) := by
  obtain ⟨hstate, -, -⟩ := complete_iff.mp hc
  have hname : s.ssi.tagName.length ≤ maxTagNameLen := by
    have hbounded := h.bounded
    simp only [Ssi.Bounded, hstate] at hbounded
    exact hbounded.2
  have htext : s.ssi.scan ≠ .text := fun h => by
    simp [(scan_eq_text (by simp [hstate])).mp h] at hstate
  obtain ⟨hfile, hstarted, hheld⟩ := (h.tag htext).resolve_left hleft
  generalize hname' : s.ssi.tagName.takeWhile (· ≠ 0) = name
  generalize hinsert : getTagInsert now f name = insert
  have hread : (s.page data).scan.read (data.getD s.ssi.parsed 0) = (.text, some name) := by
    rw [h.scan, scan_complete hc, hname']
  have hlength : (s.page data).names.length = (s.tags.map Prod.snd).length := by
    rw [h.names, List.length_map, List.length_map]
  have hpage : (s.found insert).page data =
      ⟨.text, (s.page data).done ++ insert, [], (s.page data).names ++ [name]⟩ := by
    have hinserts : (s.found insert).tags.map Prod.snd = s.tags.map Prod.snd ++ [insert] :=
      List.map_append
    rw [Sending.page, hinserts]
    rw [Sending.page] at hread hlength ⊢
    change readPage _ (data.take (data.length - (s.ssi.parseLeft - 1))) = _
    rw [h.readPage_succ hleft, readPage_append _ hlength.le, push_of_tag _ hread, hlength,
      List.getD_append_right _ _ _ _ le_rfl, Nat.sub_self]
    rfl
  have hparsed := h.parsed
  have hbytes : s.sent ++ slice data s.file s.ssi.tagStarted = (s.page data).done := by
    have hsent := h.sent
    rw [Page.bytes, hheld, ← slice_append hfile hstarted.le, ← List.append_assoc] at hsent
    exact List.append_cancel_right hsent
  have hends : EndsWithTag (data.take (s.ssi.parsed + 1)) := by
    have hlength : data.length - s.ssi.parseLeft = s.ssi.parsed := by omega
    rw [Sending.page, hlength] at hread
    rw [endsWithTag_take_succ (s.tags.map Prod.snd) (by omega), hread]
    rfl
  refine
    { parseLeft := (Nat.sub_le _ _).trans h.parseLeft
      left := h.left
      names := ?_
      inserts := ?_
      state := rfl
      tagEnd := ?_
      parsed := rfl
      started := hstarted.trans (Nat.lt_succ_self _)
      scan := by rw [hpage]
      ends := hends
      short := ?_
      insert := ?_
      sent := Or.inl ⟨hfile, rfl, ?_⟩
      last := fun _ => rfl
      start := ?_
      lost := fun _ hend => ?_ }
  · rw [hpage, h.names]
    change _ = (s.tags ++ [_]).map Prod.fst
    rw [List.map_append, ← hname']
    rfl
  · intro t ht
    rcases List.mem_append.mp ht with ht | ht
    · exact h.inserts t ht
    · rw [List.mem_singleton.mp ht, hname']
      exact ⟨now, f, hinsert.symm⟩
  · change s.ssi.parsed + 1 + (s.ssi.parseLeft - 1) = data.length
    omega
  · change insert.length ≤ 33
    rw [← hinsert, ← hname']
    exact length_getTagInsert_le ((List.takeWhile_prefix _).length_le.trans hname)
  · change ((s.tags ++ [_]).map Prod.snd).getLast? = some insert
    rw [List.map_append]
    exact List.getLast?_concat
  · rw [hpage, ← hbytes]
    rfl
  · change s.ssi.tagStarted + (readPage [] (data.take s.ssi.parsed)).held.length + 1 =
      s.ssi.parsed + 1
    have hlength : data.length - s.ssi.parseLeft = s.ssi.parsed := by omega
    rw [Sending.page, hlength, (readPage_frame _ [] _).2.1] at hheld
    rw [hheld, slice, List.length_take, List.length_drop]
    omega
  · change s.file = s.ssi.parsed + 1 at hend
    omega

/-- The lead-in is complete, and nothing is read. -/
lemma Searching.leadin_end (h : Searching data s) (hstate : s.ssi.tagState = .leadin)
    (hi : s.ssi.tagIndex = leadIn.length) (c : UInt8) :
    Searching data { s with ssi := s.ssi.onLeadin c } := by
  obtain ⟨hscan, hbounded⟩ := scan_onLeadin_end (c := c) hstate hi
  rw [Ssi.onLeadin, if_pos hi] at hscan hbounded ⊢
  exact
    { parseLeft := h.parseLeft
      left := h.left
      names := h.names
      inserts := h.inserts
      state := by simp
      bounded := hbounded
      parsed := h.parsed
      scan := h.scan.trans hscan.symm
      file := h.file
      sent := h.sent
      tag := hscan ▸ h.tag
      behind := h.behind
      last := h.last }

end Search

/-! ### The loop -/

/-- What the parser still has to do besides reading. -/
def Ssi.rank (s : Ssi) : ℕ :=
  match s.tagState with
  | .none | .found | .leadout => 0
  | .leadin => 1
  | .sending => 1 + (s.tagInsert.length - s.tagIndex)

/-- What is left of the work on the page; a round of the loop makes it less. -/
def Sending.work {σ : Type*} (s : Sending σ) : ℕ := 40 * s.ssi.parseLeft + s.left + s.ssi.rank

/-- The state at the head of the loop. -/
structure InLoop {σ : Type*} (data : List UInt8) (s : Sending σ) : Prop where
  inv : s.err = .ok ∧ Searching data s ∨ Inserting data s
  len : s.err = .ok → 0 < s.len
  max : s.len ≤ 65535

section Loop

variable {σ : Type*} (tcp : Tcp σ) {data : List UInt8} {s : Sending σ}

lemma rank_le_one {s : Ssi} (h : s.tagState ≠ .sending) : s.rank ≤ 1 := by
  rw [Ssi.rank]
  cases hs : s.tagState with
  | sending => exact absurd hs h
  | leadin => exact le_rfl
  | none | found | leadout => exact Nat.zero_le 1

/-- A round in which a byte is read. -/
lemma InLoop.read (h : InLoop data s) (hs : Searching data s) (hleft : s.ssi.parseLeft ≠ 0)
    (hok : s.err = .ok) {t : Ssi} (r : Reads s.ssi t (data.getD s.ssi.parsed 0)) :
    InLoop data { s with ssi := t } ∧ ({ s with ssi := t } : Sending σ).work < s.work := by
  refine ⟨⟨Or.inl ⟨hok, hs.read hleft r⟩, h.len, h.max⟩, ?_⟩
  have hrank := rank_le_one r.state
  have hparse := r.parseLeft
  rw [Sending.work, Sending.work]
  dsimp only
  omega

/-- A round in which a tag is complete. -/
lemma InLoop.found (h : InLoop data s) (hs : Searching data s) (hdata : data.length < 65536)
    (hleft : s.ssi.parseLeft ≠ 0) (hok : s.err = .ok)
    (hc : s.ssi.complete (data.getD s.ssi.parsed 0) = true) {t : Sending σ}
    (ht : t = Sending.tagFound tcp data
      { s with ssi := s.ssi.onLeadout (data.getD s.ssi.parsed 0) }) :
    InLoop data t ∧ t.work < s.work := by
  obtain ⟨hstate, hi, hbyte⟩ := complete_iff.mp hc
  have hnext : s.ssi.onLeadout (data.getD s.ssi.parsed 0) = s.ssi.next := by
    rw [Ssi.onLeadout, if_neg (by simp [hi]), if_pos hbyte, if_pos (by rw [hi, leadOut_length])]
  have hin := hs.found hleft hc (tcp.mtime s.pcb) (tcp.flags s.pcb)
  have hshort := hin.short
  have hparsed := hs.parsed
  have hfile : s.file < s.ssi.parsed + 1 := Nat.lt_succ_of_le hs.file
  have heq : t = (s.found (getTagInsert (tcp.mtime s.pcb) (tcp.flags s.pcb)
      (s.ssi.tagName.takeWhile (· ≠ 0)))).sendBeforeTag tcp data := by
    rw [ht, hnext, Sending.tagFound]
    exact if_pos hfile
  -- nothing has been sent behind the tag before
  have hlost : s.file = s.ssi.tagStarted →
      s.ssi.tagStarted = 0 ∨ EndsWithTag (data.take s.ssi.tagStarted) :=
    fun hstart => hstart ▸ hs.behind hleft
  obtain ⟨hins, hssi, hleft', hmax, hokt⟩ := sendBeforeTag_spec tcp hin hdata hfile
    (h.len hok) h.max fun _ => hlost
  rw [← heq] at hins hssi hleft' hmax hokt
  refine ⟨⟨Or.inr hins, fun he => (hokt he).1, hmax⟩, ?_⟩
  change t.left ≤ s.left at hleft'
  have hrank : t.ssi.rank ≤ 34 := by
    rw [hssi]
    change 1 + (_ - 0) ≤ 34
    change _ ≤ 33 at hshort
    omega
  have hparse : t.ssi.parseLeft = s.ssi.parseLeft - 1 := by rw [hssi]; rfl
  rw [Sending.work, Sending.work, hparse]
  omega

/-- A round in which what stands before a tag, or its insert, is sent. -/
lemma InLoop.sending (h : InLoop data s) (hs : Inserting data s) (hdata : data.length < 65536)
    (hleft : s.ssi.parseLeft ≠ 0) (hok : s.err = .ok) :
    InLoop data (s.round tcp data) ∧ (s.round tcp data).work ≤ s.work ∧
      ((s.round tcp data).err = .ok → (s.round tcp data).work < s.work) := by
  have hround : s.round tcp data =
      if s.file < s.ssi.tagEnd then s.sendBeforeTag tcp data else s.sendInsert tcp := by
    rw [Sending.round, hs.state]
  rw [hround]
  split_ifs with hfile
  · obtain ⟨hins, hssi, hle, hmax, hokt⟩ := sendBeforeTag_spec tcp hs hdata hfile
      (h.len hok) h.max fun h0 => absurd h0 hleft
    refine ⟨⟨Or.inr hins, fun he => (hokt he).1, hmax⟩, ?_, fun he => ?_⟩
    · rw [Sending.work, Sending.work, hssi]
      omega
    · have hless := (hokt he).2
      rw [Sending.work, Sending.work, hssi]
      omega
  have hend : s.file = s.ssi.tagEnd := by
    have hstarted := hs.started
    rcases hs.sent with ⟨hle, -, -⟩ | ⟨heq, -, -⟩ <;> omega
  by_cases hindex : s.ssi.tagIndex < s.ssi.tagInsert.length
  · obtain ⟨k, e, w, heq, hk, hlen, hokt⟩ := sendInsert_of_lt tcp hindex
    have hins := hs.inserted hend hleft hk (s.sendInsert tcp).len e w
      (s.sendInsert tcp).dataToSend
    rw [← heq] at hins
    have herr : (s.sendInsert tcp).err = e := by rw [heq]
    have hwork : (s.sendInsert tcp).work + k = s.work := by
      rw [Sending.work, Sending.work, Ssi.rank, Ssi.rank, hs.state, heq]
      simp only [hs.state]
      omega
    refine ⟨⟨Or.inr hins, fun he => ?_, hlen.trans h.max⟩, by omega, fun he => ?_⟩
    · obtain ⟨hlen, hpos⟩ := hokt (herr ▸ he)
      exact hlen ▸ hpos (h.len hok)
    · obtain ⟨-, hpos⟩ := hokt (herr ▸ he)
      have hk0 := hpos (h.len hok)
      omega
  · rw [Sending.sendInsert, if_neg hindex]
    have hwork : ({ s with
        ssi := { s.ssi with tagIndex := 0, tagState := .none, parsed := s.ssi.tagEnd } } :
          Sending σ).work < s.work := by
      rw [Sending.work, Sending.work, Ssi.rank, Ssi.rank, hs.state]
      dsimp only
      omega
    exact ⟨⟨Or.inl ⟨hok, hs.done hend hleft (not_lt.mp hindex)⟩, h.len, h.max⟩, hwork.le,
      fun _ => hwork⟩

/-- **One round of the loop.** -/
lemma round_spec (h : InLoop data s) (hdata : data.length < 65536) (hleft : s.ssi.parseLeft ≠ 0)
    (hok : s.err = .ok) :
    InLoop data (s.round tcp data) ∧ (s.round tcp data).work ≤ s.work ∧
      ((s.round tcp data).err = .ok → (s.round tcp data).work < s.work) := by
  rcases h.inv with ⟨-, hs⟩ | hs
  · have hread : ∀ {t : Ssi}, Reads s.ssi t (data.getD s.ssi.parsed 0) →
        InLoop data { s with ssi := t } ∧ ({ s with ssi := t } : Sending σ).work ≤ s.work ∧
          (s.err = .ok → ({ s with ssi := t } : Sending σ).work < s.work) := fun r => by
      obtain ⟨hin, hwork⟩ := h.read hs hleft hok r
      exact ⟨hin, hwork.le, fun _ => hwork⟩
    rw [Sending.round]
    cases hstate : s.ssi.tagState with
    | none => exact hread (reads_onNone hstate)
    | leadin =>
        by_cases hi : s.ssi.tagIndex = leadIn.length
        · have hwork : ({ s with ssi := s.ssi.onLeadin (data.getD s.ssi.parsed 0) } :
              Sending σ).work < s.work := by
            rw [Sending.work, Sending.work, Ssi.rank, Ssi.rank, Ssi.onLeadin, if_pos hi, hstate]
            exact Nat.lt_succ_self _
          exact ⟨⟨Or.inl ⟨hok, hs.leadin_end hstate hi _⟩, h.len, h.max⟩, hwork.le,
            fun _ => hwork⟩
        · exact hread (reads_onLeadin hstate hs.bounded hi)
    | found => exact hread (reads_onFound hstate hs.bounded)
    | leadout =>
        dsimp only
        split_ifs with hc
        · obtain ⟨hin, hwork⟩ := h.found tcp hs hdata hleft hok hc rfl
          exact ⟨hin, hwork.le, fun _ => hwork⟩
        · exact hread (reads_onLeadout hstate hs.bounded (by simpa using hc))
    | sending => exact absurd hstate hs.state
  · exact h.sending tcp hs hdata hleft hok

/-- **The loop ends**, with the end of the page parsed or a write that was refused. -/
lemma ssiLoop_spec {fuel : ℕ} (h : InLoop data s) (hdata : data.length < 65536)
    (hfuel : s.work < fuel) :
    ∃ t, ssiLoop tcp data fuel s = some (t, false) ∧ InLoop data t ∧
      (t.ssi.parseLeft = 0 ∨ t.err ≠ .ok) ∧ t.work ≤ s.work ∧
        (s.ssi.parseLeft ≠ 0 → s.err = .ok → (s.round tcp data).err = .ok →
          t.work < s.work) := by
  induction fuel generalizing s with
  | zero => exact absurd hfuel (Nat.not_lt_zero _)
  | succ fuel ih =>
      rw [ssiLoop]
      by_cases hgo : s.ssi.parseLeft ≠ 0 ∧ s.err = .ok
      · have hlen := h.len hgo.2
        obtain ⟨hin, hle, hlt⟩ := round_spec tcp h hdata hgo.1 hgo.2
        rw [if_pos hgo, if_neg hlen.ne']
        by_cases hok : (s.round tcp data).err = .ok
        · have hless := hlt hok
          obtain ⟨t, ht, hin, hend, hwork, -⟩ := ih hin (by omega)
          exact ⟨t, ht, hin, hend, hwork.trans hle, fun _ _ _ => hwork.trans_lt hless⟩
        · -- the write was refused: the loop ends before the next round
          have hfuel' : fuel ≠ 0 := by
            rw [Sending.work] at hfuel
            omega
          obtain ⟨n, rfl⟩ := Nat.exists_eq_succ_of_ne_zero hfuel'
          refine ⟨_, ?_, hin, Or.inr hok, hle, fun _ _ h => absurd h hok⟩
          rw [ssiLoop, if_neg fun h => hok h.2]
      · refine ⟨s, if_neg hgo, h, ?_, le_rfl, fun h0 he => absurd ⟨h0, he⟩ hgo⟩
        by_contra hcon
        exact hgo (by tauto)

end Loop

/-! ### A call -/

/-- The state between two calls. -/
def Boundary {σ : Type*} (data : List UInt8) (s : Sending σ) : Prop :=
  Searching data s ∧ (s.ssi.parseLeft = 0 ∨ s.file = s.ssi.parsed) ∨ Inserting data s

/-- The connection has room, and accepts what fits. -/
def Ready {σ : Type*} (tcp : Tcp σ) (w : σ) : Prop :=
  0 < (tcp.sndbuf w).toNat ∧ 0 < (tcp.mss w).toNat ∧
    ∀ l : List UInt8, l ≠ [] → l.length ≤ (tcp.sndbuf w).toNat → (tcp.write w l).1 = .ok

section Call

variable {σ : Type*} (tcp : Tcp σ) {data : List UInt8} {s t : Sending σ}

/-- The pcb and the locals do not matter. -/
lemma Boundary.frame (h : Boundary data s) (m : Moved data s t 0) :
    Boundary data t ∧ t.work = s.work := by
  constructor
  · rcases h with ⟨hs, hend⟩ | hs
    · refine Or.inl ⟨hs.moved m hs.file (Or.inr rfl), ?_⟩
      rw [m.ssi, m.file]
      exact hend
    · exact Or.inr (hs.moved m (Or.inr rfl))
  · rw [Sending.work, Sending.work, m.ssi, m.left]
    rfl

lemma Boundary.left (h : Boundary data s) : s.file + s.left = data.length := by
  rcases h with ⟨hs, -⟩ | hs
  · exact hs.left
  · exact hs.left

lemma Boundary.parsed_le (h : Boundary data s) : s.ssi.parsed ≤ data.length := by
  rcases h with ⟨hs, -⟩ | hs
  · have hparsed := hs.parsed
    omega
  · have hparsed := hs.parsed
    have hstarted := hs.started
    have hend := hs.tagEnd
    omega

/-- If nothing is pending, no tag has begun. -/
lemma Searching.scan_text (hs : Searching data s) (hleft : s.ssi.parseLeft ≠ 0)
    (hpend : s.ssi.parsed ≤ s.file) : s.ssi.scan = .text := by
  by_contra hscan
  obtain ⟨hle, hlt, -⟩ := (hs.tag hscan).resolve_left hleft
  omega

/-- If nothing is pending, there is something to parse, unless the page ends with a tag. -/
lemma Boundary.parseLeft_ne (h : Boundary data s) (hpend : s.ssi.parsed ≤ s.file)
    (hleft : s.left ≠ 0) (hends : ¬ EndsWithTag data) : s.ssi.parseLeft ≠ 0 := by
  intro h0
  rcases h with ⟨hs, -⟩ | hs
  · have hparsed := hs.parsed
    have hfile := hs.left
    omega
  · have htag := hs.ends
    rw [List.take_of_length_le (by have := hs.tagEnd; omega)] at htag
    exact hends htag

/-- What has been parsed is sent, as far as possible. -/
lemma Boundary.sendParsed (h : Boundary data s) (hlt : s.file < s.ssi.parsed) :
    Boundary data (s.sendParsed tcp data) ∧ (s.sendParsed tcp data).work ≤ s.work ∧
      (0 < (s.sendParsed tcp data).len → (s.sendParsed tcp data).err = .ok →
        (s.sendParsed tcp data).work < s.work) := by
  obtain ⟨k, m, hk, -, hok⟩ := sendParsed_spec tcp data hlt.le
  have hleft := h.left
  have hparsed := h.parsed_le
  have hwork : (s.sendParsed tcp data).work + k = s.work := by
    rw [Sending.work, Sending.work, m.ssi, m.left]
    omega
  refine ⟨?_, by omega, fun hlen he => ?_⟩
  · rcases h with ⟨hs, hend⟩ | hs
    · have h0 : s.ssi.parseLeft = 0 := hend.resolve_right hlt.ne
      exact Or.inl ⟨hs.moved m hk (Or.inl h0), Or.inl (m.ssi ▸ h0)⟩
    · exact Or.inr (hs.moved m (Or.inl (hs.parsed ▸ hk)))
  · have hlenk := hok he
    omega

/-- What is parsed behind the last round is sent. -/
lemma Boundary.finish (h : Boundary data s) :
    Boundary data (s.finish tcp data) ∧ (s.finish tcp data).work ≤ s.work := by
  rw [Sending.finish]
  split_ifs with hsend
  · obtain ⟨hb, hle, -⟩ := h.sendParsed tcp hsend.2
    exact ⟨hb, hle⟩
  · exact ⟨h, le_rfl⟩

/-- The loop, between two calls. -/
lemma Boundary.loop (h : Boundary data s) (hdata : data.length < 65536) (hmax : s.len ≤ 65535)
    {fuel : ℕ} (hfuel : s.work < fuel) :
    ∃ t r, ssiLoop tcp data fuel s = some (t, r) ∧ Boundary data t ∧ t.work ≤ s.work ∧
      (s.ssi.parseLeft ≠ 0 → s.err = .ok → 0 < s.len → (s.round tcp data).err = .ok →
        t.work < s.work) := by
  obtain ⟨n, rfl⟩ := Nat.exists_eq_succ_of_ne_zero (Nat.ne_zero_of_lt hfuel)
  by_cases hgo : s.ssi.parseLeft ≠ 0 ∧ s.err = .ok
  · by_cases hlen : s.len = 0
    · refine ⟨s, true, ?_, h, le_rfl, fun _ _ hpos => absurd hlen hpos.ne'⟩
      rw [ssiLoop, if_pos hgo, if_pos hlen]
    · have hin : InLoop data s :=
        { inv := by
            rcases h with ⟨hs, -⟩ | hs
            · exact Or.inl ⟨hgo.2, hs⟩
            · exact Or.inr hs
          len := fun _ => Nat.pos_of_ne_zero hlen
          max := hmax }
      obtain ⟨t, ht, htin, hend, hwork, hless⟩ := ssiLoop_spec tcp hin hdata hfuel
      refine ⟨t, false, ht, ?_, hwork, fun h0 he _ hr => hless h0 he hr⟩
      rcases htin.inv with ⟨hok, hs⟩ | hs
      · exact Or.inl ⟨hs, Or.inl (hend.resolve_right fun he => he hok)⟩
      · exact Or.inr hs
  · refine ⟨s, false, ?_, h, le_rfl, fun h0 hok => absurd ⟨h0, hok⟩ hgo⟩
    rw [ssiLoop, if_neg hgo]

lemma Boundary.work_lt (h : Boundary data s) : s.work < ssiRounds data := by
  rw [Sending.work, ssiRounds]
  rcases h with ⟨hs, -⟩ | hs
  · have hrank := rank_le_one hs.state
    have hparse := hs.parseLeft
    have hleft := hs.left
    omega
  · have hrank : s.ssi.rank ≤ 34 := by
      have hshort := hs.short
      simp only [Ssi.rank, hs.state]
      omega
    have hparse := hs.parseLeft
    have hleft := hs.left
    omega

variable {tcp}

/-- What fits is written. -/
lemma Ready.httpWrite {w : σ} (hw : Ready tcp w) {ptr : List UInt8} (hptr : ptr ≠ []) {len : ℕ}
    (hpos : 0 < len) (hlen : len ≤ (tcp.sndbuf w).toNat) :
    (httpWrite tcp w ptr len).1 = .ok ∧ (httpWrite tcp w ptr len).2.1 = len := by
  have hne : ptr.take len ≠ [] := by
    rw [Ne, List.take_eq_nil_iff]
    rintro (h | h)
    · omega
    · exact hptr h
  have hok := hw.2.2 (ptr.take len) hne ((List.length_take_le _ _).trans hlen)
  rw [Http.httpWrite, if_neg hpos.ne', httpWriteLoop]
  rcases hr : tcp.write w (ptr.take len) with ⟨e, w'⟩
  rw [hr] at hok
  rw [show e = .ok from hok]
  exact ⟨rfl, rfl⟩

/-- What is parsed can be sent. -/
lemma Ready.sendParsed (hw : Ready tcp s.pcb) (hlt : s.file < s.ssi.parsed)
    (hfile : s.file < data.length) :
    (s.sendParsed tcp data).err = .ok ∧ 0 < (s.sendParsed tcp data).len := by
  obtain ⟨-, hle⟩ := limit_le tcp s
  have hpos : 0 < s.limit tcp := by
    obtain ⟨hbuf, hmss, -⟩ := hw
    rw [Sending.limit]
    split_ifs <;> omega
  have hptr : data.drop s.file ≠ [] := by
    rw [Ne, List.drop_eq_nil_iff]
    omega
  obtain ⟨hok, hlen⟩ := hw.httpWrite hptr hpos hle
  rw [Sending.sendParsed, Sending.write, Sending.advance]
  dsimp only
  rw [hok, if_pos rfl, hlen]
  exact ⟨rfl, hpos⟩

/-- The first round, if nothing is pending. -/
lemma Ready.round (hw : Ready tcp s.pcb) (h : Boundary data s) (hdata : data.length < 65536)
    (hleft : s.ssi.parseLeft ≠ 0) (hparsed : s.ssi.parsed ≤ s.file) (hok : s.err = .ok)
    (hpos : 0 < s.len) (hlen : s.len ≤ (tcp.sndbuf s.pcb).toNat) :
    (s.round tcp data).err = .ok := by
  rcases h with ⟨hs, -⟩ | hs
  · rw [Sending.round, (scan_eq_text hs.state).mp (hs.scan_text hleft hparsed)]
    exact hok
  · have hstarted := hs.started
    have hend := hs.tagEnd
    have htag := hs.parsed
    rw [Sending.round, hs.state]
    dsimp only
    split_ifs with hfile
    · have heq : s.file = s.ssi.tagStarted := by rcases hs.sent with h | h <;> omega
      rw [sendBeforeTag_of_eq tcp heq hstarted (by omega) hpos]
    · rw [Sending.sendInsert]
      split_ifs with hindex
      · have hptr : s.ssi.tagInsert.drop s.ssi.tagIndex ≠ [] := by
          rw [Ne, List.drop_eq_nil_iff]
          omega
        have hpos' : 0 < min s.len (s.ssi.tagInsert.length - s.ssi.tagIndex) := by omega
        have hwrite := (hw.httpWrite hptr hpos' (by omega)).1
        dsimp only [Sending.write]
        rw [hwrite, if_pos rfl]
      · exact hok

variable (tcp) in
/-- **A call returns**, and leaves less to do if the connection is ready. -/
lemma httpSendDataSsi_spec (h : Boundary data s) (hdata : data.length < 65536) :
    ∃ t, httpSendDataSsi tcp data s = some t ∧ Boundary data t ∧ t.work ≤ s.work ∧
      (Ready tcp s.pcb → s.left ≠ 0 → ¬ EndsWithTag data → t.work < s.work) := by
  generalize hu : ({ s with len := (tcp.sndbuf s.pcb).toNat, err := .ok, dataToSend := false } :
    Sending σ) = u
  have hmoved : Moved data s u 0 := by
    subst hu
    refine ⟨rfl, rfl, rfl, rfl, ?_⟩
    rw [Nat.add_zero, slice_self, List.append_nil]
  obtain ⟨hbu, hwork⟩ := h.frame hmoved
  have hlen : u.len = (tcp.sndbuf u.pcb).toNat := by rw [← hu]
  have hok : u.err = .ok := by rw [← hu]
  have hpcb : u.pcb = s.pcb := by rw [← hu]
  -- the loop and what comes behind it, from the state in which the loop begins
  have hrest : ∀ v : Sending σ, Boundary data v → v.len ≤ 65535 → ∃ t,
      ((ssiLoop tcp data (ssiRounds data) v).map fun r =>
        if r.2 then r.1 else r.1.finish tcp data) = some t ∧ Boundary data t ∧
        t.work ≤ v.work ∧ (v.ssi.parseLeft ≠ 0 → v.err = .ok → 0 < v.len →
          (v.round tcp data).err = .ok → t.work < v.work) := fun v hv hmax => by
    obtain ⟨t, r, ht, hbt, hle, hlt⟩ := hv.loop tcp hdata hmax hv.work_lt
    rw [ht]
    cases r with
    | true => exact ⟨t, rfl, hbt, hle, hlt⟩
    | false =>
        obtain ⟨hbf, hlef⟩ := hbt.finish tcp
        exact ⟨_, rfl, hbf, hlef.trans hle, fun h0 he hl hr => hlef.trans_lt (hlt h0 he hl hr)⟩
  have hmax : ∀ w, (tcp.sndbuf w).toNat ≤ 65535 := fun w =>
    Nat.le_of_lt_succ (tcp.sndbuf w).toNat_lt
  rw [httpSendDataSsi, hu]
  by_cases hpend : u.file < u.ssi.parsed
  · obtain ⟨hbv, hle, hlt⟩ := hbu.sendParsed tcp hpend
    have hready : Ready tcp s.pcb → (u.sendParsed tcp data).work < s.work := fun hr => by
      obtain ⟨he, hl⟩ := Ready.sendParsed (hpcb ▸ hr) hpend (hpend.trans_le hbu.parsed_le)
      exact hwork ▸ hlt hl he
    simp only [hpend, decide_true, if_true, Bool.true_and]
    split_ifs with hbuf
    · exact ⟨_, rfl, hbv, hwork ▸ hle, fun hr _ _ => hready hr⟩
    · have hvmax : (u.sendParsed tcp data).len ≤ 65535 := by
        obtain ⟨k, -, -, hlim, -⟩ := sendParsed_spec tcp data hpend.le
        exact (hlim.trans (limit_le tcp u).2).trans (hmax _)
      obtain ⟨t, ht, hbt, hlet, -⟩ := hrest _ hbv hvmax
      exact ⟨t, ht, hbt, hwork ▸ hlet.trans hle, fun hr _ _ => hlet.trans_lt (hready hr)⟩
  · simp only [hpend, decide_false, if_false, Bool.false_and, Bool.false_eq_true]
    obtain ⟨t, ht, hbt, hlet, hless⟩ := hrest u hbu (hlen ▸ hmax _)
    refine ⟨t, ht, hbt, hwork ▸ hlet, fun hr hleft hends => hwork ▸ ?_⟩
    have hpos : 0 < u.len := by
      rw [hlen, hpcb]
      exact hr.1
    have hparse := hbu.parseLeft_ne (not_lt.mp hpend) (hmoved.left ▸ hleft) hends
    exact hless hparse hok hpos (Ready.round (hpcb ▸ hr) hbu hdata hparse (not_lt.mp hpend) hok
      hpos hlen.le)

end Call

end Stm32Ecm.Http
