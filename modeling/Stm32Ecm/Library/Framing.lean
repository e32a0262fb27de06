import Mathlib.Data.List.Induction
import Mathlib.Tactic.Common
import Mathlib.Algebra.Order.Group.Nat

/-!
Messages cut into chunks of at most `n` cells, and their reassembly by a receiver that closes
a message at the first chunk shorter than `n`.

* `chunks`: the splitting into consecutive chunks of `n` cells, the last one possibly
  shorter; `chunks_of_ne_nil` is its recursion;
* `framed`: the splitting closed by a short chunk, an empty one when the length is a multiple
  of `n`; `framed_of_lt` and `framed_of_le` are its recursion, and `framed_suffix` what is left of
  it behind an initial part;
* `feed`: one step of the receiver, `foldl_feed_chunks` and `foldl_feed_framed` what it makes
  of a whole message;
* `reassemble_chunks_iff`: plain `chunks` come back as the messages sent exactly when no
  message has a length that is a multiple of `n`;
* `reassemble_framed_prefix`: any initial part of a `framed` stream comes back as an initial
  part of the messages, with a part of the next message in the accumulator;
* `requested`: the splitting for a side that asked for a number of cells, `collect` how that side
  reads it; `collect_requested` says that it reads the message.
-/

namespace Framing

variable {α : Type*} {n : ℕ}

/-! ### Splitting -/

/-- The `i`-th chunk. -/
def chunkAt (n : ℕ) (l : List α) (i : ℕ) : List α := (l.drop (n * i)).take n

/-- The number of chunks. -/
def chunkCount (n : ℕ) (l : List α) : ℕ := (l.length + n - 1) / n

/-- The splitting into consecutive chunks of `n` cells, the last one possibly shorter. -/
def chunks (n : ℕ) (l : List α) : List (List α) :=
  (List.range (chunkCount n l)).map (chunkAt n l)

/-- The splitting closed by a chunk shorter than `n`: an empty one when the length is a
multiple of `n`. -/
def framed (n : ℕ) (l : List α) : List (List α) :=
  chunks n l ++ if l.length % n = 0 then [[]] else []

lemma chunkCount_nil (hn : 0 < n) : chunkCount n ([] : List α) = 0 := by
  rw [chunkCount, List.length_nil, Nat.zero_add]
  exact Nat.div_eq_of_lt (by omega)

@[simp] lemma chunks_nil (hn : 0 < n) : chunks n ([] : List α) = [] := by
  rw [chunks, chunkCount_nil hn]
  rfl

lemma chunkCount_of_ne_nil (hn : 0 < n) {l : List α} (hl : l ≠ []) :
    chunkCount n l = chunkCount n (l.drop n) + 1 := by
  have hpos : 0 < l.length := List.length_pos_iff.mpr hl
  rw [chunkCount, chunkCount, List.length_drop]
  by_cases h : n ≤ l.length
  · rw [show l.length + n - 1 = (l.length - n + n - 1) + n from by omega,
      Nat.add_div_right _ hn]
  · rw [show l.length - n = 0 from by omega, Nat.zero_add,
      Nat.div_eq_of_lt (show n - 1 < n from by omega),
      show l.length + n - 1 = (l.length - 1) + n from by omega, Nat.add_div_right _ hn,
      Nat.div_eq_of_lt (by omega)]

/-- The recursion of `chunks`: the first `n` cells, then the rest. -/
lemma chunks_of_ne_nil (hn : 0 < n) {l : List α} (hl : l ≠ []) :
    chunks n l = l.take n :: chunks n (l.drop n) := by
  rw [chunks, chunkCount_of_ne_nil hn hl, List.range_succ_eq_map, List.map_cons, List.map_map,
    chunks]
  congr 1
  refine List.map_congr_left fun i _ => ?_
  simp only [Function.comp_apply, chunkAt, List.drop_drop]
  rw [show n * i.succ = n + n * i from by rw [Nat.mul_succ, Nat.add_comm]]

lemma framed_of_lt {l : List α} (h : l.length < n) : framed n l = [l] := by
  have hn : 0 < n := by omega
  rw [framed]
  by_cases hl : l = []
  · subst hl
    simp [hn]
  · have hpos : 0 < l.length := List.length_pos_iff.mpr hl
    rw [chunks_of_ne_nil hn hl, List.take_of_length_le (by omega),
      List.drop_of_length_le (by omega), chunks_nil hn, if_neg, List.append_nil]
    rw [Nat.mod_eq_of_lt h]
    omega

lemma framed_of_le (hn : 0 < n) {l : List α} (h : n ≤ l.length) :
    framed n l = l.take n :: framed n (l.drop n) := by
  have hl : l ≠ [] := by
    rintro rfl
    simp only [List.length_nil] at h
    omega
  rw [framed, chunks_of_ne_nil hn hl, framed, List.cons_append, List.length_drop,
    ← Nat.mod_eq_sub_mod h]

/-- Behind an initial part of a framed message comes the framing of the rest of the message. -/
lemma framed_suffix (hn : 0 < n) {as cs : List (List α)} {l : List α} (h : as ++ cs = framed n l)
    (hcs : cs ≠ []) : (∀ a ∈ as, n ≤ a.length) ∧ ∃ l', cs = framed n l' := by
  induction as generalizing l with
  | nil => exact ⟨fun a ha => (by cases ha), l, h⟩
  | cons a as ih =>
      by_cases hle : n ≤ l.length
      · rw [framed_of_le hn hle, List.cons_append, List.cons.injEq] at h
        obtain ⟨hfull, hrest⟩ := ih h.2
        refine ⟨List.forall_mem_cons.mpr ⟨?_, hfull⟩, hrest⟩
        rw [h.1, List.length_take]
        omega
      · rw [framed_of_lt (by omega), List.cons_append, List.cons.injEq] at h
        exact absurd (List.append_eq_nil_iff.mp h.2).2 hcs

/-- The chunks make up the message. -/
lemma flatten_chunks (hn : 0 < n) (l : List α) : (chunks n l).flatten = l := by
  induction hk : l.length using Nat.strong_induction_on generalizing l with
  | _ k ih =>
    by_cases hl : l = []
    · rw [hl, chunks_nil hn, List.flatten_nil]
    · have hpos : 0 < l.length := List.length_pos_iff.mpr hl
      have hrest := ih (l.drop n).length (by rw [List.length_drop]; omega) (l.drop n) rfl
      rw [chunks_of_ne_nil hn hl, List.flatten_cons, hrest, List.take_append_drop]

/-! ### Reassembly -/

/-- The receiver's state: the cells of the message under way and the messages closed. -/
structure Assembly (α : Type*) where
  acc : List α
  done : List (List α)
  deriving DecidableEq

/-- One chunk: it is accumulated, and a chunk shorter than `n` closes the message. -/
def feed (n : ℕ) (r : Assembly α) (c : List α) : Assembly α :=
  if c.length < n then ⟨[], r.done ++ [r.acc ++ c]⟩ else ⟨r.acc ++ c, r.done⟩

/-- The receiver on a stream of chunks. -/
def reassemble (n : ℕ) (cs : List (List α)) : Assembly α := cs.foldl (feed n) ⟨[], []⟩

lemma feed_of_lt {r : Assembly α} {c : List α} (h : c.length < n) :
    feed n r c = ⟨[], r.done ++ [r.acc ++ c]⟩ := if_pos h

lemma feed_of_le {r : Assembly α} {c : List α} (h : n ≤ c.length) :
    feed n r c = ⟨r.acc ++ c, r.done⟩ := if_neg (by omega)

lemma reassemble_concat (cs : List (List α)) (c : List α) :
    reassemble n (cs ++ [c]) = feed n (reassemble n cs) c := by
  rw [reassemble, List.foldl_append]
  rfl

/-- The accumulator always holds whole chunks of `n` cells. -/
lemma dvd_length_acc {cs : List (List α)} (h : ∀ c ∈ cs, c.length ≤ n) :
    n ∣ (reassemble n cs).acc.length := by
  induction cs using List.reverseRecOn with
  | nil => exact Nat.dvd_zero n
  | append_singleton cs c ih =>
      have ih' := ih fun x hx => h x (by simp [hx])
      have hc : c.length ≤ n := h c (by simp)
      rw [reassemble_concat]
      by_cases hlt : c.length < n
      · rw [feed_of_lt hlt]
        exact Nat.dvd_zero n
      · rw [feed_of_le (by omega), List.length_append,
          show c.length = n from by omega]
        exact (Nat.dvd_add_self_right).mpr ih'

/-- What the receiver makes of a plain splitting: the message is closed exactly when its
length is not a multiple of `n`. -/
lemma foldl_feed_chunks (hn : 0 < n) (l acc : List α) (d : List (List α)) :
    (chunks n l).foldl (feed n) ⟨acc, d⟩ =
      if l.length % n = 0 then ⟨acc ++ l, d⟩ else ⟨[], d ++ [acc ++ l]⟩ := by
  induction hk : l.length using Nat.strong_induction_on generalizing l acc with
  | _ k ih =>
    by_cases hl : l = []
    · subst hl
      rw [← hk]
      simp [hn]
    · have hpos : 0 < l.length := List.length_pos_iff.mpr hl
      rw [chunks_of_ne_nil hn hl, List.foldl_cons]
      by_cases hlt : l.length < n
      · rw [List.take_of_length_le (by omega), List.drop_of_length_le (by omega),
          chunks_nil hn, List.foldl_nil, feed_of_lt hlt, if_neg]
        rw [← hk, Nat.mod_eq_of_lt hlt]
        omega
      · have htake : (l.take n).length = n := by rw [List.length_take]; omega
        rw [feed_of_le (by omega),
          ih (l.drop n).length (by rw [List.length_drop]; omega) (l.drop n) _ rfl,
          List.append_assoc, List.take_append_drop, List.length_drop,
          ← Nat.mod_eq_sub_mod (by omega), hk]

/-- What the receiver makes of a closed splitting: exactly the message. -/
lemma foldl_feed_framed (hn : 0 < n) (l acc : List α) (d : List (List α)) :
    (framed n l).foldl (feed n) ⟨acc, d⟩ = ⟨[], d ++ [acc ++ l]⟩ := by
  rw [framed, List.foldl_append, foldl_feed_chunks hn]
  by_cases h : l.length % n = 0
  · rw [if_pos h, if_pos h, List.foldl_cons, List.foldl_nil,
      feed_of_lt (by simpa using hn), List.append_nil]
  · rw [if_neg h, if_neg h, List.foldl_nil]

/-! ### Plain splittings, message by message -/

lemma foldl_feed_flatMap_chunks (hn : 0 < n) {ls : List (List α)}
    (h : ∀ l ∈ ls, l.length % n ≠ 0) (d : List (List α)) :
    (ls.flatMap (chunks n)).foldl (feed n) ⟨[], d⟩ = ⟨[], d ++ ls⟩ := by
  induction ls generalizing d with
  | nil => simp
  | cons l ls ih =>
      rw [List.flatMap_cons, List.foldl_append, foldl_feed_chunks hn,
        if_neg (h l (by simp)), List.nil_append, ih fun x hx => h x (by simp [hx]),
        List.append_assoc, List.singleton_append]

/-- Each message closes at most one message of the receiver, and none when its length is a
multiple of `n`. -/
lemma length_done_flatMap_chunks (hn : 0 < n) (ls : List (List α)) (r : Assembly α) :
    ((ls.flatMap (chunks n)).foldl (feed n) r).done.length =
      r.done.length + ls.countP fun l => l.length % n ≠ 0 := by
  induction ls generalizing r with
  | nil => simp
  | cons l ls ih =>
      rw [List.flatMap_cons, List.foldl_append, ih, foldl_feed_chunks hn, List.countP_cons]
      by_cases h : l.length % n = 0
      · simp [h]
      · simp [h]
        omega

/-- **Plain splittings lose the boundary at multiples of `n`.**  The receiver gives the
messages back, with nothing left over, exactly when no length is a multiple of `n`. -/
theorem reassemble_chunks_iff (hn : 0 < n) (ls : List (List α)) :
    reassemble n (ls.flatMap (chunks n)) = ⟨[], ls⟩ ↔ ∀ l ∈ ls, l.length % n ≠ 0 := by
  constructor
  · intro h l hl
    have hcount := length_done_flatMap_chunks hn ls ⟨[], []⟩
    rw [← reassemble, h, List.length_nil, Nat.zero_add] at hcount
    simpa using List.countP_eq_length.mp hcount.symm l hl
  · intro h
    exact foldl_feed_flatMap_chunks hn h []

/-- Closed splittings come back as the messages sent. -/
lemma reassemble_framed (hn : 0 < n) (ls : List (List α)) :
    reassemble n (ls.flatMap (framed n)) = ⟨[], ls⟩ := by
  suffices h : ∀ d, (ls.flatMap (framed n)).foldl (feed n) ⟨[], d⟩ = ⟨[], d ++ ls⟩ from h []
  induction ls with
  | nil => simp
  | cons l ls ih =>
      intro d
      rw [List.flatMap_cons, List.foldl_append, foldl_feed_framed hn, List.nil_append, ih,
        List.append_assoc, List.singleton_append]

/-! ### Initial parts of a closed stream -/

/-- An initial part of a stream that starts with the closed message `l` either contains the
whole message, or only whole chunks of an initial part of it. -/
lemma prefix_framed_append (hn : 0 < n) (l acc : List α) (d : List (List α))
    {cs rest : List (List α)} (h : cs <+: framed n l ++ rest) :
    (∃ cs', cs = framed n l ++ cs' ∧ cs' <+: rest) ∨
      (cs.foldl (feed n) ⟨acc, d⟩ = ⟨acc ++ cs.flatten, d⟩ ∧ cs.flatten <+: l) := by
  induction hk : l.length using Nat.strong_induction_on generalizing l acc cs with
  | _ k ih =>
    cases cs with
    | nil => exact Or.inr ⟨by simp, List.nil_prefix⟩
    | cons c cs =>
        by_cases hlt : l.length < n
        · rw [framed_of_lt hlt, List.singleton_append, List.cons_prefix_cons] at h
          exact Or.inl ⟨cs, by rw [framed_of_lt hlt, List.singleton_append, h.1], h.2⟩
        · have hle : n ≤ l.length := by omega
          rw [framed_of_le hn hle, List.cons_append, List.cons_prefix_cons] at h
          obtain ⟨rfl, h⟩ := h
          have htake : (l.take n).length = n := by rw [List.length_take]; omega
          rcases ih (l.drop n).length (by rw [List.length_drop]; omega) (l.drop n)
              (acc ++ l.take n) h rfl with ⟨cs', rfl, hcs'⟩ | ⟨hfold, hpre⟩
          · exact Or.inl ⟨cs', by rw [framed_of_le hn hle, List.cons_append], hcs'⟩
          · refine Or.inr ⟨?_, ?_⟩
            · rw [List.foldl_cons, feed_of_le (by omega), hfold, List.flatten_cons,
                List.append_assoc]
            · rw [List.flatten_cons]
              conv_rhs => rw [← List.take_append_drop n l]
              exact (List.prefix_append_right_inj _).mpr hpre

lemma foldl_feed_framed_prefix (hn : 0 < n) {ls : List (List α)} (d : List (List α))
    {cs : List (List α)} (h : cs <+: ls.flatMap (framed n)) :
    ∃ k, (cs.foldl (feed n) ⟨[], d⟩).done = d ++ ls.take k ∧
      ((cs.foldl (feed n) ⟨[], d⟩).acc = [] ∨
        ∃ l, ls[k]? = some l ∧ (cs.foldl (feed n) ⟨[], d⟩).acc <+: l) := by
  induction ls generalizing d cs with
  | nil =>
      rw [List.flatMap_nil, List.prefix_nil] at h
      subst h
      exact ⟨0, by simp, Or.inl rfl⟩
  | cons l ls ih =>
      rw [List.flatMap_cons] at h
      rcases prefix_framed_append hn l [] d h with ⟨cs', rfl, hcs'⟩ | ⟨hfold, hpre⟩
      · rw [List.foldl_append, foldl_feed_framed hn, List.nil_append]
        obtain ⟨k, hdone, hacc⟩ := ih (d ++ [l]) hcs'
        exact ⟨k + 1, by rw [hdone]; simp, by simpa using hacc⟩
      · rw [hfold]
        exact ⟨0, by simp, Or.inr ⟨l, rfl, by simpa using hpre⟩⟩

/-- **Initial parts of a closed stream.**  The messages closed are the first ones sent, in
order, and the accumulator is an initial part of the next one. -/
theorem reassemble_framed_prefix (hn : 0 < n) {ls cs : List (List α)}
    (h : cs <+: ls.flatMap (framed n)) :
    ∃ k, (reassemble n cs).done = ls.take k ∧
      ((reassemble n cs).acc = [] ∨ ∃ l, ls[k]? = some l ∧ (reassemble n cs).acc <+: l) := by
  rw [reassemble]
  simpa only [List.nil_append] using foldl_feed_framed_prefix hn [] h

/-- A chunk of a closed stream fits: with what is accumulated it is part of a message. -/
theorem feed_fits (hn : 0 < n) {ls cs : List (List α)} {c : List α} {b : ℕ}
    (h : cs ++ [c] <+: ls.flatMap (framed n)) (hb : ∀ l ∈ ls, l.length ≤ b) :
    (reassemble n cs).acc.length + c.length ≤ b := by
  obtain ⟨k, hdone, hacc⟩ := reassemble_framed_prefix hn h
  rw [reassemble_concat] at hdone hacc
  by_cases hlt : c.length < n
  · rw [feed_of_lt hlt] at hdone
    have hmem : (reassemble n cs).acc ++ c ∈ ls :=
      List.mem_of_mem_take (i := k) (by rw [← hdone]; simp)
    simpa using hb _ hmem
  · rw [feed_of_le (by omega)] at hacc
    rcases hacc with hnil | ⟨l, hl, hpre⟩
    · have hlen := congrArg List.length hnil
      rw [List.length_append, List.length_nil] at hlen
      omega
    · have hle := hpre.length_le
      rw [List.length_append] at hle
      exact hle.trans (hb l (List.mem_of_getElem? hl))

/-! ### Answers of a requested length -/

/-- A sender that is asked for at most `w` cells and has `l` of them closes the splitting only
when the asking side cannot tell from the count that it is complete. -/
def requested (n w : ℕ) (l : List α) : List (List α) :=
  chunks n l ++ if l.length % n = 0 ∧ n ≤ l.length ∧ l.length < w then [[]] else []

/-- The side that asked for `w` cells: it stops at a chunk shorter than `n`, and when it has them
all. What is left over is given back. -/
def collect (n : ℕ) : ℕ → List (List α) → List α × List (List α)
  | _, [] => ([], [])
  | w, c :: cs =>
      if c.length < n ∨ w ≤ c.length then (c, cs)
      else (c ++ (collect n (w - c.length) cs).1, (collect n (w - c.length) cs).2)

lemma collect_of_last {w : ℕ} {c : List α} (cs : List (List α)) (h : c.length < n ∨ w ≤ c.length) :
    collect n w (c :: cs) = (c, cs) := if_pos h

lemma collect_of_whole {w : ℕ} {c : List α} (cs : List (List α)) (hc : n ≤ c.length)
    (hw : c.length < w) :
    collect n w (c :: cs) =
      (c ++ (collect n (w - c.length) cs).1, (collect n (w - c.length) cs).2) :=
  if_neg (by omega)

/-- A message that fits into one chunk and fills neither the chunk nor the request. -/
lemma requested_of_lt {w : ℕ} {l : List α} (hl : l ≠ []) (h : l.length < n) :
    requested n w l = [l] := by
  have hpos : 0 < l.length := List.length_pos_iff.mpr hl
  rw [requested, chunks_of_ne_nil (by omega) hl, List.take_of_length_le h.le,
    List.drop_of_length_le h.le, chunks_nil (by omega), if_neg, List.append_nil]
  omega

/-- A message of one whole chunk. -/
lemma requested_of_eq {w : ℕ} {l : List α} (hn : 0 < n) (h : l.length = n) :
    requested n w l = l :: if n < w then [[]] else [] := by
  have hl : l ≠ [] := List.length_pos_iff.mp (by omega)
  rw [requested, chunks_of_ne_nil hn hl, List.take_of_length_le h.le,
    List.drop_of_length_le h.le, chunks_nil hn, h, Nat.mod_self, List.singleton_append]
  simp

/-- The recursion of `requested`: the first `n` cells, then the rest of the request. -/
lemma requested_of_gt {w : ℕ} {l : List α} (hn : 0 < n) (h : n < l.length) :
    requested n w l = l.take n :: requested n (w - n) (l.drop n) := by
  have hl : l ≠ [] := List.length_pos_iff.mp (by omega)
  rw [requested, requested, chunks_of_ne_nil hn hl, List.length_drop, List.cons_append,
    Nat.mod_eq_sub_mod h.le]
  congr 3
  refine propext (and_congr_right fun hmod => ?_)
  have hle : n ≤ l.length - n := Nat.le_of_dvd (by omega) (Nat.dvd_of_mod_eq_zero hmod)
  omega

/-- **The side that asked reads exactly the message**, and nothing of what follows it. -/
theorem collect_requested (hn : 0 < n) {w : ℕ} {l : List α} (hl : l ≠ []) (hw : l.length ≤ w)
    (rest : List (List α)) : collect n w (requested n w l ++ rest) = (l, rest) := by
  induction hk : l.length using Nat.strong_induction_on generalizing l w with
  | _ k ih =>
    rcases Nat.lt_trichotomy l.length n with hlt | heq | hgt
    · rw [requested_of_lt hl hlt]
      exact collect_of_last rest (Or.inl hlt)
    · rw [requested_of_eq hn heq]
      split_ifs with hnw
      · rw [List.cons_append, collect_of_whole _ heq.ge (by omega), List.singleton_append,
          collect_of_last rest (Or.inl (by simpa using hn)), List.append_nil]
      · exact collect_of_last rest (Or.inr (by omega))
    · have htake : (l.take n).length = n := by rw [List.length_take]; omega
      have hdrop : (l.drop n).length = l.length - n := List.length_drop
      have hrest : collect n (w - n) (requested n (w - n) (l.drop n) ++ rest) = (l.drop n, rest) :=
        ih (l.drop n).length (by omega) (List.length_pos_iff.mp (by omega)) (by omega) rfl
      rw [requested_of_gt hn hgt, List.cons_append, collect_of_whole _ htake.ge (by omega), htake,
        hrest, List.take_append_drop]

end Framing
