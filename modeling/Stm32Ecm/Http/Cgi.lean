import Mathlib.Data.List.Forall2
import Mathlib.Data.List.GetD
import Stm32Ecm.Library.CString

/-!
The CGI handler of `main.c` behind the splitting of the parameter string in `httpd.c`.

* `nextPair`, `cutAtEquals`, `extractLoop`, `extractUriParameters`: the splitting, in place, of the
  bytes behind the `?`;
* `ctlCgiHandler`, `httpFindFile`: the handler of `/ctl.cgi`, which reads the first byte of the
  values, and the request that leads to it; `none` if a value is read that is `NULL`;
* `uriParameters`: the parameters of a string, as lists of bytes; `Denotes` relates them to the
  pointers and the final buffer (`extractLoop_spec`);
* `flagAfter`: a flag is set by the last parameter of its name; `ctl_cgi_iff` says when this is
  what the handler does.
-/

namespace Stm32Ecm.Http

open CString

/-! ### Splitting in place -/

/-- `LWIP_HTTPD_MAX_CGI_PARAMETERS`. -/
def lwipHttpdMaxCgiParameters : ℕ := 16

/-- The next pair: `&` is replaced by a zero byte.  Without one, so is the first space. -/
def nextPair (buf : List UInt8) (pair : ℕ) : List UInt8 × Option ℕ :=
  match strchr buf pair 38 with
  | some q => (buf.set q 0, some (q + 1))
  | none =>
      match strchr buf pair 32 with
      | some q => (buf.set q 0, none)
      | none => (buf, none)

/-- The value of a pair: `=` is replaced by a zero byte.  Without one, the value is `NULL`. -/
def cutAtEquals (buf : List UInt8) (equals : ℕ) : List UInt8 × Option ℕ :=
  match strchr buf equals 61 with
  | some q => (buf.set q 0, some (q + 1))
  | none => (buf, none)

/-- The loop of `extract_uri_parameters`: `params` and `param_vals` side by side, and the buffer. -/
def extractLoop : ℕ → List UInt8 → Option ℕ → List (ℕ × Option ℕ) × List UInt8
  | 0, buf, _ => ([], buf)
  | _ + 1, buf, none => ([], buf)
  | n + 1, buf, some pair =>
      let next := nextPair buf pair
      let cut := cutAtEquals next.1 pair
      let rest := extractLoop n cut.1 next.2
      ((pair, cut.2) :: rest.1, rest.2)

/-- `extract_uri_parameters`. -/
def extractUriParameters (buf : List UInt8) (params : Option ℕ) :
    List (ℕ × Option ℕ) × List UInt8 :=
  match params with
  | none => ([], buf)
  | some p =>
      if buf.getD p 0 = 0 then ([], buf) else extractLoop lwipHttpdMaxCgiParameters buf (some p)

/-! ### The handler -/

/-- `alpha`, `bravo` and `charlie`. -/
structure Flags where
  alpha : Bool
  bravo : Bool
  charlie : Bool
  deriving DecidableEq, Repr

/-- `*values[i] == '1'`. -/
def valueIsOne (buf : List UInt8) (value : Option ℕ) : Option Bool :=
  value.map fun v => buf.getD v 0 == 49

/-- `if (strcmp(params[i], name) == 0) flag = *values[i] == '1'`. -/
def assignIf (buf : List UInt8) (param : ℕ × Option ℕ) (name : List UInt8)
    (assign : Bool → Flags → Flags) (f : Flags) : Option Flags :=
  if stringAt buf param.1 = name then (valueIsOne buf param.2).map fun b => assign b f else some f

/-- One round of `ctl_cgi_handler`: the names are `a`, `b` and `c`. -/
def ctlParam (buf : List UInt8) (f : Flags) (param : ℕ × Option ℕ) : Option Flags :=
  (assignIf buf param [97] (fun b f => { f with alpha := b }) f).bind fun f =>
    (assignIf buf param [98] (fun b f => { f with bravo := b }) f).bind fun f =>
      assignIf buf param [99] (fun b f => { f with charlie := b }) f

/-- `ctl_cgi_handler`. -/
def ctlCgiHandler (buf : List UInt8) : List (ℕ × Option ℕ) → Flags → Option Flags
  | [], f => some f
  | param :: params, f => (ctlParam buf f param).bind fun f => ctlCgiHandler buf params f

/-- `/ctl.cgi`. -/
def ctlCgi : List UInt8 := [47, 99, 116, 108, 46, 99, 103, 105]

/-- `http_find_file`, for the URI in the buffer: the parameters begin behind the first `?`, and the
handler of `/ctl.cgi` is the only one that changes the flags. -/
def httpFindFile (buf : List UInt8) (f : Flags) : Option Flags :=
  let uri : List UInt8 × Option ℕ :=
    match strchr buf 0 63 with
    | some q => (buf.set q 0, some (q + 1))
    | none => (buf, none)
  if stringAt uri.1 0 = ctlCgi then
    let out := extractUriParameters uri.1 uri.2
    ctlCgiHandler out.2 out.1 f
  else some f

/-! ### The parameters of a string -/

/-- The name and the value of a parameter: what stands before and behind the first `=`. -/
def splitParam (x : List UInt8) : List UInt8 × Option (List UInt8) :=
  (x.takeWhile (· ≠ 61), if 61 ∈ x then some (x.dropWhile (· ≠ 61)).tail else none)

/-- The last one ends at a space. -/
def trimLast : List (List UInt8) → List (List UInt8)
  | [] => []
  | [x] => [x.takeWhile (· ≠ 32)]
  | x :: y :: xs => x :: trimLast (y :: xs)

/-- **The parameters** of a string: what stands between the `&`s, the last one up to a space, and
no more than `LWIP_HTTPD_MAX_CGI_PARAMETERS`. -/
def uriParameters (s : List UInt8) : List (List UInt8 × Option (List UInt8)) :=
  if s = [] then []
  else ((trimLast (s.splitOn 38)).take lwipHttpdMaxCgiParameters).map splitParam

/-- The pointers lead to the name and the value. -/
def Denotes (buf : List UInt8) (p : ℕ × Option ℕ) (q : List UInt8 × Option (List UInt8)) : Prop :=
  stringAt buf p.1 = q.1 ∧ p.2.map (stringAt buf) = q.2

section Splitting

variable {pre x w s rest : List UInt8} {n : ℕ}

lemma splitParam_split {k v : List UInt8} (hk : 61 ∉ k) :
    splitParam (k ++ 61 :: v) = (k, some v) := by
  rw [splitParam, takeWhile_ne_append_cons, takeWhile_ne_of_not_mem hk,
    List.dropWhile_append_of_pos (forall_ne_of_not_mem hk)]
  simp

lemma splitParam_of_not_mem (hx : 61 ∉ x) : splitParam x = (x, none) := by
  rw [splitParam, takeWhile_ne_of_not_mem hx, if_neg hx]

/-- The second half of a round.  What it denotes does not depend on what is behind. -/
lemma cutAtEquals_spec (hx : 0 ∉ x) :
    ∃ y v, cutAtEquals (pre ++ (x ++ 0 :: w)) pre.length = (pre ++ (y ++ 0 :: w), v) ∧
      y.length = x.length ∧
      ∀ w', Denotes (pre ++ (y ++ 0 :: w')) (pre.length, v) (splitParam x) := by
  by_cases heq : 61 ∈ x
  · obtain ⟨k, v, rfl, hk⟩ := List.eq_append_cons_of_mem heq
    simp only [List.mem_append, List.mem_cons, not_or] at hx
    obtain ⟨hk0, -, hv0⟩ := hx
    refine ⟨k ++ 0 :: v, some (pre.length + k.length + 1), ?_, by simp, fun w' => ⟨?_, ?_⟩⟩
    · rw [cutAtEquals, List.append_assoc, List.cons_append, strchr_split hk hk0]
      simp only
      rw [set_split, List.append_assoc, List.cons_append]
    · rw [splitParam_split hk, List.append_assoc, List.cons_append]
      exact stringAt_split hk0
    · have hvalue : stringAt (pre ++ (k ++ [0]) ++ (v ++ 0 :: w')) (pre ++ (k ++ [0])).length = v :=
        stringAt_split hv0
      rw [splitParam_split hk]
      simpa [Nat.add_assoc] using hvalue
  · refine ⟨x, none, ?_, rfl, fun w' => ⟨?_, ?_⟩⟩
    · rw [cutAtEquals, strchr_eq_none heq hx (by decide)]
    · rw [splitParam_of_not_mem heq]
      exact stringAt_split hx
    · rw [splitParam_of_not_mem heq]
      rfl

lemma extractLoop_none {buf : List UInt8} : extractLoop n buf none = ([], buf) := by
  cases n <;> rfl

/-- The first half of a round, behind which another pair follows. -/
lemma nextPair_split {z : List UInt8} (hx : 38 ∉ x) (hx0 : 0 ∉ x) :
    nextPair (pre ++ (x ++ 38 :: z)) pre.length =
      (pre ++ (x ++ 0 :: z), some (pre.length + x.length + 1)) := by
  rw [nextPair, strchr_split hx hx0]
  simp only
  rw [set_split]

/-- The first half of the last round. -/
lemma nextPair_last (hs : 38 ∉ s) (hs0 : 0 ∉ s) :
    ∃ w, nextPair (pre ++ (s ++ 0 :: rest)) pre.length =
      (pre ++ (s.takeWhile (· ≠ 32) ++ 0 :: w), none) := by
  by_cases hspace : 32 ∈ s
  · obtain ⟨x, z, rfl, hx⟩ := List.eq_append_cons_of_mem hspace
    have hx0 : 0 ∉ x := fun hmem => hs0 (List.mem_append_left _ hmem)
    refine ⟨z ++ 0 :: rest, ?_⟩
    rw [takeWhile_ne_append_cons, takeWhile_ne_of_not_mem hx, nextPair,
      strchr_eq_none hs hs0 (by decide), List.append_assoc, List.cons_append, strchr_split hx hx0]
    simp only
    rw [set_split]
  · refine ⟨rest, ?_⟩
    rw [takeWhile_ne_of_not_mem hspace, nextPair, strchr_eq_none hs hs0 (by decide)]
    simp only
    rw [strchr_eq_none hspace hs0 (by decide)]

lemma trimLast_cons {xs : List (List UInt8)} (hxs : xs ≠ []) :
    trimLast (x :: xs) = x :: trimLast xs := by
  cases xs with
  | nil => exact absurd rfl hxs
  | cons y xs => rfl

/-- **The splitting**: what is before the string stays, and the pointers lead to the parameters. -/
lemma extractLoop_spec (hs : 0 ∉ s) :
    ∃ t, (extractLoop n (pre ++ (s ++ 0 :: rest)) (some pre.length)).2 = pre ++ t ∧
      List.Forall₂ (Denotes (pre ++ t))
        (extractLoop n (pre ++ (s ++ 0 :: rest)) (some pre.length)).1
        (((trimLast (s.splitOn 38)).take n).map splitParam) := by
  induction n generalizing s pre with
  | zero => exact ⟨s ++ 0 :: rest, rfl, List.Forall₂.nil⟩
  | succ n ih =>
      by_cases hamp : 38 ∈ s
      · obtain ⟨x, z, rfl, hx⟩ := List.eq_append_cons_of_mem hamp
        simp only [List.mem_append, List.mem_cons, not_or] at hs
        obtain ⟨hx0, -, hz0⟩ := hs
        obtain ⟨y, v, hcut, hlen, hdenotes⟩ := @cutAtEquals_spec pre x (z ++ 0 :: rest) hx0
        obtain ⟨t, hfinal, hrest⟩ := @ih (pre ++ (y ++ [0])) z hz0
        have hptr : pre.length + x.length + 1 = (pre ++ (y ++ [0])).length := by
          simp only [List.length_append, List.length_singleton]
          omega
        have hbuf : pre ++ (y ++ 0 :: (z ++ 0 :: rest)) =
            pre ++ (y ++ [0]) ++ (z ++ 0 :: rest) := by simp
        have ht : pre ++ (y ++ [0]) ++ t = pre ++ (y ++ 0 :: t) := by simp
        rw [ht] at hfinal hrest
        rw [List.append_assoc, List.cons_append, extractLoop, nextPair_split hx hx0]
        simp only [hcut, hptr, hbuf]
        refine ⟨y ++ 0 :: t, hfinal, ?_⟩
        rw [List.splitOn_append_cons_self_of_not_mem hx, trimLast_cons (List.splitOn_ne_nil _ _),
          List.take_succ_cons, List.map_cons]
        exact List.Forall₂.cons (hdenotes t) hrest
      · obtain ⟨w, hnext⟩ := @nextPair_last pre s rest hamp hs
        have hx0 : 0 ∉ s.takeWhile (· ≠ 32) := fun hmem =>
          hs ((List.takeWhile_prefix _).subset hmem)
        obtain ⟨y, v, hcut, -, hdenotes⟩ := @cutAtEquals_spec pre (s.takeWhile (· ≠ 32)) w hx0
        rw [extractLoop, hnext]
        simp only [hcut, extractLoop_none]
        refine ⟨y ++ 0 :: w, rfl, ?_⟩
        rw [List.splitOn_eq_singleton hamp, trimLast, List.take_succ_cons, List.take_nil,
          List.map_singleton]
        exact List.Forall₂.cons (hdenotes w) List.Forall₂.nil

end Splitting

/-! ### What the flags should be -/

/-- The value begins with `1`. -/
def beginsWithOne (value : Option (List UInt8)) : Bool := value.bind List.head? == some 49

/-- **A flag** after the parameters: the last parameter of its name decides, if there is one. -/
def flagAfter (name : List UInt8) (params : List (List UInt8 × Option (List UInt8)))
    (before : Bool) : Bool :=
  match (params.filter fun q => q.1 = name).getLast? with
  | none => before
  | some q => beginsWithOne q.2

/-- The flags after the parameters. -/
def Flags.after (f : Flags) (params : List (List UInt8 × Option (List UInt8))) : Flags where
  alpha := flagAfter [97] params f.alpha
  bravo := flagAfter [98] params f.bravo
  charlie := flagAfter [99] params f.charlie

/-- A parameter whose value the handler reads has none. -/
def NoValue (q : List UInt8 × Option (List UInt8)) : Prop :=
  (q.1 = [97] ∨ q.1 = [98] ∨ q.1 = [99]) ∧ q.2 = none

section Handler

variable {buf : List UInt8} {p : ℕ × Option ℕ} {q : List UInt8 × Option (List UInt8)}
  {ps : List (ℕ × Option ℕ)} {qs : List (List UInt8 × Option (List UInt8))} {f : Flags}
  {name : List UInt8} {before : Bool}

lemma flagAfter_cons : flagAfter name (q :: qs) before =
    flagAfter name qs (if q.1 = name then beginsWithOne q.2 else before) := by
  rw [flagAfter, flagAfter, List.filter_cons]
  by_cases hq : q.1 = name
  · simp only [hq, decide_true, if_true]
    cases hlast : (qs.filter fun q => q.1 = name).getLast? with
    | none =>
        rw [List.getLast?_eq_none_iff.mp hlast]
        rfl
    | some r =>
        rw [List.getLast?_cons, hlast]
        rfl
  · simp [hq]

lemma getD_beq_one {v : ℕ} : (buf.getD v 0 == 49) = ((stringAt buf v).head? == some 49) := by
  rw [stringAt, List.getD_eq_getElem?_getD, ← List.head?_drop]
  cases buf.drop v with
  | nil => rfl
  | cons b bs =>
      by_cases hb : b = 0
      · simp [hb]
      · simp [hb]

lemma Denotes.valueIsOne_eq (h : Denotes buf p q) :
    valueIsOne buf p.2 = if q.2 = none then none else some (beginsWithOne q.2) := by
  rw [← h.2, valueIsOne]
  cases hv : p.2 with
  | none => rfl
  | some v =>
      simp only [Option.map_some, getD_beq_one]
      rfl

lemma Denotes.assignIf_eq (h : Denotes buf p q) {assign : Bool → Flags → Flags} :
    assignIf buf p name assign f =
      if q.1 = name then if q.2 = none then none else some (assign (beginsWithOne q.2) f)
      else some f := by
  rw [assignIf, h.1, h.valueIsOne_eq]
  split_ifs <;> rfl

lemma Flags.after_cons : f.after (q :: qs) = (f.after [q]).after qs := by
  simp only [Flags.after, flagAfter_cons]
  rfl

/-- **One parameter**: the handler reads its value, or goes on. -/
lemma Denotes.ctlParam_eq (h : Denotes buf p q) :
    (NoValue q → ctlParam buf f p = none) ∧
      (¬ NoValue q → ctlParam buf f p = some (f.after [q])) := by
  have hafter : f.after [q] = ⟨if q.1 = [97] then beginsWithOne q.2 else f.alpha,
      if q.1 = [98] then beginsWithOne q.2 else f.bravo,
      if q.1 = [99] then beginsWithOne q.2 else f.charlie⟩ := by
    simp only [Flags.after, flagAfter_cons]
    rfl
  rw [ctlParam, hafter, NoValue]
  simp only [h.assignIf_eq]
  by_cases ha : q.1 = [97]
  · by_cases hv : q.2 = none <;> simp [ha, hv]
  · by_cases hb : q.1 = [98]
    · by_cases hv : q.2 = none <;> simp [hb, hv]
    · by_cases hc : q.1 = [99]
      · by_cases hv : q.2 = none <;> simp [hc, hv]
      · simp [ha, hb, hc]

/-- **The handler**, on parameters that the pointers denote. -/
lemma ctlCgiHandler_eq (h : List.Forall₂ (Denotes buf) ps qs) :
    ((∃ q ∈ qs, NoValue q) → ctlCgiHandler buf ps f = none) ∧
      ((∀ q ∈ qs, ¬ NoValue q) → ctlCgiHandler buf ps f = some (f.after qs)) := by
  induction h generalizing f with
  | nil =>
      refine ⟨?_, fun _ => rfl⟩
      rintro ⟨q, hq, -⟩
      cases hq
  | @cons p q ps qs hpq _ ih =>
      rw [ctlCgiHandler]
      constructor
      · rintro ⟨r, hr, hno⟩
        by_cases hq : NoValue q
        · rw [hpq.ctlParam_eq.1 hq, Option.bind_none]
        · have hr' : r ∈ qs := by
            rcases List.mem_cons.mp hr with rfl | hr
            · exact absurd hno hq
            · exact hr
          rw [hpq.ctlParam_eq.2 hq, Option.bind_some]
          exact ih.1 ⟨r, hr', hno⟩
      · intro hall
        have hafter : f.after (q :: qs) = (f.after [q]).after qs := Flags.after_cons
        rw [hpq.ctlParam_eq.2 (hall q List.mem_cons_self), Option.bind_some, hafter]
        exact ih.2 fun r hr => hall r (List.mem_cons_of_mem q hr)

/-- The parameters of a request, in the buffer that `http_find_file` leaves. -/
lemma extractUriParameters_spec {pre s rest : List UInt8} (hs : 0 ∉ s) :
    List.Forall₂ (Denotes (extractUriParameters (pre ++ (s ++ 0 :: rest)) (some pre.length)).2)
      (extractUriParameters (pre ++ (s ++ 0 :: rest)) (some pre.length)).1 (uriParameters s) := by
  have hfirst : (pre ++ (s ++ 0 :: rest)).getD pre.length 0 = 0 ↔ s = [] := by
    rw [List.getD_append_right _ _ _ _ (Nat.le_refl _), Nat.sub_self]
    cases s with
    | nil => simp
    | cons b s =>
        simp only [List.mem_cons, not_or] at hs
        simpa using Ne.symm hs.1
  rw [extractUriParameters, uriParameters]
  simp only [hfirst]
  split_ifs with hnil
  · exact List.Forall₂.nil
  · obtain ⟨t, hbuf, hdenotes⟩ := @extractLoop_spec pre s rest lwipHttpdMaxCgiParameters hs
    rw [hbuf]
    exact hdenotes

end Handler

/-- A request for `/ctl.cgi` with parameters comes to the handler. -/
lemma httpFindFile_ctlCgi {w : List UInt8} {f : Flags} :
    httpFindFile (ctlCgi ++ 63 :: w) f =
      ctlCgiHandler (extractUriParameters (ctlCgi ++ [0] ++ w) (some (ctlCgi ++ [0]).length)).2
        (extractUriParameters (ctlCgi ++ [0] ++ w) (some (ctlCgi ++ [0]).length)).1 f := by
  have hmark : 63 ∉ ctlCgi ∧ 0 ∉ ctlCgi := by decide
  have hfind : strchr (ctlCgi ++ 63 :: w) 0 63 = some ctlCgi.length :=
    @strchr_split [] ctlCgi w 63 hmark.1 hmark.2
  have hset : (ctlCgi ++ 63 :: w).set ctlCgi.length 0 = ctlCgi ++ 0 :: w :=
    @set_split [] ctlCgi w 63 0
  have hbase : stringAt (ctlCgi ++ 0 :: w) 0 = ctlCgi := @stringAt_split [] ctlCgi w hmark.2
  have hparams : ctlCgi ++ [0] ++ w = ctlCgi ++ 0 :: w ∧
      (ctlCgi ++ [0]).length = ctlCgi.length + 1 := ⟨by simp, by simp⟩
  rw [httpFindFile, hfind, hparams.1, hparams.2]
  simp only [hset, hbase, if_true]

/-- **The control request.**  For every parameter string of a request for `/ctl.cgi`, whatever is
behind it in the buffer: the handler reads no value that is `NULL`, and each flag is as the last
parameter of its name says, if and only if no parameter named `a`, `b` or `c` is without `=`. -/
theorem ctl_cgi_iff (s rest : List UInt8) (f : Flags) (hs : 0 ∉ s) :
    httpFindFile (ctlCgi ++ 63 :: (s ++ 0 :: rest)) f = some (f.after (uriParameters s)) ↔
      ∀ q ∈ uriParameters s, q.1 = [97] ∨ q.1 = [98] ∨ q.1 = [99] → q.2 ≠ none := by
  obtain ⟨hnull, hflags⟩ := @ctlCgiHandler_eq _ _ _ f
    (@extractUriParameters_spec (ctlCgi ++ [0]) s rest hs)
  rw [httpFindFile_ctlCgi]
  constructor
  · intro hresult q hq hname hvalue
    rw [hnull ⟨q, hq, hname, hvalue⟩] at hresult
    cases hresult
  · intro hall
    exact hflags fun q hq hno => hall q hq hno.1 hno.2

/-- `a=1&b=0`: the first flag is set and the second one is cleared. -/
theorem ctl_cgi_iff_two_flags :
    httpFindFile (ctlCgi ++ 63 :: ([97, 61, 49, 38, 98, 61, 48] ++ 0 :: []))
      ⟨false, true, true⟩ = some ⟨true, false, true⟩ := by
  have hiff := ctl_cgi_iff [97, 61, 49, 38, 98, 61, 48] [] ⟨false, true, true⟩ (by decide)
  exact hiff.mpr (by decide)

/-- `a` without a value: the handler reads `*values[0]`, which is `NULL`. -/
theorem ctl_cgi_null_value :
    uriParameters [97] = [([97], none)] ∧
      httpFindFile (ctlCgi ++ 63 :: ([97] ++ 0 :: [])) ⟨false, false, false⟩ = none := by
  decide +kernel

end Stm32Ecm.Http
