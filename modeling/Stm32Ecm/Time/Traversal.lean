import Stm32Ecm.Time.Pass

/-!
One pass of `stmr` while the procs change the list.

* `PassExact`: the pass ends, calls each proc at most once, none of a timer that was freed or
  stopped before in the pass, and the procs of all timers that were due at its start and were not
  freed or stopped before their turn;
* `Walk`: the timers still to be visited are a final part of the list, and `tmr` is the first of
  them;
* `Tally`: what the log says of the timers visited and of those still to be visited;
* `Allowed`: what the procs may do.  All operations on all timers keep both invariants, with one
  exception: `stmr_free` of the timer that `tmr` was advanced to before the proc was called clears
  its link, and the walk is cut off (`freed_next_still_called`);
* `pass_exact_of_next_kept`: without that the pass is exact.
-/

namespace Stm32Ecm.Time

open LinkedList Transition

variable {α : Type}

/-! ### What a pass should do -/

/-- The procs called. -/
def calls (log : List (Obs α)) : List α :=
  log.filterMap fun
    | .call x _ => some x
    | _ => none

/-- The timer was freed or stopped, and was not visited before. -/
def RemovedFirst (log : List (Obs α)) (x : α) : Prop :=
  ∃ pre o post, log = pre ++ o :: post ∧ (o = .free x ∨ o = .stop x) ∧ .visit x ∉ pre

/-- **An exact pass** over the list `l`, from `m₀` by the events `es` to `m`. -/
structure PassExact [DecidableEq α] [Fintype α] (m₀ : Machine α) (l : List α) (es : List (Event α))
    (m : Machine α) : Prop where
  /-- It ends after a round for each timer and one more: there are no others. -/
  rounds : es.count .next ≤ l.length + 1
  /-- Until then there is a next step, and `stmr_free` returns. -/
  goes_on : m.pc ≠ .idle → (step m .next).isSome ∨
    ((step m .ret).isSome ∧ ∀ x, (step m (.free x)).isSome)
  /-- No proc is called twice. -/
  once : (calls m.log).Nodup
  /-- No proc is called after its timer was freed or stopped. -/
  kept : ∀ pre x time post, m.log = pre ++ .call x time :: post →
    .free x ∉ pre ∧ .stop x ∉ pre
  /-- At the end, the timers due at the start have had their turn. -/
  all_due : m.pc = .idle → ∀ x ∈ l, (m₀.timers.tmr x).due (mtime m₀.now) = true →
    x ∈ calls m.log ∨ RemovedFirst m.log x

/-- The timer that `tmr` was advanced to before the proc was called. -/
def Pc.saved : Pc α → Option α
  | .callback _ _ tmr => tmr
  | _ => none

/-! ### The walk -/

/-- The local variable `tmr`. -/
def Pc.tmr : Pc α → Option α
  | .idle => none
  | .visit _ tmr | .callback _ _ tmr => tmr

/-- **The walk**: `left` are the timers still to be visited. -/
structure Walk (left : List α) (m : Machine α) : Prop where
  pointer : m.pc.tmr = left.head?
  linked : ∃ pre, Listed m.timers (pre ++ left)

/-- What the procs may do in a pass: they do not start timers, they add timers that are not in the
list, and they do not free the timer that comes next. -/
def Allowed (m : Machine α) : Event α → Prop
  | .pass | .run _ => False
  | .add x => ∀ l, Listed m.timers l → x ∉ l
  | .free x => m.pc.saved ≠ some x
  | _ => True

/-- The timers still to be visited after an event. -/
def leftAfter [DecidableEq α] (left : List α) : Event α → List α
  | .next => left.tail
  | .free x => left.erase x
  | _ => left

section Walk

variable {left pre : List α} {m m' : Machine α} {e : Event α} {x : α}

lemma Walk.eq_nil (h : Walk left m) (hpc : m.pc.tmr = none) : left = [] :=
  List.head?_eq_none_iff.mp (h.pointer.symm.trans hpc)

lemma Walk.eq_cons (h : Walk left m) (hpc : m.pc.tmr = some x) : ∃ left', left = x :: left' :=
  List.head?_eq_some_iff.mp (h.pointer.symm.trans hpc)

lemma Walk.nodup (h : Walk left m) : left.Nodup := by
  obtain ⟨pre, hlinked⟩ := h.linked
  exact (List.nodup_append.mp hlinked.nodup).2.1

/-- A round goes on to the link of the first timer still to be visited. -/
lemma Walk.next_eq (h : Walk (x :: left) m) : (m.timers.tmr x).next = left.head? := by
  obtain ⟨pre, hlinked⟩ := h.linked
  have hrest : Links (nextOf m.timers.tmr) (some x) (x :: left) := Links.of_append hlinked
  exact hrest.2.head?

variable [DecidableEq α]

/-- A timer taken out of the list, from behind or from before the timers still to be visited. -/
lemma erase_append_of_nodup (hnodup : (pre ++ left).Nodup) :
    ∃ pre', (pre ++ left).erase x = pre' ++ left.erase x := by
  by_cases hx : x ∈ pre
  · have hleft : x ∉ left := fun hmem => (List.nodup_append.mp hnodup).2.2 x hx x hmem rfl
    exact ⟨pre.erase x, by rw [List.erase_append_left _ hx, List.erase_of_not_mem hleft]⟩
  · exact ⟨pre, List.erase_append_right _ hx⟩

lemma head?_erase_of_ne (h : left.head? ≠ some x) :
    (left.erase x).head? = left.head? := by
  cases left with
  | nil => rfl
  | cons y left =>
      have hne : y ≠ x := fun heq => h (by rw [heq]; rfl)
      rw [List.erase_cons_tail (by simpa using hne)]
      rfl

variable [Fintype α]

/-- **One step** of the walk. -/
lemma walk_step (h : Walk left m) (he : Allowed m e) (hstep : step m e = some m') :
    Walk (leftAfter left e) m' := by
  obtain ⟨pre, hlinked⟩ := h.linked
  cases e with
  | pass => exact he.elim
  | run x => exact he.elim
  | next =>
      obtain ⟨time, ⟨hpc, rfl⟩ | ⟨t, hpc, hcases⟩⟩ := step_next hstep
      · rw [h.eq_nil (by rw [hpc]; rfl)] at hlinked ⊢
        exact ⟨rfl, pre, hlinked⟩
      · obtain ⟨left', rfl⟩ := h.eq_cons (x := t) (by rw [hpc]; rfl)
        have hlinked' : Listed m.timers (pre ++ [t] ++ left') := by simpa using hlinked
        rcases hcases with ⟨-, rfl⟩ | ⟨-, rfl⟩
        · exact ⟨h.next_eq, pre ++ [t], hlinked'⟩
        · exact ⟨h.next_eq, pre ++ [t], hlinked'⟩
  | ret =>
      obtain ⟨time, t, tmr, hpc, rfl⟩ := step_ret hstep
      have hpointer := h.pointer
      rw [hpc] at hpointer
      refine ⟨hpointer, pre, ?_⟩
      rw [Listed, setEvent, nextOf_update]
      rw [Listed, ← Function.update_eq_self t (nextOf m.timers.tmr)] at hlinked
      exact hlinked
  | tick ms =>
      cases hstep
      exact ⟨h.pointer, pre, hlinked⟩
  | stop x =>
      obtain ⟨-, rfl⟩ := step_stop hstep
      refine ⟨h.pointer, pre, ?_⟩
      rw [Listed, nextOf_stmrStop]
      exact hlinked
  | free x =>
      obtain ⟨hmay, s, hs, rfl⟩ := step_free hstep
      obtain ⟨s', hs', hlisted, -⟩ := @stmrFree_spec _ _ m.timers x _ _ hlinked
      obtain rfl : s' = s := Option.some.inj (hs'.symm.trans hs)
      obtain ⟨pre', hpre'⟩ := erase_append_of_nodup (x := x) hlinked.nodup
      rw [hpre'] at hlisted
      have hpointer := h.pointer
      refine ⟨?_, pre', hlisted⟩
      rw [leftAfter, head?_erase_of_ne]
      · exact hpointer
      · intro hhead
        rw [hhead] at hpointer
        cases hpc : m.pc with
        | idle =>
            rw [hpc] at hpointer
            cases hpointer
        | visit time tmr =>
            rw [hpc] at hmay
            cases hmay
        | callback time t tmr =>
            rw [Allowed, hpc] at he
            rw [hpc] at hpointer
            exact he hpointer
  | add x =>
      obtain ⟨-, rfl⟩ := step_add hstep
      exact ⟨h.pointer, x :: pre, listed_stmrAdd hlinked (he _ hlinked)⟩

end Walk

/-! ### The log of a pass -/

/-- The calls in the log: each of a timer that was visited, none twice, and none of a timer that was
freed or stopped before. -/
structure CallLog (log : List (Obs α)) : Prop where
  seen : ∀ x ∈ calls log, .visit x ∈ log
  once : (calls log).Nodup
  kept : ∀ pre x time post, log = pre ++ .call x time :: post → .free x ∉ pre ∧ .stop x ∉ pre

section CallLog

variable {log os : List (Obs α)} {o : Obs α} {x : α}

lemma calls_append : calls (log ++ os) = calls log ++ calls os := List.filterMap_append

lemma calls_of_ne (ho : ∀ x time, o ≠ .call x time) : calls [o] = [] := by
  cases o with
  | call x time => exact absurd rfl (ho x time)
  | _ => rfl

lemma RemovedFirst.append (h : RemovedFirst log x) : RemovedFirst (log ++ os) x := by
  obtain ⟨pre, o, post, rfl, ho, hvisit⟩ := h
  exact ⟨pre, o, post ++ os, by simp, ho, hvisit⟩

lemma removedFirst_of_mem (hmem : o ∈ log) (ho : o = .free x ∨ o = .stop x)
    (hvisit : .visit x ∉ log) : RemovedFirst log x := by
  obtain ⟨pre, post, rfl⟩ := List.append_of_mem hmem
  exact ⟨pre, o, post, rfl, ho, fun hpre => hvisit (List.mem_append_left _ hpre)⟩

/-- An observation other than a call. -/
lemma CallLog.concat (h : CallLog log) (ho : ∀ x time, o ≠ .call x time) :
    CallLog (log ++ [o]) := by
  have hcalls : calls (log ++ [o]) = calls log := by
    rw [calls_append, calls_of_ne ho, List.append_nil]
  refine ⟨fun x hx => ?_, by rw [hcalls]; exact h.once, fun pre x time post hsplit => ?_⟩
  · rw [hcalls] at hx
    exact List.mem_append_left _ (h.seen x hx)
  · rcases concat_eq_append_cons hsplit with ⟨-, -, heq⟩ | ⟨post', -, hpre⟩
    · exact absurd heq (ho x time)
    · exact h.kept pre x time post' hpre

/-- The call of a timer that was neither called nor freed nor stopped before. -/
lemma CallLog.call {time : ℕ} (h : CallLog log) (hseen : .visit x ∈ log) (hnew : x ∉ calls log)
    (hkept : .free x ∉ log ∧ .stop x ∉ log) : CallLog (log ++ [.call x time]) := by
  have hcalls : calls (log ++ [.call x time]) = calls log ++ [x] := calls_append
  refine ⟨fun y hy => ?_, ?_, fun pre y time' post hsplit => ?_⟩
  · rw [hcalls, List.mem_append, List.mem_singleton] at hy
    rcases hy with hy | rfl
    · exact List.mem_append_left _ (h.seen y hy)
    · exact List.mem_append_left _ hseen
  · rw [hcalls]
    exact List.nodup_append.mpr ⟨h.once, List.nodup_singleton x, fun y hy z hz heq =>
      hnew (List.mem_singleton.mp hz ▸ heq ▸ hy)⟩
  · rcases concat_eq_append_cons hsplit with ⟨-, rfl, heq⟩ | ⟨post', -, hpre⟩
    · obtain ⟨rfl, -⟩ := Obs.call.inj heq
      exact hkept
    · exact h.kept pre y time' post' hpre

end CallLog

/-- **The tally** of a pass over `l`, whose timers were `h₀` at its start and whose clock sample is
`time`: the timers `left` have not been visited or freed, and they are due if they were and have not
been stopped; the others, if they were due, have been called or removed. -/
structure Tally (h₀ : α → Stmr α) (time : UInt32) (l left : List α) (m : Machine α) : Prop where
  sample : ∀ t, m.pc.time = some t → t = time
  current : ∀ time t tmr, m.pc = .callback time t tmr → .visit t ∈ m.log
  unseen : ∀ x ∈ left, .visit x ∉ m.log ∧ .free x ∉ m.log
  fresh : ∀ x ∈ left, (m.timers.tmr x).due time = true ↔
    (h₀ x).due time = true ∧ .stop x ∉ m.log
  handled : ∀ x ∈ l, x ∉ left → (h₀ x).due time = true →
    x ∈ calls m.log ∨ RemovedFirst m.log x
  callLog : CallLog m.log

section Tally

variable {h₀ : α → Stmr α} {time : UInt32} {l left : List α} {m m' : Machine α} {e : Event α}
  {x y : α} {os : List (Obs α)} {left' : List α}

/-- **The tally goes on**: with the observations `os`, the timers `left'` are still to be visited,
and those that are not any more have been called or removed. -/
lemma Tally.extend (h : Tally h₀ time l left m) (hlog : m'.log = m.log ++ os)
    (hsample : ∀ t, m'.pc.time = some t → m.pc.time = some t)
    (hcurrent : ∀ time t tmr, m'.pc = .callback time t tmr → .visit t ∈ m'.log)
    (hleft : ∀ x ∈ left', x ∈ left ∧ .visit x ∉ os ∧ .free x ∉ os ∧
      ((m'.timers.tmr x).due time = true ↔ (m.timers.tmr x).due time = true ∧ .stop x ∉ os))
    (hgone : ∀ x ∈ left, x ∉ left' → (h₀ x).due time = true →
      x ∈ calls m'.log ∨ RemovedFirst m'.log x)
    (hcallLog : CallLog m'.log) : Tally h₀ time l left' m' := by
  refine ⟨fun t ht => h.sample t (hsample t ht), hcurrent, ?_, ?_, ?_, hcallLog⟩
  · intro x hx
    obtain ⟨hmem, hvisit, hfree, -⟩ := hleft x hx
    obtain ⟨hvisit', hfree'⟩ := h.unseen x hmem
    simp only [hlog, List.mem_append, not_or]
    exact ⟨⟨hvisit', hvisit⟩, hfree', hfree⟩
  · intro x hx
    obtain ⟨hmem, -, -, hdue⟩ := hleft x hx
    simp only [hlog, List.mem_append, not_or]
    rw [hdue, h.fresh x hmem, and_assoc]
  · intro x hx hx' hdue
    by_cases hmem : x ∈ left
    · exact hgone x hmem hx' hdue
    · rw [hlog, calls_append]
      rcases h.handled x hx hmem hdue with hcalled | hremoved
      · exact Or.inl (List.mem_append_left _ hcalled)
      · exact Or.inr hremoved.append

/-- A timer is as due as another one with the same data. -/
lemma SameData.due_eq {h h' : α → Stmr α} (hsame : SameData h h') (time : UInt32) (x : α) :
    (h' x).due time = (h x).due time := by
  rw [← hsame x]
  rfl

variable [DecidableEq α]

lemma due_stmrStop {s : Timers α} : ((stmrStop x s).tmr y).due time = true ↔
    (s.tmr y).due time = true ∧ y ≠ x := by
  by_cases hy : y = x
  · subst hy
    have hoff : (s.tmr y).flags &&& ~~~stmrActive &&& stmrActive = 0 := by
      rw [UInt32.and_assoc]
      exact UInt32.and_zero
    simp [stmrStop, Stmr.due, hoff]
  · simp [stmrStop, hy]

variable [Fintype α]

/-- **A round** of the pass. -/
lemma tally_next (h : Tally h₀ time l left m) (hwalk : Walk left m)
    (hstep : step m .next = some m') : Tally h₀ time l left.tail m' := by
  obtain ⟨time', ⟨hpc, rfl⟩ | ⟨t, hpc, hcases⟩⟩ := step_next hstep
  · obtain rfl := hwalk.eq_nil (by rw [hpc]; rfl)
    exact h.extend (List.append_nil _).symm (fun _ ht => by cases ht)
      (fun _ _ _ hpc' => by cases hpc') (fun x hx => by cases hx) (fun x hx => by cases hx)
      h.callLog
  · obtain ⟨left', rfl⟩ := hwalk.eq_cons (x := t) (by rw [hpc]; rfl)
    obtain rfl : time' = time := h.sample time' (by rw [hpc]; rfl)
    rw [List.tail_cons]
    have hnodup := List.nodup_cons.mp hwalk.nodup
    obtain ⟨hvisit, hfree⟩ := h.unseen t List.mem_cons_self
    have hfresh := h.fresh t List.mem_cons_self
    have hcallLog : CallLog (m.log ++ [.visit t]) := h.callLog.concat fun _ _ heq => by cases heq
    have hother : ∀ x ∈ left', x ≠ t := by
      rintro x hx rfl
      exact hnodup.1 hx
    have hthis : ∀ x ∈ t :: left', x ∉ left' → x = t := fun x hx hx' =>
      (List.mem_cons.mp hx).resolve_right hx'
    rcases hcases with ⟨hdue, rfl⟩ | ⟨hdue, rfl⟩
    · have hcalled : CallLog (m.log ++ [.visit t] ++ [.call t m.now]) := by
        refine hcallLog.call (by simp) (fun hmem => hvisit ?_) ?_
        · rw [calls_append, calls_of_ne (by simp), List.append_nil] at hmem
          exact h.callLog.seen t hmem
        · simp [hfree, (hfresh.mp hdue).2]
      rw [List.append_assoc] at hcalled
      refine h.extend rfl (fun _ ht => by rw [hpc]; exact ht) ?_ ?_ ?_ hcalled
      · intro _ _ _ hpc'
        obtain ⟨-, rfl, -⟩ := Pc.callback.inj hpc'
        simp
      · intro x hx
        have hne := hother x hx
        simp [hx, hne]
      · intro x hx hx' _
        obtain rfl := hthis x hx hx'
        exact Or.inl (by simp [calls])
    · refine h.extend rfl (fun _ ht => by rw [hpc]; exact ht) (fun _ _ _ hpc' => by cases hpc') ?_
        ?_ hcallLog
      · intro x hx
        have hne := hother x hx
        simp [hx, hne]
      · -- the timer was due at the start and is not any more, so it has been stopped
        intro x hx hx' hdue₀
        obtain rfl := hthis x hx hx'
        have hstop : .stop x ∈ m.log := by
          by_contra hstop
          rw [hfresh.mpr ⟨hdue₀, hstop⟩] at hdue
          cases hdue
        exact Or.inr (removedFirst_of_mem hstop (Or.inr rfl) hvisit).append

/-- **One step** of the pass. -/
lemma tally_step (h : Tally h₀ time l left m) (hwalk : Walk left m) (he : Allowed m e)
    (hstep : step m e = some m') : Tally h₀ time l (leftAfter left e) m' := by
  have hkeep : ∀ x ∈ left, x ∉ left → (h₀ x).due time = true →
      x ∈ calls m'.log ∨ RemovedFirst m'.log x := fun x hx hx' => absurd hx hx'
  cases e with
  | pass => exact he.elim
  | run x => exact he.elim
  | next => exact tally_next h hwalk hstep
  | ret =>
      obtain ⟨time', t, tmr, hpc, rfl⟩ := step_ret hstep
      refine h.extend rfl (fun _ ht => by rw [hpc]; exact ht) (fun _ _ _ hpc' => by cases hpc') ?_
        hkeep (h.callLog.concat fun _ _ heq => by cases heq)
      intro x hx
      have hne : x ≠ t := by
        rintro rfl
        exact (h.unseen x hx).1 (h.current time' x tmr hpc)
      exact ⟨hx, by simp, by simp, by simp [setEvent, hne]⟩
  | tick ms =>
      cases hstep
      exact h.extend (List.append_nil _).symm (fun _ ht => ht) h.current
        (fun x hx => ⟨hx, by simp, by simp, by simp⟩) hkeep h.callLog
  | stop x =>
      obtain ⟨-, rfl⟩ := step_stop hstep
      refine h.extend rfl (fun _ ht => ht) ?_ ?_ hkeep
        (h.callLog.concat fun _ _ heq => by cases heq)
      · exact fun time t tmr hpc => List.mem_append_left _ (h.current time t tmr hpc)
      · intro y hy
        refine ⟨hy, by simp, by simp, ?_⟩
        rw [due_stmrStop]
        simp
  | free x =>
      obtain ⟨-, s, hs, rfl⟩ := step_free hstep
      refine h.extend rfl (fun _ ht => ht) ?_ ?_ ?_ (h.callLog.concat fun _ _ heq => by cases heq)
      · exact fun time t tmr hpc => List.mem_append_left _ (h.current time t tmr hpc)
      · intro y hy
        obtain ⟨hne, hmem⟩ := (List.Nodup.mem_erase_iff hwalk.nodup).mp hy
        have hdue := (sameData_stmrFree hs).due_eq time y
        exact ⟨hmem, by simp, by simp [hne], by simp [hdue]⟩
      · intro y hy hy' _
        obtain rfl : y = x := by
          by_contra hne
          exact hy' ((List.Nodup.mem_erase_iff hwalk.nodup).mpr ⟨hne, hy⟩)
        exact Or.inr ⟨m.log, .free y, [], rfl, Or.inl rfl, (h.unseen y hy).1⟩
  | add x =>
      obtain ⟨-, rfl⟩ := step_add hstep
      refine h.extend (List.append_nil _).symm (fun _ ht => ht) h.current ?_ hkeep h.callLog
      intro y hy
      have hdue : ((stmrAdd x m.timers).tmr y).due time = (m.timers.tmr y).due time :=
        SameData.due_eq sameData_setNext time y
      exact ⟨hy, by simp, by simp, by simp [hdue]⟩

end Tally

/-! ### Whole passes -/

/-- The rounds that are left. -/
def roundsLeft (left : List α) : Pc α → ℕ
  | .idle => 0
  | _ => left.length + 1

section Passes

variable [DecidableEq α] [Fintype α] {h₀ : α → Stmr α} {time : UInt32} {l left : List α}
  {m m' : Machine α} {e : Event α} {es : List (Event α)}

/-- A round takes one away, and nothing adds one. -/
lemma roundsLeft_step (hwalk : Walk left m) (he : Allowed m e) (hstep : step m e = some m') :
    [e].count .next + roundsLeft (leftAfter left e) m'.pc ≤ roundsLeft left m.pc := by
  cases e with
  | pass => exact he.elim
  | run x => exact he.elim
  | next =>
      obtain ⟨time, ⟨hpc, rfl⟩ | ⟨t, hpc, hcases⟩⟩ := step_next hstep
      · rw [hpc]
        simp [roundsLeft]
      · obtain ⟨left', rfl⟩ := hwalk.eq_cons (x := t) (by rw [hpc]; rfl)
        have hone : [Event.next].count (.next : Event α) + (left'.length + 1) ≤
            (t :: left').length + 1 := by
          rw [List.count_singleton_self, List.length_cons]
          omega
        rw [hpc]
        rcases hcases with ⟨-, rfl⟩ | ⟨-, rfl⟩
        · exact hone
        · exact hone
  | ret =>
      obtain ⟨time, t, tmr, hpc, rfl⟩ := step_ret hstep
      rw [hpc]
      simp [roundsLeft, leftAfter]
  | tick ms =>
      cases hstep
      simp [leftAfter]
  | stop x =>
      obtain ⟨-, rfl⟩ := step_stop hstep
      simp [leftAfter]
  | free x =>
      obtain ⟨-, s, -, rfl⟩ := step_free hstep
      have hle : (left.erase x).length ≤ left.length := List.length_erase_le
      cases hpc : m.pc <;> simp [leftAfter, roundsLeft, hle]
  | add x =>
      obtain ⟨-, rfl⟩ := step_add hstep
      simp [leftAfter]

/-- **A whole pass**, up to any moment. -/
lemma pass_run (hwalk : Walk left m) (htally : Tally h₀ time l left m)
    (hallowed : ∀ t e, Takes step m es t e → Allowed t e) (hrun : run step m es = some m') :
    ∃ left', Walk left' m' ∧ Tally h₀ time l left' m' ∧
      es.count .next + roundsLeft left' m'.pc ≤ roundsLeft left m.pc := by
  induction es generalizing m left with
  | nil =>
      obtain rfl : m = m' := by simpa using hrun
      exact ⟨left, hwalk, htally, by simp⟩
  | cons e es ih =>
      obtain ⟨u, hu, hrest⟩ := run_cons_eq_some.mp hrun
      have he : Allowed m e := hallowed m e ((takes_cons hu).mpr (Or.inl ⟨rfl, rfl⟩))
      have hround := roundsLeft_step hwalk he hu
      obtain ⟨left', hwalk', htally', hrounds⟩ := ih (walk_step hwalk he hu)
        (tally_step htally hwalk he hu)
        (fun t x hx => hallowed t x ((takes_cons hu).mpr (Or.inr hx))) hrest
      refine ⟨left', hwalk', htally', ?_⟩
      rw [← List.singleton_append, List.count_append]
      omega

/-- The start of a pass. -/
lemma walk_pass (hlist : Listed m.timers l) (hstep : step m .pass = some m') : Walk l m' := by
  obtain ⟨-, rfl⟩ := step_pass hstep
  exact ⟨hlist.head?, [], hlist⟩

lemma tally_pass (hlog : m.log = []) (hstep : step m .pass = some m') :
    Tally m.timers.tmr (mtime m.now) l l m' := by
  obtain ⟨-, rfl⟩ := step_pass hstep
  rw [hlog]
  refine ⟨fun t ht => (Option.some.inj ht).symm, ?_, by simp, by simp,
    fun x hx hx' => absurd hx hx', ?_⟩
  · intro _ _ _ hpc
    cases hpc
  · have hnil : CallLog ([] : List (Obs α)) := ⟨by simp [calls], List.nodup_nil, by simp⟩
    exact hnil.concat fun _ _ heq => by cases heq

/-- There is a next step in a pass, and `stmr_free` returns. -/
lemma Walk.goes_on (hwalk : Walk left m) (hpc : m.pc ≠ .idle) : (step m .next).isSome ∨
    ((step m .ret).isSome ∧ ∀ x, (step m (.free x)).isSome) := by
  cases hm : m.pc with
  | idle => exact absurd hm hpc
  | visit time tmr =>
      left
      rw [step, hm]
      cases tmr with
      | none => rfl
      | some t =>
          simp only
          split_ifs <;> rfl
  | callback time t tmr =>
      right
      obtain ⟨pre, hlinked⟩ := hwalk.linked
      refine ⟨by rw [step, hm]; rfl, fun x => ?_⟩
      obtain ⟨s, hs, -⟩ := @stmrFree_spec _ _ m.timers x _ _ hlinked
      rw [step, hm, hs]
      rfl

end Passes

/-- **A pass is exact** over any list that ends, whatever the procs do by freeing, stopping and
adding timers and taking time, as long as none of them frees the timer that comes next: the one
that `tmr` was advanced to before the proc was called. -/
theorem pass_exact_of_next_kept [DecidableEq α] [Fintype α] (m₀ m : Machine α) (l : List α)
    (es : List (Event α)) (hlist : Links (fun x => (m₀.timers.tmr x).next) m₀.timers.stmrs l)
    (hlog : m₀.log = []) (hes : ∀ e ∈ es, e ≠ .pass ∧ ∀ x, e ≠ .run x)
    (hrun : run step m₀ (.pass :: es) = some m)
    (hadd : ∀ t x, Takes step m₀ (.pass :: es) t (.add x) →
      ∀ l', Links (fun x => (t.timers.tmr x).next) t.timers.stmrs l' → x ∉ l')
    (hfree : ∀ t x, Takes step m₀ (.pass :: es) t (.free x) → t.pc.saved ≠ some x) :
    PassExact m₀ l es m := by
  obtain ⟨m₁, hpass, hrest⟩ := run_cons_eq_some.mp hrun
  have hallowed : ∀ t e, Takes step m₁ es t e → Allowed t e := by
    intro t e htakes
    have htakes' := (takes_cons hpass).mpr (Or.inr htakes)
    obtain ⟨hnopass, hnorun⟩ := hes e htakes.mem
    cases e with
    | pass => exact absurd rfl hnopass
    | run x => exact absurd rfl (hnorun x)
    | add x => exact hadd t x htakes'
    | free x => exact hfree t x htakes'
    | _ => trivial
  obtain ⟨left, hwalk, htally, hrounds⟩ :=
    pass_run (walk_pass hlist hpass) (tally_pass hlog hpass) hallowed hrest
  refine ⟨?_, hwalk.goes_on, htally.callLog.once, htally.callLog.kept, ?_⟩
  · obtain ⟨-, rfl⟩ := step_pass hpass
    simp only [roundsLeft] at hrounds
    omega
  · intro hidle x hx hdue
    obtain rfl := hwalk.eq_nil (by rw [hidle]; rfl)
    exact htally.handled x hx List.not_mem_nil hdue

/-- Three active timers that are all due. -/
def threeTimers : Machine (Fin 3) where
  timers :=
    ⟨some 0, fun x => ⟨1, 0, 1, 0, 0, if x = 0 then some 1 else if x = 1 then some 2 else none⟩⟩
  now := 5
  pc := .idle
  log := []

lemma links_threeTimers :
    Links (fun x => (threeTimers.timers.tmr x).next) threeTimers.timers.stmrs [0, 1, 2] :=
  ⟨rfl, rfl, rfl, rfl⟩

/-- The proc of the first timer frees the last one. -/
theorem pass_exact_of_next_kept_free_last :
    ∃ m, run step threeTimers [.pass, .next, .free 2, .ret, .next, .ret, .next] = some m ∧
      m.log = [.pass 5, .visit 0, .call 0 5, .free 2, .set 0 5, .visit 1, .call 1 5, .set 1 5] ∧
      PassExact threeTimers [0, 1, 2] [.next, .free 2, .ret, .next, .ret, .next] m := by
  have hlog : (run step threeTimers [.pass, .next, .free 2, .ret, .next, .ret, .next]).map
      Machine.log = some [.pass 5, .visit 0, .call 0 5, .free 2, .set 0 5, .visit 1, .call 1 5,
        .set 1 5] := by decide +kernel
  obtain ⟨m, hrun, hm⟩ := Option.map_eq_some_iff.mp hlog
  refine ⟨m, hrun, hm, pass_exact_of_next_kept threeTimers m [0, 1, 2] _ links_threeTimers rfl ?_
    hrun ?_ ?_⟩
  · simp
  · intro t x htakes
    exact absurd htakes.mem (by simp)
  · rintro t x ⟨pre, post, hsplit, ht, -⟩
    -- the only timer is freed in the proc of the first one, with `tmr` at the second
    obtain ⟨rfl, rfl⟩ : pre = [.pass, .next] ∧ x = 2 := by
      rcases pre with _ | ⟨a, _ | ⟨b, _ | ⟨c, _ | ⟨d, _ | ⟨e, _ | ⟨f, _ | ⟨g, pre⟩⟩⟩⟩⟩⟩⟩ <;>
        simp at hsplit
      simp [hsplit]
    have hsaved : (run step threeTimers [.pass, .next]).map (fun m => m.pc.saved) =
        some (some 1) := by decide +kernel
    rw [ht, Option.map_some, Option.some.injEq] at hsaved
    rw [hsaved]
    decide

/-- The proc of the first timer frees the second one: its proc is still called, and the third timer,
which is due, has no turn. -/
theorem freed_next_still_called :
    ∃ m, run step threeTimers [.pass, .next, .free 1, .ret, .next, .ret, .next] = some m ∧
      m.pc = .idle ∧ calls m.log = [0, 1] ∧
      ¬ PassExact threeTimers [0, 1, 2] [.next, .free 1, .ret, .next, .ret, .next] m := by
  have hend : (run step threeTimers [.pass, .next, .free 1, .ret, .next, .ret, .next]).map
      (fun m => (m.pc, m.log)) = some (.idle, [.pass 5, .visit 0, .call 0 5, .free 1, .set 0 5,
        .visit 1] ++ .call 1 5 :: [.set 1 5]) := by decide +kernel
  obtain ⟨m, hrun, hm⟩ := Option.map_eq_some_iff.mp hend
  obtain ⟨hpc, hlog⟩ := Prod.mk.inj hm
  refine ⟨m, hrun, hpc, by rw [hlog]; decide, fun hexact => ?_⟩
  exact (hexact.kept _ _ _ _ hlog).1 (by decide)

end Stm32Ecm.Time
