import Mathlib.Algebra.Group.Nat.Defs
import Stm32Ecm.Time.Timer

/-!
Passes of `stmr` over the timer list, with callbacks.

* `Pc`, `Machine`, `Event`, `step`: `stmr` as a machine that stops at the head of its loop and
  inside each timer proc.  There, and between two passes, the operations on timers can be called;
  real time, in ms, passes at any moment, and `mtime` is its value modulo 2^32;
* `Obs`: what can be observed of a run: passes, timers visited, procs called, events set, timers
  stopped and freed, with the real time where it matters;
* `ClockInv`: the event of a timer is the time it was last set, and the clock sample of a pass the
  time it began;
* `NeverEarly`: a proc is called a period after the event of its timer was set.  A pass samples the
  clock once, so that this fails for a timer whose event is set after the sample (`VisitsLate`);
  `timers_not_early` says that nothing else can go wrong.
-/

namespace Stm32Ecm.Time

open LinkedList Transition

/-! ### The machine -/

/-- `mtime`: the real time `now`, in a 32-bit counter. -/
def mtime (now : ℕ) : UInt32 := UInt32.ofNat now

/-- Where `stmr` stands. -/
inductive Pc (α : Type) where
  /-- Not in it. -/
  | idle
  /-- At the head of the loop, with the clock sample and `tmr`. -/
  | visit (time : UInt32) (tmr : Option α)
  /-- Inside the proc of `t`, with the clock sample and `tmr`. -/
  | callback (time : UInt32) (t : α) (tmr : Option α)
  deriving DecidableEq, Repr

/-- What can be observed. -/
inductive Obs (α : Type) where
  /-- A pass began. -/
  | pass (time : ℕ)
  /-- The pass looked at a timer. -/
  | visit (x : α)
  /-- The proc of a timer was called. -/
  | call (x : α) (time : ℕ)
  /-- The event of a timer was set, by `stmr_run` or after its proc. -/
  | set (x : α) (time : ℕ)
  /-- `stmr_stop` was called. -/
  | stop (x : α)
  /-- `stmr_free` was called. -/
  | free (x : α)
  deriving DecidableEq, Repr

/-- The timers, the real time and `stmr`. -/
structure Machine (α : Type) where
  timers : Timers α
  now : ℕ
  pc : Pc α
  log : List (Obs α)

/-- The steps of `stmr`, the passing of time and the operations. -/
inductive Event (α : Type) where
  /-- `stmr` is called. -/
  | pass
  /-- One round of its loop, up to the call of a proc. -/
  | next
  /-- The proc returns. -/
  | ret
  /-- Some milliseconds pass. -/
  | tick (ms : ℕ)
  | run (x : α)
  | stop (x : α)
  | free (x : α)
  | add (x : α)
  deriving DecidableEq, Repr

/-- The operations are called between two passes and from the procs. -/
def Pc.mayCall {α : Type} : Pc α → Bool
  | .visit _ _ => false
  | _ => true

/-- The timer is active, and its period has elapsed at the clock sample `time`. -/
def Stmr.due {α : Type} (time : UInt32) (t : Stmr α) : Bool :=
  t.flags &&& stmrActive ≠ 0 ∧ ¬ time - t.event < t.period

variable {α : Type} [DecidableEq α]

/-- `t->event = mtime()`. -/
def setEvent (time : UInt32) (x : α) (s : Timers α) : Timers α :=
  { s with tmr := Function.update s.tmr x { s.tmr x with event := time } }

/-- One step, `none` when the event is not possible or does not end. -/
def step [Fintype α] (m : Machine α) : Event α → Option (Machine α)
  | .pass =>
      if m.pc = .idle then
        some { m with pc := .visit (mtime m.now) m.timers.stmrs, log := m.log ++ [.pass m.now] }
      else none
  | .next =>
      match m.pc with
      | .visit _ none => some { m with pc := .idle }
      | .visit time (some t) =>
          if (m.timers.tmr t).due time then
            some { m with
              pc := .callback time t (m.timers.tmr t).next
              log := m.log ++ [.visit t, .call t m.now] }
          else some { m with pc := .visit time (m.timers.tmr t).next, log := m.log ++ [.visit t] }
      | _ => none
  | .ret =>
      match m.pc with
      | .callback time t tmr =>
          some { m with
            timers := setEvent (mtime m.now) t m.timers
            pc := .visit time tmr
            log := m.log ++ [.set t m.now] }
      | _ => none
  | .tick ms => some { m with now := m.now + ms }
  | .run x =>
      if m.pc.mayCall then
        some { m with
          timers := stmrRun (mtime m.now) x m.timers, log := m.log ++ [.set x m.now] }
      else none
  | .stop x =>
      if m.pc.mayCall then
        some { m with timers := stmrStop x m.timers, log := m.log ++ [.stop x] }
      else none
  | .free x =>
      if m.pc.mayCall then
        (stmrFree x m.timers).map fun s => { m with timers := s, log := m.log ++ [.free x] }
      else none
  | .add x => if m.pc.mayCall then some { m with timers := stmrAdd x m.timers } else none

/-! ### What a step can do -/

section Inversion

variable [Fintype α] {m m' : Machine α} {x : α}

lemma step_pass (h : step m .pass = some m') :
    m.pc = .idle ∧ m' = { m with
      pc := .visit (mtime m.now) m.timers.stmrs, log := m.log ++ [.pass m.now] } := by
  rw [step] at h
  split_ifs at h with hpc
  exact ⟨hpc, (Option.some.inj h).symm⟩

/-- A round ends the pass, calls a proc, or goes on to the next timer. -/
lemma step_next (h : step m .next = some m') :
    ∃ time, (m.pc = .visit time none ∧ m' = { m with pc := .idle }) ∨
      ∃ t, m.pc = .visit time (some t) ∧
        (((m.timers.tmr t).due time = true ∧ m' = { m with
          pc := .callback time t (m.timers.tmr t).next
          log := m.log ++ [.visit t, .call t m.now] }) ∨
        ((m.timers.tmr t).due time = false ∧ m' = { m with
          pc := .visit time (m.timers.tmr t).next, log := m.log ++ [.visit t] })) := by
  rw [step] at h
  split at h
  · exact ⟨_, Or.inl ⟨‹_›, (Option.some.inj h).symm⟩⟩
  · split_ifs at h with hdue
    · exact ⟨_, Or.inr ⟨_, ‹_›, Or.inl ⟨hdue, (Option.some.inj h).symm⟩⟩⟩
    · exact ⟨_, Or.inr ⟨_, ‹_›, Or.inr ⟨eq_false_of_ne_true hdue, (Option.some.inj h).symm⟩⟩⟩
  · cases h

lemma step_ret (h : step m .ret = some m') :
    ∃ time t tmr, m.pc = .callback time t tmr ∧ m' = { m with
      timers := setEvent (mtime m.now) t m.timers, pc := .visit time tmr
      log := m.log ++ [.set t m.now] } := by
  rw [step] at h
  split at h
  · exact ⟨_, _, _, ‹_›, (Option.some.inj h).symm⟩
  · cases h

lemma step_run (h : step m (.run x) = some m') :
    m.pc.mayCall = true ∧ m' = { m with
      timers := stmrRun (mtime m.now) x m.timers, log := m.log ++ [.set x m.now] } := by
  rw [step] at h
  split_ifs at h with hpc
  exact ⟨hpc, (Option.some.inj h).symm⟩

lemma step_stop (h : step m (.stop x) = some m') :
    m.pc.mayCall = true ∧
      m' = { m with timers := stmrStop x m.timers, log := m.log ++ [.stop x] } := by
  rw [step] at h
  split_ifs at h with hpc
  exact ⟨hpc, (Option.some.inj h).symm⟩

lemma step_free (h : step m (.free x) = some m') :
    m.pc.mayCall = true ∧ ∃ s, stmrFree x m.timers = some s ∧
      m' = { m with timers := s, log := m.log ++ [.free x] } := by
  rw [step] at h
  split_ifs at h with hpc
  obtain ⟨s, hs, hm'⟩ := Option.map_eq_some_iff.mp h
  exact ⟨hpc, s, hs, hm'.symm⟩

lemma step_add (h : step m (.add x) = some m') :
    m.pc.mayCall = true ∧ m' = { m with timers := stmrAdd x m.timers } := by
  rw [step] at h
  split_ifs at h with hpc
  exact ⟨hpc, (Option.some.inj h).symm⟩

end Inversion

/-! ### Reading the log -/

/-- The time at which the event of `x` is set. -/
def Obs.setAt (x : α) : Obs α → Option ℕ
  | .set y time => if y = x then some time else none
  | _ => none

/-- The time at which a pass begins. -/
def Obs.passAt : Obs α → Option ℕ
  | .pass time => some time
  | _ => none

/-- The time at which the event of `x` was last set. -/
def lastSet (log : List (Obs α)) (x : α) : Option ℕ := (log.filterMap (Obs.setAt x)).getLast?

omit [DecidableEq α] in
/-- The time at which the last pass began. -/
def sampled (log : List (Obs α)) : Option ℕ := (log.filterMap Obs.passAt).getLast?

/-- **No timer fires early**: whenever the proc of a timer is called and its event was set less than
2^32 ms ago, it was set at least a period ago. -/
def NeverEarly (period : α → UInt32) (log : List (Obs α)) : Prop :=
  ∀ pre x time post set, log = pre ++ .call x time :: post → lastSet pre x = some set →
    time - set < 2 ^ 32 → (period x).toNat ≤ time - set

/-- The pass comes to an active timer whose event was set after the clock sample of the pass, and
the difference, which has wrapped, is not below the period. -/
def VisitsLate (m : Machine α) (e : Event α) : Prop :=
  e = .next ∧ ∃ time x set sample, m.pc = .visit time (some x) ∧
    (m.timers.tmr x).due time = true ∧ lastSet m.log x = some set ∧
    sampled m.log = some sample ∧ sample < set

section Log

variable {log os : List (Obs α)} {o : Obs α} {x : α} {period : α → UInt32}

lemma lastSet_append : lastSet (log ++ os) x = (lastSet os x).or (lastSet log x) := by
  rw [lastSet, List.filterMap_append, List.getLast?_append]
  rfl

lemma lastSet_append_of_none (h : lastSet os x = none) :
    lastSet (log ++ os) x = lastSet log x := by
  rw [lastSet_append, h, Option.none_or]

omit [DecidableEq α] in
lemma sampled_append : sampled (log ++ os) = (sampled os).or (sampled log) := by
  rw [sampled, List.filterMap_append, List.getLast?_append]
  rfl

omit [DecidableEq α] in
lemma sampled_append_of_none (h : sampled os = none) : sampled (log ++ os) = sampled log := by
  rw [sampled_append, h, Option.none_or]

/-- One more observation is not early, if it is a call. -/
lemma NeverEarly.concat (hlog : NeverEarly period log)
    (ho : ∀ x time set, o = .call x time → lastSet log x = some set → time - set < 2 ^ 32 →
      (period x).toNat ≤ time - set) : NeverEarly period (log ++ [o]) := by
  intro pre x time post set hsplit hset hlt
  rcases concat_eq_append_cons hsplit with ⟨-, rfl, rfl⟩ | ⟨post', -, hpre⟩
  · exact ho x time set rfl hset hlt
  · exact hlog pre x time post' set hpre hset hlt

end Log

/-! ### The clock -/

/-- The difference of two readings is the time between them, up to a wrap of the counter. -/
lemma toNat_mtime_sub {a b : ℕ} (hle : a ≤ b) (hlt : b - a < 2 ^ 32) :
    (mtime b - mtime a).toNat = b - a := by
  rw [UInt32.toNat_sub, mtime, mtime, UInt32.toNat_ofNat', UInt32.toNat_ofNat']
  omega

/-- The clock sample of the pass under way. -/
def Pc.time {α : Type} : Pc α → Option UInt32
  | .idle => none
  | .visit time _ | .callback time _ _ => some time

/-- **The invariant of the clock.** -/
structure ClockInv (period : α → UInt32) (m : Machine α) : Prop where
  event : ∀ x set, lastSet m.log x = some set →
    (m.timers.tmr x).event = mtime set ∧ set ≤ m.now
  sample : ∀ time, m.pc.time = some time →
    ∃ sample, sampled m.log = some sample ∧ time = mtime sample ∧ sample ≤ m.now
  kept : ∀ x, (m.timers.tmr x).period = period x
  early : NeverEarly period m.log

section Clock

variable {period : α → UInt32} {m m' : Machine α} {x : α}

/-- A step that sets no event and samples no clock. -/
lemma ClockInv.keep (h : ClockInv period m)
    (htmr : ∀ x, (m'.timers.tmr x).event = (m.timers.tmr x).event ∧
      (m'.timers.tmr x).period = (m.timers.tmr x).period)
    (hset : ∀ x, lastSet m'.log x = lastSet m.log x) (hsampled : sampled m'.log = sampled m.log)
    (htime : ∀ time, m'.pc.time = some time → m.pc.time = some time) (hnow : m.now ≤ m'.now)
    (hearly : NeverEarly period m'.log) : ClockInv period m' := by
  refine ⟨fun x set hx => ?_, fun time ht => ?_, fun x => ?_, hearly⟩
  · obtain ⟨hevent, hle⟩ := h.event x set ((hset x).symm.trans hx)
    exact ⟨(htmr x).1.trans hevent, by omega⟩
  · obtain ⟨sample, hsample, hmtime, hle⟩ := h.sample time (htime time ht)
    exact ⟨sample, hsampled.trans hsample, hmtime, by omega⟩
  · exact (htmr x).2.trans (h.kept x)

/-- `stmr_run`, and the end of a proc. -/
lemma ClockInv.set (h : ClockInv period m) (hx : (m'.timers.tmr x).event = mtime m.now)
    (hother : ∀ y, y ≠ x → (m'.timers.tmr y).event = (m.timers.tmr y).event)
    (hperiod : ∀ y, (m'.timers.tmr y).period = (m.timers.tmr y).period)
    (hlog : m'.log = m.log ++ [.set x m.now])
    (htime : ∀ time, m'.pc.time = some time → m.pc.time = some time) (hnow : m'.now = m.now) :
    ClockInv period m' := by
  refine ⟨fun y set hy => ?_, fun time ht => ?_, fun y => (hperiod y).trans (h.kept y), ?_⟩
  · rw [hlog, lastSet_append] at hy
    by_cases hxy : x = y
    · subst hxy
      have hnew : lastSet [.set x m.now] x = some m.now := by
        simp [lastSet, Obs.setAt]
      rw [hnew, Option.some_or] at hy
      obtain rfl := Option.some.inj hy
      exact ⟨hx, hnow.ge⟩
    · have hnone : lastSet [.set x m.now] y = none := by
        simp [lastSet, Obs.setAt, hxy]
      rw [hnone, Option.none_or] at hy
      obtain ⟨hevent, hle⟩ := h.event y set hy
      exact ⟨(hother y fun heq => hxy heq.symm).trans hevent, by omega⟩
  · obtain ⟨sample, hsample, hmtime, hle⟩ := h.sample time (htime time ht)
    refine ⟨sample, ?_, hmtime, by omega⟩
    rw [hlog, sampled_append_of_none rfl]
    exact hsample
  · rw [hlog]
    exact h.early.concat fun _ _ _ heq => by cases heq

omit [DecidableEq α] in
lemma SameData.event_period {h h' : α → Stmr α} (hsame : SameData h h') (x : α) :
    (h' x).event = (h x).event ∧ (h' x).period = (h x).period := by
  rw [← hsame x]
  exact ⟨rfl, rfl⟩

variable [Fintype α] {e : Event α}

/-- **A round** of the pass.  The clock sample is not before the event of the timer, so that the
elapsed time is what it seems to be. -/
lemma clockInv_next (h : ClockInv period m) (hgood : ¬ VisitsLate m .next)
    (hstep : step m .next = some m') : ClockInv period m' := by
  obtain ⟨time, ⟨hpc, rfl⟩ | ⟨t, hpc, ⟨hdue, rfl⟩ | ⟨-, rfl⟩⟩⟩ := step_next hstep
  · exact h.keep (fun _ => ⟨rfl, rfl⟩) (fun _ => rfl) rfl (fun _ ht => by cases ht) (Nat.le_refl _)
      h.early
  · obtain ⟨sample, hsample, rfl, hle⟩ := h.sample time (by rw [hpc]; rfl)
    have helapsed : (m.timers.tmr t).period ≤ mtime sample - (m.timers.tmr t).event := by
      simp only [Stmr.due, decide_eq_true_eq, UInt32.not_lt] at hdue
      exact hdue.2
    refine h.keep (fun _ => ⟨rfl, rfl⟩) (fun _ => lastSet_append_of_none rfl)
      (sampled_append_of_none rfl) (fun _ ht => by rw [hpc]; exact ht) (Nat.le_refl _) ?_
    have hvisit : NeverEarly period (m.log ++ [.visit t]) :=
      h.early.concat fun _ _ _ heq => by cases heq
    rw [show m.log ++ [.visit t, .call t m.now] = m.log ++ [.visit t] ++ [.call t m.now] by simp]
    refine hvisit.concat fun x now set heq hset hlt => ?_
    obtain ⟨rfl, rfl⟩ := Obs.call.inj heq
    rw [lastSet_append_of_none rfl] at hset
    obtain ⟨hevent, -⟩ := h.event t set hset
    have hbefore : set ≤ sample := by
      by_contra hlate
      exact hgood ⟨rfl, _, t, set, sample, hpc, hdue, hset, hsample, by omega⟩
    rw [hevent, h.kept, UInt32.le_iff_toNat_le, toNat_mtime_sub hbefore (by omega)] at helapsed
    omega
  · refine h.keep (fun _ => ⟨rfl, rfl⟩) (fun _ => lastSet_append_of_none rfl)
      (sampled_append_of_none rfl) (fun _ ht => by rw [hpc]; exact ht) (Nat.le_refl _) ?_
    exact h.early.concat fun _ _ _ heq => by cases heq

/-- **One step** that does not visit a timer late keeps the invariant. -/
lemma clockInv_step (h : ClockInv period m) (hgood : ¬ VisitsLate m e)
    (hstep : step m e = some m') : ClockInv period m' := by
  cases e with
  | pass =>
      obtain ⟨hpc, rfl⟩ := step_pass hstep
      refine ⟨fun x set hx => ?_, fun time ht => ?_, h.kept, ?_⟩
      · exact h.event x set ((lastSet_append_of_none rfl).symm.trans hx)
      · obtain rfl := Option.some.inj ht
        exact ⟨m.now, by rw [sampled_append]; rfl, rfl, Nat.le_refl _⟩
      · exact h.early.concat fun _ _ _ heq => by cases heq
  | next => exact clockInv_next h hgood hstep
  | ret =>
      obtain ⟨time, t, tmr, hpc, rfl⟩ := step_ret hstep
      refine h.set ?_ ?_ ?_ rfl (fun _ ht => by rw [hpc]; exact ht) rfl
      · simp [setEvent]
      · exact fun y hy => by simp [setEvent, hy]
      · intro y
        by_cases hy : y = t <;> simp [setEvent, hy]
  | tick ms =>
      cases hstep
      exact h.keep (fun _ => ⟨rfl, rfl⟩) (fun _ => rfl) rfl (fun _ ht => ht) (Nat.le_add_right _ _)
        h.early
  | run x =>
      obtain ⟨-, rfl⟩ := step_run hstep
      refine h.set ?_ ?_ ?_ rfl (fun _ ht => ht) rfl
      · simp [stmrRun]
      · exact fun y hy => by simp [stmrRun, hy]
      · intro y
        by_cases hy : y = x <;> simp [stmrRun, hy]
  | stop x =>
      obtain ⟨-, rfl⟩ := step_stop hstep
      refine h.keep (fun y => ?_) (fun _ => lastSet_append_of_none rfl)
        (sampled_append_of_none rfl) (fun _ ht => ht) (Nat.le_refl _) ?_
      · by_cases hy : y = x <;> simp [stmrStop, hy]
      · exact h.early.concat fun _ _ _ heq => by cases heq
  | free x =>
      obtain ⟨-, s, hs, rfl⟩ := step_free hstep
      refine h.keep (sameData_stmrFree hs).event_period (fun _ => lastSet_append_of_none rfl)
        (sampled_append_of_none rfl) (fun _ ht => ht) (Nat.le_refl _) ?_
      exact h.early.concat fun _ _ _ heq => by cases heq
  | add x =>
      obtain ⟨-, rfl⟩ := step_add hstep
      exact h.keep (SameData.event_period sameData_setNext) (fun _ => rfl) rfl (fun _ ht => ht)
        (Nat.le_refl _) h.early

end Clock

/-- **Timers are not early.**  From any timers and any list of them, with any number of passes, any
behaviour of the procs and any passing of time: in every run in which no pass fires a timer whose
event was set after the clock sample of that pass, no timer fires early. -/
theorem timers_not_early [Fintype α] (m₀ m : Machine α) (es : List (Event α))
    (hpc : m₀.pc = .idle) (hlog : m₀.log = []) (hrun : run step m₀ es = some m)
    (hgood : ∀ t e, Takes step m₀ es t e → ¬ VisitsLate t e) :
    NeverEarly (fun x => (m₀.timers.tmr x).period) m.log := by
  have hinit : ClockInv (fun x => (m₀.timers.tmr x).period) m₀ := by
    refine ⟨fun x set hx => ?_, fun time ht => ?_, fun _ => rfl, ?_⟩
    · rw [hlog] at hx
      cases hx
    · rw [hpc] at ht
      cases ht
    · intro pre x time post set hsplit
      rw [hlog] at hsplit
      exact absurd hsplit (by simp)
  have hrun' := run_invariant_of_takes (I := ClockInv fun x => (m₀.timers.tmr x).period)
    (fun _ _ _ hinv hgood hstep => clockInv_step hinv hgood hstep) hgood hinit hrun
  exact hrun'.early

/-- An active timer with a period of 100 ms. -/
def oneTimer : Machine (Fin 1) where
  timers := ⟨some 0, fun _ => ⟨100, 0, 1, 0, 0, none⟩⟩
  now := 0
  pc := .idle
  log := []

/-- It is started, and a pass 100 ms later calls its proc. -/
theorem timers_not_early_oneTimer :
    ∃ m, run step oneTimer [.run 0, .tick 100, .pass, .next] = some m ∧
      m.log = [.set 0 0, .pass 100, .visit 0, .call 0 100] ∧
      NeverEarly (fun x => (oneTimer.timers.tmr x).period) m.log := by
  have hlog : (run step oneTimer [.run 0, .tick 100, .pass, .next]).map Machine.log =
      some [.set 0 0, .pass 100, .visit 0, .call 0 100] := by decide +kernel
  obtain ⟨m, hrun, hm⟩ := Option.map_eq_some_iff.mp hlog
  refine ⟨m, hrun, hm, timers_not_early oneTimer m _ rfl rfl hrun ?_⟩
  rintro t e ⟨pre, post, hsplit, ht, -⟩ ⟨rfl, time, x, set, sample, -, -, hset, hsample, hlt⟩
  -- the only round is the last event
  obtain rfl : pre = [.run 0, .tick 100, .pass] := by
    rcases pre with _ | ⟨a, _ | ⟨b, _ | ⟨c, _ | ⟨d, pre⟩⟩⟩⟩ <;> simp at hsplit
    simp [hsplit]
  have hbefore : (run step oneTimer [.run 0, .tick 100, .pass]).map Machine.log =
      some [.set 0 0, .pass 100] := by decide +kernel
  rw [ht, Option.map_some, Option.some.injEq] at hbefore
  rw [hbefore] at hset hsample
  have hx : x = 0 := Subsingleton.elim x 0
  rw [hx] at hset
  have hset' : some 0 = some set := hset
  have hsample' : some 100 = some sample := hsample
  obtain rfl := Option.some.inj hset'
  omega

/-- Two active timers, of periods 0 and 100 ms. -/
def twoTimers : Machine (Fin 2) where
  timers := ⟨some 0, fun x => if x = 0 then ⟨0, 0, 1, 0, 0, some 1⟩ else ⟨100, 0, 1, 0, 0, none⟩⟩
  now := 1000
  pc := .idle
  log := []

/-- The proc of the first timer takes 5 ms and then starts the second one, which the same pass fires
0 ms later. -/
theorem timer_fires_early :
    ∃ m, run step twoTimers [.pass, .next, .tick 5, .run 1, .ret, .next] = some m ∧
      ¬ NeverEarly (fun x => (twoTimers.timers.tmr x).period) m.log := by
  have hlog : (run step twoTimers [.pass, .next, .tick 5, .run 1, .ret, .next]).map Machine.log =
      some ([.pass 1000, .visit 0, .call 0 1000, .set 1 1005, .set 0 1005, .visit 1] ++
        .call 1 1005 :: []) := by decide +kernel
  obtain ⟨m, hrun, hm⟩ := Option.map_eq_some_iff.mp hlog
  refine ⟨m, hrun, fun h => ?_⟩
  exact absurd (h _ _ _ _ 1005 hm (by decide) (by decide)) (by decide)

end Stm32Ecm.Time
