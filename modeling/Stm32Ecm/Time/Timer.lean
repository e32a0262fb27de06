import Mathlib.Data.Fintype.Card
import Stm32Ecm.Library.LinkedList
import Stm32Ecm.Library.Run

/-!
The software timers (`time.c`): a linked list through the timers themselves.

* `Stmr`, `Timers`: the timers, of a finite type `α` of addresses, and the head `stmrs` of the list;
* `stmrInit`, `stmrAdd`, `stmrFree`, `stmrStop`, `stmrRun`: the operations, pointer by pointer;
  `stmrFree` is `none` if its loop does not end;
* `freeLoop_spec`, `stmrFree_spec`: on a list that ends, a timer is taken out and nothing else
  changes;
* `listed`: the timers added and not freed since; `timer_list_representation` says that the list is
  just that after every sequence of operations.
-/

namespace Stm32Ecm.Time

open LinkedList Transition

/-! ### The operations -/

/-- `struct stmr`.  The user data and the timer proc are addresses, 0 for `NULL`. -/
structure Stmr (α : Type) where
  period : UInt32
  event : UInt32
  flags : UInt32
  data : ℕ
  proc : ℕ
  next : Option α
  deriving DecidableEq, Repr

/-- The timers and `stmrs`. -/
structure Timers (α : Type) where
  stmrs : Option α
  tmr : α → Stmr α

/-- `STMR_ACTIVE`. -/
def stmrActive : UInt32 := 1

variable {α : Type} [DecidableEq α]

/-- `x->next = n`. -/
def setNext (h : α → Stmr α) (x : α) (n : Option α) : α → Stmr α :=
  Function.update h x { h x with next := n }

/-- `stmr_init`. -/
def stmrInit (x : α) (s : Timers α) : Timers α where
  stmrs := some x
  tmr := Function.update s.tmr x
    { period := 0, event := 0, flags := 0, data := 0, proc := 0, next := s.stmrs }

/-- `stmr_add`. -/
def stmrAdd (x : α) (s : Timers α) : Timers α where
  stmrs := some x
  tmr := setNext s.tmr x s.stmrs

/-- The loop of `stmr_free`, `none` if its rounds ran out. -/
def freeLoop (x : α) (h : α → Stmr α) : ℕ → α → Option (α → Stmr α)
  | 0, _ => none
  | fuel + 1, t =>
      match (h t).next with
      | none => some h
      | some n =>
          if n = x then some (setNext (setNext h t (h x).next) x none) else freeLoop x h fuel n

/-- `stmr_free`, `none` if it does not return: with as many rounds as there are timers, the loop
has been at some timer twice. -/
def stmrFree [Fintype α] (x : α) (s : Timers α) : Option (Timers α) :=
  match s.stmrs with
  | none => some s
  | some t =>
      if x = t then some { stmrs := (s.tmr x).next, tmr := setNext s.tmr x none }
      else (freeLoop x s.tmr (Fintype.card α) t).map fun h => { s with tmr := h }

/-- `stmr_stop`. -/
def stmrStop (x : α) (s : Timers α) : Timers α :=
  { s with
    tmr := Function.update s.tmr x
      { s.tmr x with flags := (s.tmr x).flags &&& ~~~stmrActive } }

/-- `stmr_run`; `time` is what `mtime` returns in it. -/
def stmrRun (time : UInt32) (x : α) (s : Timers α) : Timers α :=
  { s with
    tmr := Function.update s.tmr x
      { s.tmr x with flags := (s.tmr x).flags ||| stmrActive, event := time } }

/-! ### What they do to the list -/

/-- The links of the timers. -/
def nextOf (h : α → Stmr α) : α → Option α := fun x => (h x).next

/-- The timers of the list, from `stmrs` on. -/
def Listed (s : Timers α) (l : List α) : Prop := Links (nextOf s.tmr) s.stmrs l

/-- Nothing but links has changed. -/
def SameData (h h' : α → Stmr α) : Prop := ∀ x, { h' x with next := (h x).next } = h x

section Lists

variable {h h' : α → Stmr α} {s : Timers α} {x t : α} {n : Option α} {l : List α} {fuel : ℕ}

lemma nextOf_update {t' : Stmr α} :
    nextOf (Function.update h x t') = Function.update (nextOf h) x t'.next := by
  funext y
  by_cases hy : y = x
  · rw [hy, nextOf, Function.update_self, Function.update_self]
  · rw [nextOf, Function.update_of_ne hy, Function.update_of_ne hy, nextOf]

lemma nextOf_setNext : nextOf (setNext h x n) = Function.update (nextOf h) x n := nextOf_update

lemma sameData_setNext : SameData h (setNext h x n) := by
  intro y
  by_cases hy : y = x
  · rw [hy, setNext, Function.update_self]
  · rw [setNext, Function.update_of_ne hy]

omit [DecidableEq α] in
lemma SameData.trans {h'' : α → Stmr α} (h₁ : SameData h h') (h₂ : SameData h' h'') :
    SameData h h'' := by
  intro x
  rw [← h₁ x, ← h₂ x]

/-- **The loop of `stmr_free`**, from a timer other than the one to be freed. -/
lemma freeLoop_spec (hlinks : Links (nextOf h) (some t) (t :: l)) (hx : x ≠ t)
    (hfuel : (t :: l).length ≤ fuel) :
    ∃ h', freeLoop x h fuel t = some h' ∧
      Links (nextOf h') (some t) ((t :: l).erase x) ∧ (∀ y, y ∉ t :: l → h' y = h y) ∧
      (x ∉ l → h' = h) := by
  induction l generalizing t fuel with
  | nil =>
      obtain ⟨fuel, rfl⟩ : ∃ k, fuel = k + 1 := ⟨fuel - 1, by simp at hfuel; omega⟩
      have hend : (h t).next = none := hlinks.2
      refine ⟨h, ?_, ?_, fun _ _ => rfl, fun _ => rfl⟩
      · rw [freeLoop, hend]
      · rw [List.erase_of_not_mem (by simpa using hx)]
        exact hlinks
  | cons n l ih =>
      obtain ⟨fuel, rfl⟩ : ∃ k, fuel = k + 1 := ⟨fuel - 1, by simp at hfuel; omega⟩
      have hnext : (h t).next = some n := hlinks.2.1
      have hnodup := hlinks.nodup
      rw [freeLoop, hnext]
      by_cases hn : n = x
      · subst hn
        refine ⟨_, if_pos rfl, ?_, ?_, ?_⟩
        · rw [List.erase_cons_tail (by simpa using hx.symm), List.erase_cons_head, nextOf_setNext,
            nextOf_setNext]
          exact hlinks.unlink
        · intro y hy
          simp only [List.mem_cons, not_or] at hy
          rw [setNext, Function.update_of_ne hy.2.1, setNext, Function.update_of_ne hy.1]
        · exact fun hmem => absurd (List.mem_cons_self) hmem
      · have hrest : Links (nextOf h) (some n) (n :: l) := hnext ▸ hlinks.2
        obtain ⟨h', hloop, hlinks', hframe, hsame⟩ :=
          @ih n fuel hrest (fun heq => hn heq.symm) (by simpa using hfuel)
        refine ⟨h', ?_, ?_, ?_, ?_⟩
        · simp only
          rw [if_neg hn, hloop]
        · have ht : nextOf h' t = some n := by
            rw [nextOf, hframe t (List.nodup_cons.mp hnodup).1, hnext]
          rw [List.erase_cons_tail (by simpa using hx.symm)]
          exact ⟨rfl, by rw [ht]; exact hlinks'⟩
        · exact fun y hy => hframe y fun hmem => hy (List.mem_cons_of_mem t hmem)
        · exact fun hmem => hsame fun hmem' => hmem (List.mem_cons_of_mem n hmem')

/-- **`stmr_free`** on a list that ends: it returns, and takes the timer out if it is there. -/
lemma stmrFree_spec [Fintype α] (hlist : Listed s l) :
    ∃ s', stmrFree x s = some s' ∧ Listed s' (l.erase x) ∧ (x ∉ l → s' = s) := by
  cases l with
  | nil =>
      have hnull : s.stmrs = none := hlist
      refine ⟨s, ?_, hlist, fun _ => rfl⟩
      rw [stmrFree, hnull]
  | cons t l =>
      have hhead : s.stmrs = some t := hlist.1
      by_cases hx : x = t
      · subst hx
        refine ⟨_, by rw [stmrFree, hhead]; exact if_pos rfl, ?_, ?_⟩
        · rw [List.erase_cons_head, Listed, nextOf_setNext]
          exact hlist.pop
        · exact fun hmem => absurd List.mem_cons_self hmem
      · have hlinks : Links (nextOf s.tmr) (some t) (t :: l) := hhead ▸ hlist
        obtain ⟨h', hloop, hlinks', -, hsame⟩ :=
          freeLoop_spec hlinks hx hlinks.nodup.length_le_card
        refine ⟨{ s with tmr := h' }, ?_, ?_, ?_⟩
        · rw [stmrFree, hhead]
          simp only
          rw [if_neg hx, hloop, Option.map_some]
        · exact hhead ▸ hlinks'
        · intro hmem
          rw [hsame fun hmem' => hmem (List.mem_cons_of_mem t hmem')]

lemma sameData_freeLoop (hloop : freeLoop x h fuel t = some h') : SameData h h' := by
  induction fuel generalizing t with
  | zero => cases hloop
  | succ fuel ih =>
      rw [freeLoop] at hloop
      split at hloop
      · exact Option.some.inj hloop ▸ fun _ => rfl
      · split_ifs at hloop
        · exact Option.some.inj hloop ▸ sameData_setNext.trans sameData_setNext
        · exact ih hloop

/-- `stmr_free` changes nothing but links, whatever the list is. -/
lemma sameData_stmrFree [Fintype α] {s' : Timers α} (hfree : stmrFree x s = some s') :
    SameData s.tmr s'.tmr := by
  rw [stmrFree] at hfree
  split at hfree
  · exact Option.some.inj hfree ▸ fun _ => rfl
  · split_ifs at hfree
    · exact Option.some.inj hfree ▸ sameData_setNext
    · obtain ⟨h', hloop, rfl⟩ := Option.map_eq_some_iff.mp hfree
      exact sameData_freeLoop hloop

lemma listed_stmrAdd (hlist : Listed s l) (hx : x ∉ l) : Listed (stmrAdd x s) (x :: l) := by
  rw [Listed, stmrAdd, nextOf_setNext]
  exact hlist.push hx

lemma listed_stmrInit (hlist : Listed s l) (hx : x ∉ l) : Listed (stmrInit x s) (x :: l) := by
  rw [Listed, stmrInit, nextOf_update]
  exact hlist.push hx

@[simp] lemma nextOf_stmrStop : nextOf (stmrStop x s).tmr = nextOf s.tmr := by
  rw [stmrStop, nextOf_update]
  exact Function.update_eq_self x (nextOf s.tmr)

@[simp] lemma nextOf_stmrRun {time : UInt32} : nextOf (stmrRun time x s).tmr = nextOf s.tmr := by
  rw [stmrRun, nextOf_update]
  exact Function.update_eq_self x (nextOf s.tmr)

end Lists

/-! ### Sequences of operations -/

/-- A call of one of the operations. -/
inductive Op (α : Type) where
  | init (x : α)
  | add (x : α)
  | free (x : α)
  | stop (x : α)
  | run (x : α) (time : UInt32)

/-- One call, `none` if it does not return. -/
def call [Fintype α] (s : Timers α) : Op α → Option (Timers α)
  | .init x => some (stmrInit x s)
  | .add x => some (stmrAdd x s)
  | .free x => stmrFree x s
  | .stop x => some (stmrStop x s)
  | .run x time => some (stmrRun time x s)

/-- What a call does to the timers added and not freed since, the last one added first. -/
def relist (l : List α) : Op α → List α
  | .init x | .add x => x :: l
  | .free x => l.erase x
  | .stop _ | .run _ _ => l

/-- The timers added and not freed since, the last one added first. -/
def listed (ops : List (Op α)) : List α := ops.foldl relist []

/-- The timer that a call adds. -/
def Op.added : Op α → Option α
  | .init x | .add x => some x
  | _ => none

/-- No call adds a timer that is in the list, which is `l` at first. -/
def Proper (l : List α) : List (Op α) → Prop
  | [] => True
  | op :: ops => (∀ x, op.added = some x → x ∉ l) ∧ Proper (relist l op) ops

section Sequences

variable [Fintype α] {s : Timers α} {op : Op α} {ops : List (Op α)} {l : List α}

/-- **One call.** -/
lemma call_spec (hlist : Listed s l) (hop : ∀ x, op.added = some x → x ∉ l) :
    ∃ s', call s op = some s' ∧ Listed s' (relist l op) := by
  cases op with
  | init x => exact ⟨_, rfl, listed_stmrInit hlist (hop x rfl)⟩
  | add x => exact ⟨_, rfl, listed_stmrAdd hlist (hop x rfl)⟩
  | free x =>
      obtain ⟨s', hfree, hlist', -⟩ := @stmrFree_spec _ _ s x l _ hlist
      exact ⟨s', hfree, hlist'⟩
  | stop x =>
      refine ⟨_, rfl, ?_⟩
      rw [Listed, nextOf_stmrStop]
      exact hlist
  | run x time =>
      refine ⟨_, rfl, ?_⟩
      rw [Listed, nextOf_stmrRun]
      exact hlist

/-- **Every sequence** of calls returns and keeps the list. -/
lemma calls_spec (hlist : Listed s l) (hops : Proper l ops) :
    ∃ s', run call s ops = some s' ∧ Listed s' (ops.foldl relist l) := by
  induction ops generalizing s l with
  | nil => exact ⟨s, rfl, hlist⟩
  | cons op ops ih =>
      obtain ⟨t, hcall, hlist'⟩ := call_spec hlist hops.1
      obtain ⟨s', hrun, hlist''⟩ := ih hlist' hops.2
      exact ⟨s', run_cons_eq_some.mpr ⟨t, hcall, hrun⟩, hlist''⟩

end Sequences

/-- **The timer list.**  Take any sequence of `stmr_init` and `stmr_add` on timers that are not in
the list, `stmr_free` on any timers, `stmr_stop` and `stmr_run`, from the empty list and whatever
the timers held.  Every call returns, and then:

* following `next` from `stmrs` visits just the timers added and not freed since, each once, the
  last one added first, and ends;
* a `stmr_free` of any other timer changes nothing;
* `stmr_stop` and `stmr_run` change no link and no other timer. -/
theorem timer_list_representation [Fintype α] (h : α → Stmr α) (ops : List (Op α))
    (hops : Proper [] ops) :
    ∃ s, run call ⟨none, h⟩ ops = some s ∧
      Links (fun x => (s.tmr x).next) s.stmrs (listed ops) ∧ (listed ops).Nodup ∧
      (∀ x, x ∉ listed ops → call s (.free x) = some s) ∧
      ∀ x op s', (op = .stop x ∨ ∃ time, op = .run x time) → call s op = some s' →
        s'.stmrs = s.stmrs ∧ (∀ y, (s'.tmr y).next = (s.tmr y).next) ∧
          ∀ y, y ≠ x → s'.tmr y = s.tmr y := by
  obtain ⟨s, hrun, hlist⟩ := @calls_spec _ _ _ ⟨none, h⟩ ops [] rfl hops
  refine ⟨s, hrun, hlist, hlist.nodup, ?_, ?_⟩
  · intro x hx
    obtain ⟨s', hfree, -, hsame⟩ := @stmrFree_spec _ _ s x (listed ops) _ hlist
    rw [call, hfree, hsame hx]
  · rintro x op s' (rfl | ⟨time, rfl⟩) hcall
    · cases hcall
      exact ⟨rfl, congrFun nextOf_stmrStop, fun y hy => Function.update_of_ne hy _ _⟩
    · cases hcall
      exact ⟨rfl, congrFun nextOf_stmrRun, fun y hy => Function.update_of_ne hy _ _⟩

/-- Two timers are added, and the first one is taken out from behind the second. -/
theorem timer_list_representation_two_timers :
    ∃ s, run call ⟨none, fun _ : Fin 2 => ⟨0, 0, 0, 0, 0, none⟩⟩
        [.add 0, .init 1, .run 0 5, .free 0] = some s ∧
      Links (fun x => (s.tmr x).next) s.stmrs [1] := by
  have hproper : Proper [] [.add 0, .init 1, .run 0 5, .free (0 : Fin 2)] := by
    simp [Proper, relist, Op.added]
  obtain ⟨s, hrun, hlinks, -⟩ :=
    timer_list_representation (fun _ => ⟨0, 0, 0, 0, 0, none⟩) _ hproper
  exact ⟨s, hrun, hlinks⟩

end Stm32Ecm.Time
