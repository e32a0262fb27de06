import Mathlib.Data.List.Induction
import Mathlib.Tactic.Common

/-!
Runs of a partial step function `step : σ → ε → Option σ`: the value `none` says that the
event is not possible in the state.

* `run`: the state a list of events leads to, with `run_append` and `run_concat_eq_some`;
* `run_invariant`: what one step preserves, a whole run preserves; `run_history` is the form
  in which the invariant also reads the events handled so far;
* `Visits` and `Takes`: the states a run passes through and the steps it takes;
  `run_invariant_of_takes` and `run_observed_of_takes` are the invariant rules for runs that
  take no bad step;
* `visits_iff_takes`: if in good states exactly the bad steps leave the good states, a run
  stays inside the good states exactly when it takes no bad step;
* `observed`: what the steps of a run let be observed, with `run_observed` the rule for an
  invariant that reads it.
-/

namespace Transition

variable {σ ε : Type*}

/-- The state reached from `s` by the events `es`, in order. -/
def run (step : σ → ε → Option σ) : σ → List ε → Option σ
  | s, [] => some s
  | s, e :: es => (step s e).bind fun t => run step t es

variable {step : σ → ε → Option σ} {s t u : σ} {e : ε} {es es' : List ε}

@[simp] lemma run_nil : run step s [] = some s := rfl

lemma run_cons : run step s (e :: es) = (step s e).bind fun t => run step t es := rfl

lemma run_cons_eq_some :
    run step s (e :: es) = some t ↔ ∃ u, step s e = some u ∧ run step u es = some t := by
  rw [run_cons, Option.bind_eq_some_iff]

lemma run_append : run step s (es ++ es') = (run step s es).bind fun t => run step t es' := by
  induction es generalizing s with
  | nil => rfl
  | cons e es ih =>
      rw [List.cons_append, run_cons, run_cons, Option.bind_assoc]
      exact congrArg _ (funext fun t => ih)

lemma run_append_eq_some :
    run step s (es ++ es') = some t ↔
      ∃ u, run step s es = some u ∧ run step u es' = some t := by
  rw [run_append, Option.bind_eq_some_iff]

/-- The last step of a run. -/
lemma run_concat_eq_some :
    run step s (es ++ [e]) = some t ↔ ∃ u, run step s es = some u ∧ step u e = some t := by
  rw [run_append_eq_some]
  refine exists_congr fun u => and_congr_right fun _ => ?_
  rw [run_cons_eq_some]
  simp

/-! ### Invariants -/

/-- **The invariant rule**, for the events that satisfy `P`: what each such step preserves,
every run of such events preserves. -/
theorem run_invariant {I : σ → Prop} {P : ε → Prop}
    (hstep : ∀ s e t, P e → I s → step s e = some t → I t)
    (hP : ∀ e ∈ es, P e) (hs : I s) (hrun : run step s es = some t) : I t := by
  induction es generalizing s with
  | nil =>
      rw [run_nil, Option.some.injEq] at hrun
      exact hrun ▸ hs
  | cons e es ih =>
      obtain ⟨u, hu, hrest⟩ := run_cons_eq_some.mp hrun
      exact ih (fun x hx => hP x (by simp [hx])) (hstep s e u (hP e (by simp)) hs hu) hrest

/-- **The invariant rule with history**: the invariant reads the events handled so far. -/
theorem run_history {I : List ε → σ → Prop} (hs : I [] s)
    (hstep : ∀ es e t u, I es t → step t e = some u → I (es ++ [e]) u)
    (hrun : run step s es = some t) : I es t := by
  induction es using List.reverseRecOn generalizing t with
  | nil =>
      rw [run_nil, Option.some.injEq] at hrun
      exact hrun ▸ hs
  | append_singleton es e ih =>
      obtain ⟨u, hu, hlast⟩ := run_concat_eq_some.mp hrun
      exact hstep es e u t (ih hu) hlast

/-! ### The states and the steps of a run -/

/-- The two ways to split a list with one more element at its end. -/
lemma concat_eq_append_cons {α : Type*} {l l₁ l₂ : List α} {o x : α}
    (h : l ++ [o] = l₁ ++ x :: l₂) :
    (l₂ = [] ∧ l = l₁ ∧ o = x) ∨ ∃ l₂', l₂ = l₂' ++ [o] ∧ l = l₁ ++ x :: l₂' := by
  rcases List.eq_nil_or_concat l₂ with rfl | ⟨l₂', y, rfl⟩
  · left
    obtain ⟨h₁, h₂⟩ := List.append_inj' h rfl
    exact ⟨rfl, h₁, by simpa using h₂⟩
  · right
    rw [List.concat_eq_append] at h ⊢
    rw [show l₁ ++ x :: (l₂' ++ [y]) = (l₁ ++ x :: l₂') ++ [y] from by simp] at h
    obtain ⟨h₁, h₂⟩ := List.append_inj' h rfl
    obtain rfl : o = y := by simpa using h₂
    exact ⟨l₂', rfl, h₁⟩

/-- The run of `es` from `s` passes through `t`. -/
def Visits (step : σ → ε → Option σ) (s : σ) (es : List ε) (t : σ) : Prop :=
  ∃ pre post, es = pre ++ post ∧ run step s pre = some t

/-- The run of `es` from `s` takes the event `e` in the state `t`. -/
def Takes (step : σ → ε → Option σ) (s : σ) (es : List ε) (t : σ) (e : ε) : Prop :=
  ∃ pre post, es = pre ++ e :: post ∧ run step s pre = some t ∧ (step t e).isSome

lemma Takes.mem (h : Takes step s es t e) : e ∈ es := by
  obtain ⟨pre, post, rfl, -, -⟩ := h
  simp

lemma visits_self : Visits step s es s := ⟨[], es, rfl, rfl⟩

lemma visits_cons (hu : step s e = some u) :
    Visits step s (e :: es) t ↔ t = s ∨ Visits step u es t := by
  constructor
  · rintro ⟨pre, post, hsplit, hrun⟩
    cases pre with
    | nil =>
        rw [run_nil, Option.some.injEq] at hrun
        exact Or.inl hrun.symm
    | cons x pre =>
        obtain ⟨rfl, rfl⟩ : e = x ∧ es = pre ++ post := by simpa using hsplit
        rw [run_cons, hu] at hrun
        exact Or.inr ⟨pre, post, rfl, hrun⟩
  · rintro (rfl | ⟨pre, post, rfl, hrun⟩)
    · exact visits_self
    · exact ⟨e :: pre, post, rfl, by rw [run_cons, hu]; exact hrun⟩

lemma visits_cons_of_none (hu : step s e = none) : Visits step s (e :: es) t ↔ t = s := by
  constructor
  · rintro ⟨pre, post, hsplit, hrun⟩
    cases pre with
    | nil =>
        rw [run_nil, Option.some.injEq] at hrun
        exact hrun.symm
    | cons x pre =>
        obtain ⟨rfl, rfl⟩ : e = x ∧ es = pre ++ post := by simpa using hsplit
        rw [run_cons, hu] at hrun
        exact absurd hrun (by simp)
  · rintro rfl
    exact visits_self

lemma takes_cons {x : ε} (hu : step s e = some u) :
    Takes step s (e :: es) t x ↔ (t = s ∧ x = e) ∨ Takes step u es t x := by
  constructor
  · rintro ⟨pre, post, hsplit, hrun, hx⟩
    cases pre with
    | nil =>
        obtain ⟨rfl, rfl⟩ : e = x ∧ es = post := by simpa using hsplit
        rw [run_nil, Option.some.injEq] at hrun
        exact Or.inl ⟨hrun.symm, rfl⟩
    | cons y pre =>
        obtain ⟨rfl, rfl⟩ : e = y ∧ es = pre ++ x :: post := by simpa using hsplit
        rw [run_cons, hu] at hrun
        exact Or.inr ⟨pre, post, rfl, hrun, hx⟩
  · rintro (⟨rfl, rfl⟩ | ⟨pre, post, rfl, hrun, hx⟩)
    · exact ⟨[], es, rfl, rfl, by rw [hu]; rfl⟩
    · exact ⟨e :: pre, post, rfl, by rw [run_cons, hu]; exact hrun, hx⟩

lemma not_takes_nil {x : ε} : ¬ Takes step s [] t x := by
  rintro ⟨pre, post, hsplit, -, -⟩
  simp at hsplit

lemma forall_takes_cons {P : σ → ε → Prop} (hu : step s e = some u) :
    (∀ t x, Takes step s (e :: es) t x → P t x) ↔ P s e ∧ ∀ t x, Takes step u es t x → P t x := by
  simp only [takes_cons hu]
  constructor
  · exact fun h => ⟨h s e (Or.inl ⟨rfl, rfl⟩), fun t x hx => h t x (Or.inr hx)⟩
  · rintro ⟨hfirst, hrest⟩ t x (⟨rfl, rfl⟩ | hx)
    · exact hfirst
    · exact hrest t x hx

lemma not_takes_cons_of_none {x : ε} (hu : step s e = none) :
    ¬ Takes step s (e :: es) t x := by
  rintro ⟨pre, post, hsplit, hrun, hx⟩
  cases pre with
  | nil =>
      obtain ⟨rfl, rfl⟩ : e = x ∧ es = post := by simpa using hsplit
      rw [run_nil, Option.some.injEq] at hrun
      subst hrun
      rw [hu] at hx
      simp at hx
  | cons y pre =>
      obtain ⟨rfl, rfl⟩ : e = y ∧ es = pre ++ x :: post := by simpa using hsplit
      rw [run_cons, hu] at hrun
      exact absurd hrun (by simp)

/-! ### What a run lets be observed -/

variable {β : Type*}

/-- What the steps of the run of `es` from `s` let be observed, in order; an event that is not
possible ends the run. -/
def observed (step : σ → ε → Option σ) (obs : σ → ε → List β) : σ → List ε → List β
  | _, [] => []
  | s, e :: es =>
      match step s e with
      | none => []
      | some t => obs s e ++ observed step obs t es

variable {obs : σ → ε → List β}

lemma observed_cons (hu : step s e = some u) :
    observed step obs s (e :: es) = obs s e ++ observed step obs u es := by
  rw [observed, hu]

/-- An initial part of a run observes an initial part. -/
lemma observed_append (es' : List ε) (hrun : run step s es = some t) :
    observed step obs s (es ++ es') = observed step obs s es ++ observed step obs t es' := by
  induction es generalizing s with
  | nil =>
      obtain rfl : s = t := by simpa using hrun
      rfl
  | cons x es ih =>
      obtain ⟨v, hv, hrest⟩ := run_cons_eq_some.mp hrun
      rw [List.cons_append, observed_cons hv, observed_cons hv, ih hrest, List.append_assoc]

/-- The last step of a run adds its own observations. -/
lemma observed_concat (hrun : run step s es = some t) (hu : step t e = some u) :
    observed step obs s (es ++ [e]) = observed step obs s es ++ obs t e := by
  rw [observed_append [e] hrun, observed_cons hu, observed, List.append_nil]

/-- Where a step lets at most one thing be observed, every observation splits the run at the
step that made it. -/
lemma exists_of_observed_eq (hone : ∀ s e, (obs s e).length ≤ 1) {l l' : List β} {b : β}
    (h : observed step obs s es = l ++ b :: l') :
    ∃ pre e post t u, es = pre ++ e :: post ∧ run step s pre = some t ∧ step t e = some u ∧
      obs t e = [b] ∧ observed step obs s pre = l := by
  induction es generalizing s l with
  | nil => simp [observed] at h
  | cons e es ih =>
      cases hu : step s e with
      | none => simp [observed, hu] at h
      | some u =>
          rw [observed_cons hu] at h
          have hlen : (obs s e).length ≤ 1 := hone s e
          -- the step observes nothing, or what is observed first
          match hobs : obs s e, hlen with
          | [], _ =>
              rw [hobs, List.nil_append] at h
              obtain ⟨pre, x, post, t, v, rfl, hrun, hx, hb, hl⟩ := ih h
              refine ⟨e :: pre, x, post, t, v, rfl, run_cons_eq_some.mpr ⟨u, hu, hrun⟩, hx, hb, ?_⟩
              rw [observed_cons hu, hobs, hl, List.nil_append]
          | [y], _ =>
              rw [hobs, List.singleton_append] at h
              cases l with
              | nil =>
                  obtain ⟨rfl, -⟩ := List.cons.inj h
                  exact ⟨[], e, es, s, u, rfl, rfl, hu, hobs, rfl⟩
              | cons z l =>
                  obtain ⟨rfl, hrest⟩ := List.cons.inj h
                  obtain ⟨pre, x, post, t, v, rfl, hrun, hx, hb, hl⟩ := ih hrest
                  refine ⟨e :: pre, x, post, t, v, rfl, run_cons_eq_some.mpr ⟨u, hu, hrun⟩, hx,
                    hb, ?_⟩
                  rw [observed_cons hu, hobs, hl, List.singleton_append]

/-- **The invariant rule with observations**, for the events that satisfy `P`: the invariant
reads what was observed so far. -/
theorem run_observed {I : List β → σ → Prop} {P : ε → Prop} (hs : I [] s)
    (hstep : ∀ bs e t u, P e → I bs t → step t e = some u → I (bs ++ obs t e) u)
    (hP : ∀ e ∈ es, P e) (hrun : run step s es = some t) : I (observed step obs s es) t := by
  induction es using List.reverseRecOn generalizing t with
  | nil =>
      obtain rfl : s = t := by simpa using hrun
      exact hs
  | append_singleton es e ih =>
      obtain ⟨u, hu, hlast⟩ := run_concat_eq_some.mp hrun
      rw [observed_concat hu hlast]
      exact hstep _ e u t (hP e (by simp)) (ih (fun x hx => hP x (by simp [hx])) hu) hlast

/-- **The invariant rule for the runs without bad steps**. -/
theorem run_invariant_of_takes {I : σ → Prop} {Bad : σ → ε → Prop}
    (hstep : ∀ s e t, I s → ¬ Bad s e → step s e = some t → I t)
    (hbad : ∀ t e, Takes step s es t e → ¬ Bad t e) (hs : I s)
    (hrun : run step s es = some t) : I t := by
  induction es generalizing s with
  | nil =>
      rw [run_nil, Option.some.injEq] at hrun
      exact hrun ▸ hs
  | cons e es ih =>
      obtain ⟨u, hu, hrest⟩ := run_cons_eq_some.mp hrun
      have he : ¬ Bad s e := hbad s e ((takes_cons hu).mpr (Or.inl ⟨rfl, rfl⟩))
      exact ih (fun t x hx => hbad t x ((takes_cons hu).mpr (Or.inr hx)))
        (hstep s e u hs he hu) hrest

/-- The same rule for an invariant that reads what was observed so far. -/
theorem run_observed_of_takes {I : List β → σ → Prop} {Bad : σ → ε → Prop} (hs : I [] s)
    (hstep : ∀ bs e t u, I bs t → ¬ Bad t e → step t e = some u → I (bs ++ obs t e) u)
    (hbad : ∀ t e, Takes step s es t e → ¬ Bad t e) (hrun : run step s es = some t) :
    I (observed step obs s es) t := by
  induction es using List.reverseRecOn generalizing t with
  | nil =>
      obtain rfl : s = t := by simpa using hrun
      exact hs
  | append_singleton es e ih =>
      obtain ⟨u, hu, hlast⟩ := run_concat_eq_some.mp hrun
      have he : ¬ Bad u e := hbad u e ⟨es, [], rfl, hu, by rw [hlast]; rfl⟩
      have hpre : ∀ v x, Takes step s es v x → ¬ Bad v x := by
        rintro v x ⟨pre, post, rfl, hv, hx⟩
        exact hbad v x ⟨pre, post ++ [e], by simp, hv, hx⟩
      rw [observed_concat hu hlast]
      exact hstep _ e u t (ih hpre hu) he hlast

/-- **Good states and bad steps**, for the events that satisfy `P`.  If from every good state
that satisfies the invariant such a step keeps the invariant, and reaches a good state exactly
when it is not bad, then a run visits good states only exactly when it takes no bad step. -/
theorem visits_iff_takes {I Good : σ → Prop} {Bad : σ → ε → Prop} {P : ε → Prop}
    (hstep : ∀ s e t, P e → I s → Good s → step s e = some t → I t ∧ (Good t ↔ ¬ Bad s e))
    (hP : ∀ e ∈ es, P e) (hI : I s) (hgood : Good s) :
    (∀ t, Visits step s es t → Good t) ↔ ∀ t e, Takes step s es t e → ¬ Bad t e := by
  induction es generalizing s with
  | nil =>
      refine ⟨fun _ t x h => absurd h not_takes_nil, ?_⟩
      rintro - t ⟨pre, post, hsplit, hrun⟩
      obtain ⟨rfl, -⟩ : pre = [] ∧ post = [] := by simpa using hsplit.symm
      rw [run_nil, Option.some.injEq] at hrun
      exact hrun ▸ hgood
  | cons e es ih =>
      have hPe : P e := hP e (by simp)
      have hPs : ∀ x ∈ es, P x := fun x hx => hP x (by simp [hx])
      cases hu : step s e with
      | none =>
          refine ⟨fun _ t x h => absurd h (not_takes_cons_of_none hu), fun _ t ht => ?_⟩
          rw [visits_cons_of_none hu] at ht
          exact ht ▸ hgood
      | some u =>
          obtain ⟨hIu, hgu⟩ := hstep s e u hPe hI hgood hu
          constructor
          · intro hall t x hx
            have hGu : Good u := hall u ((visits_cons hu).mpr (Or.inr visits_self))
            rcases (takes_cons hu).mp hx with ⟨rfl, rfl⟩ | hx
            · exact hgu.mp hGu
            · exact (ih hPs hIu hGu).mp
                (fun t ht => hall t ((visits_cons hu).mpr (Or.inr ht))) t x hx
          · intro hnone t ht
            have hGu : Good u := hgu.mpr (hnone s e ((takes_cons hu).mpr (Or.inl ⟨rfl, rfl⟩)))
            rcases (visits_cons hu).mp ht with rfl | ht
            · exact hgood
            · exact (ih hPs hIu hGu).mpr
                (fun t x hx => hnone t x ((takes_cons hu).mpr (Or.inr hx))) t ht

end Transition
