import Fipper.Lib.Transition

/-!
# What is observed of a run

One observation for each step of a run, made on the state before the step and on the action. Where every
step of a machine is matched by a move of another one under the label that is observed, the observations
of a run are the labels of a path.

* `observed step f s as` : the observations of the run of `as` from `s`;
* `observed_forall` : what holds of every observation;
* `run_observed` : an invariant that speaks of what was observed so far;
* `run_foldl` : an invariant that speaks of an account kept beside the run;
* `run_log` : what a run appends to a log;
* `run_view` : a view of the state in which every step is a run of another machine;
* `Path move s es t` : moves with the labels `es` lead from `s` to `t`;
* `path_flatten` : moves that are paths themselves;
* `run_path` : the rule.
-/

namespace Fipper.Lib

variable {σ τ α β : Type*}

/-- The observations of the steps, up to the first action that is not enabled. -/
def observed (step : σ → α → Option σ) (f : σ → α → β) : σ → List α → List β
  | _, [] => []
  | s, a :: as =>
      match step s a with
      | none => []
      | some t => f s a :: observed step f t as

inductive Path (move : τ → β → τ → Prop) : τ → List β → τ → Prop
  | nil (s : τ) : Path move s [] s
  | cons {s t u : τ} {e : β} {es : List β} (h : move s e t) (hes : Path move t es u) :
      Path move s (e :: es) u

section Observed
variable {step : σ → α → Option σ} {f : σ → α → β}

theorem observed_cons {s t : σ} {a : α} (h : step s a = some t) (as : List α) :
    observed step f s (a :: as) = f s a :: observed step f t as := by
  rw [observed, h]

theorem observed_forall {Inv : σ → Prop} {P : β → Prop}
    (hstep : ∀ s a t, Inv s → step s a = some t → Inv t ∧ P (f s a)) :
    ∀ {as : List α} {s : σ}, Inv s → ∀ e ∈ observed step f s as, P e := by
  intro as
  induction as with
  | nil => exact fun _ e he => absurd he List.not_mem_nil
  | cons a as ih =>
      intro s hs e he
      rw [observed] at he
      split at he
      · cases he
      · next t ht =>
          obtain ⟨hinv, hP⟩ := hstep s a t hs ht
          rcases List.mem_cons.mp he with rfl | he
          · exact hP
          · exact ih hinv e he

theorem run_observed {R : σ → List β → Prop}
    (hstep : ∀ s a t log, R s log → step s a = some t → R t (log ++ [f s a])) :
    ∀ {as : List α} {s t : σ} {log : List β}, R s log → run step s as = some t →
      R t (log ++ observed step f s as) := by
  intro as
  induction as with
  | nil =>
      intro s t log hs h
      rw [run_nil, Option.some.injEq] at h
      rw [← h, observed, List.append_nil]
      exact hs
  | cons a as ih =>
      intro s t log hs h
      obtain ⟨u, hu, h⟩ := run_cons_eq_some.mp h
      have hlog := ih (hstep s a u log hs hu) h
      rw [List.append_assoc, List.singleton_append, ← observed_cons hu] at hlog
      exact hlog

theorem run_foldl {R : σ → β → Prop} {account : β → α → β}
    (hstep : ∀ s a t b, R s b → step s a = some t → R t (account b a)) :
    ∀ {as : List α} {s t : σ} {b : β}, R s b → run step s as = some t → R t (as.foldl account b) := by
  intro as
  induction as with
  | nil =>
      intro s t b hs h
      rw [run_nil, Option.some.injEq] at h
      exact h ▸ hs
  | cons a as ih =>
      intro s t b hs h
      obtain ⟨u, hu, h⟩ := run_cons_eq_some.mp h
      exact ih (hstep s a u b hs hu) h

/-- What every step appends to a log, a run appends. -/
theorem run_log {γ : Type*} {log : σ → List γ} {g : β → List γ}
    (hstep : ∀ s a t, step s a = some t → log t = log s ++ g (f s a)) :
    ∀ {as : List α} {s t : σ}, run step s as = some t →
      log t = log s ++ (observed step f s as).flatMap g := by
  intro as
  induction as with
  | nil =>
      intro s t h
      rw [run_nil, Option.some.injEq] at h
      simp [h, observed]
  | cons a as ih =>
      intro s t h
      obtain ⟨u, hu, h⟩ := run_cons_eq_some.mp h
      rw [observed_cons hu, List.flatMap_cons, ih h, hstep s a u hu, List.append_assoc]

/-- If every step is, in a view of the state, a run of another machine, so is every run. -/
theorem run_view {step' : τ → β → Option τ} {view : σ → τ} {Inv : σ → Prop} {g : σ → α → List β}
    (hstep : ∀ s a t, Inv s → step s a = some t → Inv t ∧ run step' (view s) (g s a) = some (view t)) :
    ∀ {as : List α} {s t : σ}, Inv s → run step s as = some t →
      run step' (view s) (observed step g s as).flatten = some (view t) := by
  intro as
  induction as with
  | nil =>
      intro s t _ h
      rw [run_nil, Option.some.injEq] at h
      rw [h]
      rfl
  | cons a as ih =>
      intro s t hs h
      obtain ⟨u, hu, h⟩ := run_cons_eq_some.mp h
      obtain ⟨hu', hview⟩ := hstep s a u hs hu
      rw [observed_cons hu, List.flatten_cons, run_append hview]
      exact ih hu' h

end Observed

section Path
variable {move : τ → β → τ → Prop} {s u : τ} {es es' : List β}

theorem path_append_iff : Path move s (es ++ es') u ↔ ∃ t, Path move s es t ∧ Path move t es' u := by
  induction es generalizing s with
  | nil =>
      constructor
      · exact fun h => ⟨s, .nil s, h⟩
      · rintro ⟨t, h, h'⟩
        cases h
        exact h'
  | cons e es ih =>
      constructor
      · intro h
        cases h with
        | cons hmove hes =>
            obtain ⟨t, h, h'⟩ := ih.mp hes
            exact ⟨t, .cons hmove h, h'⟩
      · rintro ⟨t, h, h'⟩
        cases h with
        | cons hmove hes => exact .cons hmove (ih.mpr ⟨t, hes, h'⟩)

/-- If every step is matched by a move under the label that is observed, every run is matched by a
path. -/
theorem run_path {step : σ → α → Option σ} {f : σ → α → β} {R : σ → τ → Prop}
    (hstep : ∀ s a t u, R s u → step s a = some t → ∃ v, move u (f s a) v ∧ R t v) :
    ∀ {as : List α} {s t : σ} {u : τ}, R s u → run step s as = some t →
      ∃ v, Path move u (observed step f s as) v ∧ R t v := by
  intro as
  induction as with
  | nil =>
      intro s t u hR h
      rw [run_nil, Option.some.injEq] at h
      exact ⟨u, .nil u, h ▸ hR⟩
  | cons a as ih =>
      intro s t u hR h
      obtain ⟨s', hs', h⟩ := run_cons_eq_some.mp h
      obtain ⟨u', hmove, hR'⟩ := hstep s a s' u hR hs'
      obtain ⟨v, hpath, hRt⟩ := ih hR' h
      exact ⟨v, observed_cons hs' as ▸ .cons hmove hpath, hRt⟩

end Path

end Fipper.Lib
