import Mathlib.Data.Set.Basic
import Mathlib.Data.List.Basic

/-!
# Runs of a labelled transition system

A system is a partial step function `step : σ → α → Option σ`: `step s a = some t` says that action
`a` is enabled in `s` and leads to `t`. One list of actions fixes one interleaving, so a property of
every interleaving is a property of every list.

* `run step s as` : the state after the actions `as`, if each of them is enabled in its turn;
* `Along step ok s as` : every step of the run meets `ok`, a condition on the state before the step
  and on the action;
* `run_invariant` : what one step preserves, a whole run preserves;
* `along_and_good_or_bad`, `good_iff_along` : the runs that end well are those whose steps all meet a
  condition;
* `good_throughout_iff` : the runs that pass through good states only;
* `exists_run` : the rule for what can always be brought about;
* `exists_simulated_run` : a system that can follow each step of another can follow its runs;
* `run_length_le`, `run_countP_le`, `run_countP_le_add` : actions that use up a measure bound the length of every
  run, or their number in it;
* `trace step s is` : the answers of a machine that is total and answers each input, and its last
  state; `trace_refines` relates two machines that answer alike step by step.
-/

namespace Fipper.Lib

variable {σ τ α β : Type*}

/-- The state a run ends in, if every action of it is enabled in its turn. -/
def run (step : σ → α → Option σ) (s : σ) (as : List α) : Option σ := as.foldlM step s

/-- Every step of the run of `as` from `s` meets `ok`. -/
def Along (step : σ → α → Option σ) (ok : σ → α → Prop) : σ → List α → Prop
  | _, [] => True
  | s, a :: as => ok s a ∧ ∀ t, step s a = some t → Along step ok t as

instance Along.decidable {step : σ → α → Option σ} {ok : σ → α → Prop} [∀ s a, Decidable (ok s a)] :
    ∀ s as, Decidable (Along step ok s as)
  | _, [] => isTrue trivial
  | s, a :: as =>
      have (t : σ) : Decidable (Along step ok t as) := Along.decidable t as
      inferInstanceAs (Decidable (ok s a ∧ ∀ t ∈ step s a, Along step ok t as))

section Run
variable {step : σ → α → Option σ}

@[simp] theorem run_nil (s : σ) : run step s [] = some s := rfl

@[simp] theorem run_cons (s : σ) (a : α) (as : List α) :
    run step s (a :: as) = (step s a).bind (run step · as) := rfl

theorem run_cons_eq_some {s u : σ} {a : α} {as : List α} :
    run step s (a :: as) = some u ↔ ∃ t, step s a = some t ∧ run step t as = some u := by
  rw [run_cons, Option.bind_eq_some_iff]

theorem Along.imp {ok ok' : σ → α → Prop} (himp : ∀ s a, ok s a → ok' s a) :
    ∀ {s : σ} {as : List α}, Along step ok s as → Along step ok' s as
  | _, [], _ => trivial
  | s, a :: _, h => ⟨himp s a h.1, fun t ht => Along.imp himp (h.2 t ht)⟩

/-- The run rule: what every step preserves holds at the end of every run. -/
theorem run_invariant {Inv : σ → Prop} (hstep : ∀ s a t, Inv s → step s a = some t → Inv t) :
    ∀ {as : List α} {s t : σ}, Inv s → run step s as = some t → Inv t := by
  intro as
  induction as with
  | nil =>
      intro s t hs h
      rw [run_nil, Option.some.injEq] at h
      exact h ▸ hs
  | cons a as ih =>
      intro s t hs h
      obtain ⟨u, hu, h⟩ := run_cons_eq_some.mp h
      exact ih (hstep s a u hs hu) h

/-- A measure that every step uses up bounds the length of every run. -/
theorem run_length_le {Inv : σ → Prop} {μ : σ → Nat}
    (hstep : ∀ s a t, Inv s → step s a = some t → Inv t ∧ μ t < μ s) :
    ∀ {as : List α} {s t : σ}, Inv s → run step s as = some t → as.length + μ t ≤ μ s := by
  intro as
  induction as with
  | nil =>
      intro s t _ h
      rw [run_nil, Option.some.injEq] at h
      simp [h]
  | cons a as ih =>
      intro s t hs h
      obtain ⟨u, hu, h⟩ := run_cons_eq_some.mp h
      have hlt := hstep s a u hs hu
      have hle := ih hlt.1 h
      rw [List.length_cons]
      omega

/-- A measure that the counted steps use up, and others replenish by `k` each, bounds their number. -/
theorem run_countP_le_add {Inv : σ → Prop} {μ : σ → Nat} {counted granted : α → Bool} {k : Nat}
    (hstep : ∀ s a t, Inv s → step s a = some t →
      Inv t ∧ μ t + (if counted a then 1 else 0) ≤ μ s + (if granted a then k else 0)) :
    ∀ {as : List α} {s t : σ}, Inv s → run step s as = some t →
      as.countP counted + μ t ≤ μ s + k * as.countP granted := by
  intro as
  induction as with
  | nil =>
      intro s t _ h
      rw [run_nil, Option.some.injEq] at h
      simp [h]
  | cons a as ih =>
      intro s t hs h
      obtain ⟨u, hu, h⟩ := run_cons_eq_some.mp h
      have hle := hstep s a u hs hu
      have hrest := ih hle.1 h
      have hgranted : k * (as.countP granted + if granted a then 1 else 0) =
          k * as.countP granted + if granted a then k else 0 := by
        rw [Nat.mul_add, apply_ite (k * ·), Nat.mul_one, Nat.mul_zero]
      rw [List.countP_cons, List.countP_cons, hgranted]
      omega

/-- A measure that no step raises, and that the counted ones use up, bounds their number. -/
theorem run_countP_le {Inv : σ → Prop} {μ : σ → Nat} {counted : α → Bool}
    (hstep : ∀ s a t, Inv s → step s a = some t → Inv t ∧ μ t + (if counted a then 1 else 0) ≤ μ s)
    {as : List α} {s t : σ} (hs : Inv s) (h : run step s as = some t) : as.countP counted + μ t ≤ μ s := by
  simpa using @run_countP_le_add _ _ step Inv μ counted (fun _ => false) 0 hstep as s t hs h

theorem run_append {s t : σ} {as : List α} (h : run step s as = some t) (as' : List α) :
    run step s (as ++ as') = run step t as' := by
  induction as generalizing s with
  | nil =>
      rw [run_nil, Option.some.injEq] at h
      rw [h, List.nil_append]
  | cons a as ih =>
      obtain ⟨u, hu, h⟩ := run_cons_eq_some.mp h
      rw [List.cons_append, run_cons, hu, Option.bind_some, ih h]

theorem along_cons_iff {ok : σ → α → Prop} {s u : σ} {a : α} {as : List α} (hu : step s a = some u) :
    Along step ok s (a :: as) ↔ ok s a ∧ Along step ok u as := by
  rw [Along]
  refine and_congr_right fun _ => ⟨fun has => has u hu, fun has v hv => ?_⟩
  rw [hu, Option.some.injEq] at hv
  exact hv ▸ has

/-- If a step that meets `ok` and lowers a measure can be taken in every state that is not good, a good one
can be reached. -/
theorem exists_run {Inv Good : σ → Prop} {ok : σ → α → Prop} {μ : σ → Nat}
    (hstep : ∀ s, Inv s → ¬ Good s → ∃ a t, step s a = some t ∧ ok s a ∧ Inv t ∧ μ t < μ s) {s : σ}
    (hs : Inv s) :
    ∃ as t, run step s as = some t ∧ Along step ok s as ∧ Inv t ∧ Good t ∧ as.length + μ t ≤ μ s := by
  induction hn : μ s using Nat.strong_induction_on generalizing s with
  | _ n ih =>
      by_cases hgood : Good s
      · exact ⟨[], s, rfl, trivial, hs, hgood, by simp [hn]⟩
      · obtain ⟨a, t, ht, hok, hinv, hlt⟩ := hstep s hs hgood
        obtain ⟨as, u, hu, has, hinv', hgood', hlength⟩ := ih (μ t) (hn ▸ hlt) hinv rfl
        refine ⟨a :: as, u, by rw [run_cons, ht, Option.bind_some, hu], (along_cons_iff ht).mpr ⟨hok, has⟩,
          hinv', hgood', ?_⟩
        rw [List.length_cons]
        omega

/-- A system that can follow each step of another, in any number of its own, can follow its runs. -/
theorem exists_simulated_run {step' : τ → β → Option τ} {R : σ → τ → Prop}
    (hstep : ∀ s a t u, R s u → step s a = some t → ∃ bs v, run step' u bs = some v ∧ R t v) :
    ∀ {as : List α} {s t : σ} {u : τ}, R s u → run step s as = some t →
      ∃ bs v, run step' u bs = some v ∧ R t v := by
  intro as
  induction as with
  | nil =>
      intro s t u hs h
      rw [run_nil, Option.some.injEq] at h
      exact ⟨[], u, rfl, h ▸ hs⟩
  | cons a as ih =>
      intro s t u hs h
      obtain ⟨s', hs', h⟩ := run_cons_eq_some.mp h
      obtain ⟨bs, v, hv, hR⟩ := hstep s a s' u hs hs'
      obtain ⟨bs', v', hv', hR'⟩ := ih hR h
      exact ⟨bs ++ bs', v', (run_append hv bs').trans hv', hR'⟩

/-- If a step from a good state leads to a good one exactly when it meets `ok`, then a run passes
through good states only exactly when all its steps do. -/
theorem good_throughout_iff {Inv Good : σ → Prop} {ok : σ → α → Prop}
    (hinv : ∀ s a t, Inv s → step s a = some t → Inv t)
    (hgood : ∀ s a t, Inv s → Good s → step s a = some t → (Good t ↔ ok s a)) :
    ∀ {as : List α} {s u : σ}, Inv s → Good s → run step s as = some u →
      ((∀ before t, before <+: as → run step s before = some t → Good t) ↔ Along step ok s as) := by
  intro as
  induction as with
  | nil =>
      intro s u _ hs _
      refine iff_of_true (fun before t hbefore ht => ?_) trivial
      rw [List.prefix_nil.mp hbefore, run_nil, Option.some.injEq] at ht
      exact ht ▸ hs
  | cons a as ih =>
      intro s u hi hs h
      obtain ⟨v, hv, hrun⟩ := run_cons_eq_some.mp h
      rw [along_cons_iff hv, ← hgood s a v hi hs hv]
      constructor
      · intro hall
        have hgood : Good v := hall [a] v ⟨as, rfl⟩ (by rw [run_cons, hv]; rfl)
        refine ⟨hgood, (ih (hinv s a v hi hv) hgood hrun).mp fun before t hbefore ht => ?_⟩
        exact hall (a :: before) t (List.cons_prefix_cons.mpr ⟨rfl, hbefore⟩) (by rw [run_cons, hv]; exact ht)
      · rintro ⟨hgood, hrest⟩ before t hbefore ht
        cases before with
        | nil =>
            rw [run_nil, Option.some.injEq] at ht
            exact ht ▸ hs
        | cons b before =>
            obtain ⟨rfl, hrest'⟩ := List.cons_prefix_cons.mp hbefore
            rw [run_cons, hv] at ht
            exact (ih (hinv s b v hi hv) hgood hrun).mpr hrest before t hrest' ht

/-- A step that meets `ok` keeps a good state good; one that does not leads to a bad state, and no step
leads back: a run either meets `ok` in all its steps and ends well, or does neither. -/
theorem along_and_good_or_bad {Inv Good Bad : σ → Prop} {ok : σ → α → Prop}
    (hinv : ∀ s a t, Inv s → step s a = some t → Inv t)
    (hgood : ∀ s a t, Inv s → Good s → ok s a → step s a = some t → Good t)
    (hbad : ∀ s a t, Inv s → Good s → ¬ ok s a → step s a = some t → Bad t)
    (hstay : ∀ s a t, Bad s → step s a = some t → Bad t) :
    ∀ {as : List α} {s t : σ}, Inv s → Good s → run step s as = some t →
      Along step ok s as ∧ Good t ∨ ¬ Along step ok s as ∧ Bad t := by
  intro as
  induction as with
  | nil =>
      intro s t _ hs h
      rw [run_nil, Option.some.injEq] at h
      exact .inl ⟨trivial, h ▸ hs⟩
  | cons a as ih =>
      intro s t hi hs h
      obtain ⟨u, hu, h⟩ := run_cons_eq_some.mp h
      rw [along_cons_iff hu]
      by_cases hok : ok s a
      · rcases ih (hinv s a u hi hu) (hgood s a u hi hs hok hu) h with ⟨has, ht⟩ | ⟨has, ht⟩
        · exact .inl ⟨⟨hok, has⟩, ht⟩
        · exact .inr ⟨fun h => has h.2, ht⟩
      · exact .inr ⟨fun h => hok h.1, run_invariant hstay (hbad s a u hi hs hok hu) h⟩

/-- A run ends in a good state exactly when all its steps meet `ok`. -/
theorem good_iff_along {Inv Good Bad : σ → Prop} {ok : σ → α → Prop}
    (hinv : ∀ s a t, Inv s → step s a = some t → Inv t)
    (hgood : ∀ s a t, Inv s → Good s → ok s a → step s a = some t → Good t)
    (hbad : ∀ s a t, Inv s → Good s → ¬ ok s a → step s a = some t → Bad t)
    (hstay : ∀ s a t, Bad s → step s a = some t → Bad t) (hnot : ∀ s, Bad s → ¬ Good s)
    {as : List α} {s t : σ} (hi : Inv s) (hs : Good s) (h : run step s as = some t) :
    Good t ↔ Along step ok s as := by
  rcases along_and_good_or_bad hinv hgood hbad hstay hi hs h with ⟨has, ht⟩ | ⟨has, ht⟩
  · exact iff_of_true ht has
  · exact iff_of_false (hnot t ht) has

end Run

/-! ## Machines that answer -/

variable {ι ο : Type*}

/-- The answers to the inputs `is`, in order, and the state after them. -/
def trace (step : σ → ι → ο × σ) : σ → List ι → List ο × σ
  | s, [] => ([], s)
  | s, i :: is => ((step s i).1 :: (trace step (step s i).2 is).1, (trace step (step s i).2 is).2)

/-- Two machines that answer alike from related states answer every sequence of inputs alike. -/
theorem trace_refines {step : σ → ι → ο × σ} {step' : τ → ι → ο × τ} {R : σ → τ → Prop}
    (hstep : ∀ s t i, R s t → (step s i).1 = (step' t i).1 ∧ R (step s i).2 (step' t i).2) :
    ∀ (is : List ι) {s : σ} {t : τ}, R s t →
      (trace step s is).1 = (trace step' t is).1 ∧ R (trace step s is).2 (trace step' t is).2 := by
  intro is
  induction is with
  | nil => exact fun h => ⟨rfl, h⟩
  | cons i is ih =>
      intro s t h
      obtain ⟨heq, hR⟩ := hstep s t i h
      obtain ⟨heqs, hRs⟩ := ih hR
      exact ⟨by rw [trace, trace, heq, heqs], hRs⟩

end Fipper.Lib
