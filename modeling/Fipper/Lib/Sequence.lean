import Mathlib.Data.List.Destutter
import Mathlib.Data.List.Forall2
import Mathlib.Data.List.Nodup

/-!
# Sequences of events

`l.destutter (· ≠ ·)` keeps one element of each run of equal elements of `l`. What is left has no
element twice exactly when `l` never comes back to a value it has left (`nodup_destutter_iff`). The last
element that satisfies `p` is the first of the reversed list (`exists_last_iff`). A map that can fail gives
the list of the values it has on the elements, if it has one on each (`mapM_eq_ok_iff`). Where no key comes
twice, the pairs with a key are one (`filter_key`); in general `ofKey` is what stands under a key, and a
lookup finds the first of it (`lookup_map`).
-/

namespace Fipper.Lib

variable {α : Type*}

/-- The last element with `p` has `q`: there is one with `p`, and each has `q` or one with both behind
it. -/
theorem exists_last_iff {p : α → Bool} {q : α → Prop} {l : List α} :
    (∃ a, l.reverse.find? p = some a ∧ q a) ↔
      (∃ a ∈ l, p a = true) ∧ ∀ before a after, l = before ++ a :: after → p a = true →
        q a ∨ ∃ b ∈ after, p b = true ∧ q b := by
  constructor
  · rintro ⟨last, hlast, hq⟩
    refine ⟨⟨last, List.mem_reverse.mp (List.mem_of_find?_eq_some hlast), List.find?_some hlast⟩, ?_⟩
    rintro before a after rfl ha
    rw [List.reverse_append, List.reverse_cons, List.append_assoc, List.find?_append] at hlast
    cases hafter : after.reverse.find? p with
    | none =>
        rw [hafter, Option.none_or, List.singleton_append, List.find?_cons_of_pos ha] at hlast
        obtain rfl := Option.some.inj hlast
        exact .inl hq
    | some b =>
        rw [hafter, Option.some_or] at hlast
        obtain rfl := Option.some.inj hlast
        exact .inr ⟨b, List.mem_reverse.mp (List.mem_of_find?_eq_some hafter), List.find?_some hafter, hq⟩
  · rintro ⟨⟨a, hmem, ha⟩, hall⟩
    have hsome : (l.reverse.find? p).isSome = true :=
      List.find?_isSome.mpr ⟨a, List.mem_reverse.mpr hmem, ha⟩
    obtain ⟨last, hlast⟩ := Option.isSome_iff_exists.mp hsome
    obtain ⟨hp, after, before, hsplit, hnone⟩ := List.find?_eq_some_iff_append.mp hlast
    have hsplit : l = before.reverse ++ last :: after.reverse := by
      rw [← List.reverse_reverse l, hsplit]
      simp
    refine ⟨last, hlast, ?_⟩
    rcases hall _ _ _ hsplit hp with hq | ⟨b, hb, hpb, -⟩
    · exact hq
    · have hnot := hnone b (List.mem_reverse.mp hb)
      rw [hpb] at hnot
      cases hnot

/-! ## Maps that can fail -/

section MapM
variable {β ε : Type*} {f : α → Except ε β} {l : List α} {values : List β}

theorem mapM_eq_ok_iff : l.mapM f = .ok values ↔ List.Forall₂ (fun a b => f a = .ok b) l values := by
  induction l generalizing values with
  | nil =>
      rw [List.mapM_nil, List.forall₂_nil_left_iff]
      exact ⟨fun h => (Except.ok.inj h).symm, fun h => h ▸ rfl⟩
  | cons a l ih =>
      rw [List.mapM_cons, List.forall₂_cons_left_iff]
      constructor
      · intro h
        cases ha : f a with
        | error e => rw [ha] at h; cases h
        | ok b =>
            rw [ha] at h
            cases hl : l.mapM f with
            | error e => rw [hl] at h; cases h
            | ok bs =>
                rw [hl] at h
                exact ⟨b, bs, rfl, ih.mp hl, (Except.ok.inj h).symm⟩
      · rintro ⟨b, bs, ha, hbs, rfl⟩
        rw [ha, ih.mpr hbs]
        rfl

theorem exists_mapM_eq_ok (h : ∀ a ∈ l, ∃ b, f a = .ok b) : ∃ values, l.mapM f = .ok values := by
  induction l with
  | nil => exact ⟨[], rfl⟩
  | cons a l ih =>
      obtain ⟨b, ha⟩ := h a (List.mem_cons_self ..)
      obtain ⟨bs, hl⟩ := ih fun a ha => h a (List.mem_cons_of_mem _ ha)
      exact ⟨b :: bs, mapM_eq_ok_iff.mpr (.cons ha (mapM_eq_ok_iff.mp hl))⟩

theorem exists_of_mapM_eq_ok (h : l.mapM f = .ok values) {a : α} (ha : a ∈ l) : ∃ b, f a = .ok b := by
  replace h := mapM_eq_ok_iff.mp h
  induction h with
  | nil => cases ha
  | cons hb _ ih =>
      rcases List.mem_cons.mp ha with rfl | ha
      · exact ⟨_, hb⟩
      · exact ih ha

theorem mem_of_mapM_eq_ok (h : l.mapM f = .ok values) {b : β} : b ∈ values ↔ ∃ a ∈ l, f a = .ok b := by
  replace h := mapM_eq_ok_iff.mp h
  induction h with
  | nil => simp
  | @cons x y l bs hx _ ih =>
      have hfirst : f x = .ok b ↔ b = y := by
        rw [hx, Except.ok.injEq]
        exact eq_comm
      rw [List.mem_cons, List.exists_mem_cons_iff, hfirst]
      exact or_congr_right ih

/-- Among the values with `p` there is none twice if no two elements have the same. -/
theorem nodup_filter_of_mapM_eq_ok (h : l.mapM f = .ok values) (hl : l.Nodup) {p : β → Bool}
    (hinj : ∀ a ∈ l, ∀ a' ∈ l, ∀ b, p b = true → f a = .ok b → f a' = .ok b → a = a') :
    (values.filter p).Nodup := by
  induction l generalizing values with
  | nil =>
      obtain rfl := List.forall₂_nil_left_iff.mp (mapM_eq_ok_iff.mp h)
      exact List.nodup_nil
  | cons a l ih =>
      obtain ⟨b, bs, hb, hbs, rfl⟩ := List.forall₂_cons_left_iff.mp (mapM_eq_ok_iff.mp h)
      have hrest : (bs.filter p).Nodup := ih (mapM_eq_ok_iff.mpr hbs) hl.of_cons
        fun x hx y hy => hinj x (List.mem_cons_of_mem _ hx) y (List.mem_cons_of_mem _ hy)
      rw [List.filter_cons]
      split
      · next hp =>
          refine List.nodup_cons.mpr ⟨fun hmem => ?_, hrest⟩
          obtain ⟨x, hx, hfx⟩ := (mem_of_mapM_eq_ok (mapM_eq_ok_iff.mpr hbs)).mp (List.mem_of_mem_filter hmem)
          have heq := hinj a (List.mem_cons_self ..) x (List.mem_cons_of_mem _ hx) b hp hb hfx
          exact (List.nodup_cons.mp hl).1 (heq ▸ hx)
      · exact hrest

end MapM

/-! ## Keys -/

section Keys
variable {β : Type*} [DecidableEq α] {l : List (α × β)} {a : α} {b : β}

/-- What stands under a key, in order. -/
def ofKey (a : α) (l : List (α × β)) : List β := (l.filter (·.1 = a)).map Prod.snd

theorem ofKey_nil (a : α) : ofKey a ([] : List (α × β)) = [] := rfl

theorem ofKey_append (a : α) (l l' : List (α × β)) : ofKey a (l ++ l') = ofKey a l ++ ofKey a l' := by
  unfold ofKey
  rw [List.filter_append, List.map_append]

theorem ofKey_cons_self (a : α) (b : β) (l : List (α × β)) : ofKey a ((a, b) :: l) = b :: ofKey a l := by
  simp [ofKey]

theorem ofKey_cons_of_ne {a a' : α} (h : a' ≠ a) (b : β) (l : List (α × β)) :
    ofKey a ((a', b) :: l) = ofKey a l := by
  simp [ofKey, h]

theorem filter_key (hl : (l.map Prod.fst).Nodup) (h : (a, b) ∈ l) :
    l.filter (·.1 = a) = [(a, b)] := by
  obtain ⟨before, after, rfl⟩ := List.append_of_mem h
  have hother : ∀ pair ∈ before ++ after, ¬ decide (pair.1 = a) = true := by
    intro pair hpair heq
    rw [List.map_append, List.map_cons, List.nodup_middle, List.nodup_cons, ← List.map_append] at hl
    have hmem : pair.1 ∈ (before ++ after).map Prod.fst := List.mem_map_of_mem hpair
    rw [of_decide_eq_true heq] at hmem
    exact hl.1 hmem
  have hbefore : before.filter (·.1 = a) = [] :=
    List.filter_eq_nil_iff.mpr fun pair hpair => hother pair (List.mem_append_left _ hpair)
  have hafter : after.filter (·.1 = a) = [] :=
    List.filter_eq_nil_iff.mpr fun pair hpair => hother pair (List.mem_append_right _ hpair)
  have hself : decide ((a, b).1 = a) = true := decide_eq_true rfl
  rw [List.filter_append, List.filter_cons, if_pos hself, hbefore, hafter]
  rfl

end Keys

/-- Looking up a key finds the first element that has it. -/
theorem lookup_map {β κ : Type*} [BEq κ] [LawfulBEq κ] (key : α → κ) (f : α → β)
    (xs : List α) (a : κ) :
    (xs.map fun x => (key x, f x)).lookup a = (xs.find? fun x => key x == a).map f := by
  induction xs with
  | nil => rfl
  | cons x xs ih =>
      rw [List.map_cons, List.lookup_cons, List.find?_cons, BEq.comm (a := key x)]
      cases a == key x with
      | false => exact ih
      | true => rfl

/-! ## Runs -/

/-- Between two occurrences of a value there is no other. -/
def NoReturn (l : List α) : Prop := ∀ a b c, [a, b, c].Sublist l → a = c → b = a

theorem NoReturn.sublist {l l' : List α} (h : NoReturn l) (hsub : l'.Sublist l) : NoReturn l' :=
  fun a b c habc => h a b c (habc.trans hsub)

theorem noReturn_nil : NoReturn ([] : List α) := by
  intro a b c habc
  cases habc

/-- A new element in front is the one the list begins with, or does not occur in it. -/
theorem noReturn_cons_iff {a : α} {l : List α} :
    NoReturn (a :: l) ↔ (l.head? = some a ∨ a ∉ l) ∧ NoReturn l := by
  constructor
  · intro h
    refine ⟨?_, h.sublist (List.sublist_cons_self a l)⟩
    by_contra hnot
    rw [not_or, not_not] at hnot
    obtain ⟨hhead, hmem⟩ := hnot
    cases l with
    | nil => exact absurd hmem List.not_mem_nil
    | cons b l =>
        have hne : b ≠ a := fun hba => hhead (congrArg some hba)
        have hmem : a ∈ l := (List.mem_cons.mp hmem).resolve_left hne.symm
        apply hne
        exact h a b a (((List.singleton_sublist.mpr hmem).cons_cons b).cons_cons a) rfl
  · rintro ⟨hfront, h⟩ x y z hsub rfl
    rcases List.sublist_cons_iff.mp hsub with hsub | ⟨r, hr, hsub⟩
    · exact h x y x hsub rfl
    · obtain ⟨rfl, rfl⟩ := List.cons.inj hr
      have hmem : x ∈ l := hsub.subset (List.mem_cons_of_mem _ List.mem_cons_self)
      have hhead := hfront.resolve_right (not_not.mpr hmem)
      obtain ⟨l, rfl⟩ := List.head?_eq_some_iff.mp hhead
      rcases List.sublist_cons_iff.mp hsub with hsub | ⟨r, hr, -⟩
      · exact h x y x (hsub.cons_cons x) rfl
      · exact (List.cons.inj hr).1

variable [DecidableEq α]

/-- The front of a list, when runs are cut down to one element. -/
theorem destutter_cons (a : α) (l : List α) :
    (a :: l).destutter (· ≠ ·) =
      if l.head? = some a then l.destutter (· ≠ ·) else a :: l.destutter (· ≠ ·) := by
  cases l with
  | nil => rfl
  | cons b l =>
      rw [List.destutter_cons_cons, List.destutter_cons', List.head?_cons]
      by_cases hab : a = b
      · rw [if_neg (not_not.mpr hab), if_pos (congrArg some hab.symm), hab]
      · rw [if_pos hab, if_neg fun h => hab (Option.some.inj h).symm]

theorem mem_destutter {a : α} {l : List α} : a ∈ l.destutter (· ≠ ·) ↔ a ∈ l := by
  induction l with
  | nil => rfl
  | cons b l ih =>
      rw [destutter_cons, List.mem_cons]
      by_cases hhead : l.head? = some b
      · rw [if_pos hhead, ih]
        refine ⟨.inr, fun h => h.elim ?_ id⟩
        rintro rfl
        exact List.mem_of_head? hhead
      · rw [if_neg hhead, List.mem_cons, ih]

theorem nodup_destutter_iff {l : List α} : (l.destutter (· ≠ ·)).Nodup ↔ NoReturn l := by
  induction l with
  | nil => exact iff_of_true List.nodup_nil noReturn_nil
  | cons a l ih =>
      rw [destutter_cons, noReturn_cons_iff, ← ih]
      by_cases hhead : l.head? = some a
      · rw [if_pos hhead, and_iff_right (.inl hhead)]
      · rw [if_neg hhead, List.nodup_cons, mem_destutter, or_iff_right hhead]

/-- A list without repetitions, group by group. -/
theorem nodup_map_iff_filter {β : Type*} {f : β → α} (g : α → Nat) {l : List β} :
    (l.map f).Nodup ↔ ∀ n, ((l.filter fun b => g (f b) = n).map f).Nodup := by
  have hgroup : ∀ a, (l.map f).count a = ((l.filter fun b => g (f b) = g a).map f).count a := by
    intro a
    rw [List.count_eq_countP, List.count_eq_countP, List.countP_map, List.countP_map, List.countP_filter]
    apply List.countP_congr
    intro b _
    simp only [Function.comp_apply, beq_iff_eq, Bool.and_eq_true, decide_eq_true_eq]
    refine ⟨fun h => ⟨h, congrArg g h⟩, And.left⟩
  constructor
  · exact fun h n => h.sublist (List.filter_sublist.map f)
  · intro h
    rw [List.nodup_iff_count_le_one]
    intro a
    rw [hgroup]
    exact List.nodup_iff_count_le_one.mp (h (g a)) a

end Fipper.Lib
