import Fipper.Server.Socket

/-!
# What the sockets hold

The descriptors of the objects of `Sockets`, and those that are open in the process.

* `held` : the descriptor of an object, if it lives;
* `Tidy` : the sockets own their descriptors, and have neither lost one nor taken one from elsewhere;
* `Tidy.destroy`, `Tidy.moveConstruct`, `Tidy.accept` : the members keep it, and what is held after them.
-/

namespace Fipper

open Lib

namespace Sockets

/-- What an object holds, if it lives. -/
def held (s : Sockets) (i : Nat) : Option Int := if s.live i = true then some (s.socket i) else none

/-- The sockets own their descriptors, all that they have opened since is with one of them, and none is with them
that was open before. Descriptor 0 is never closed. -/
structure Tidy (before : Int → Bool) (s : Sockets) : Prop where
  owned : s.Owned
  covered : ∀ fd, 0 < fd → s.isOpen fd = true → before fd = true ∨ ∃ i, s.held i = some fd
  spared : ∀ fd, 0 < fd → before fd = true → s.isOpen fd = true ∧ ∀ i, s.held i ≠ some fd

variable {s : Sockets} {before : Int → Bool} {i j : Nat} {fd : Int}

theorem held_eq_none_iff : s.held i = none ↔ s.live i = false := by
  unfold held
  split_ifs with h
  · simp [h]
  · simp [h]

theorem held_eq_some_iff : s.held i = some fd ↔ s.live i = true ∧ s.socket i = fd := by
  unfold held
  split_ifs with h
  · simp [h]
  · simp [h]

theorem held_destroy (s : Sockets) (i : Nat) : (s.destroy i).held = Function.update s.held i none := by
  have hdestruct : (s.destruct i).socket = s.socket := by
    unfold destruct
    split_ifs <;> rfl
  funext k
  by_cases hk : k = i
  · subst hk
    rw [Function.update_self, held_eq_none_iff]
    exact Function.update_self k _ _
  · rw [Function.update_of_ne hk]
    show (if Function.update s.live i false k = true then some ((s.destruct i).socket k) else none) = s.held k
    rw [Function.update_of_ne hk, hdestruct]
    rfl

theorem held_moveConstruct (hi : s.held i = none) (hj : s.held j = some fd) :
    (s.moveConstruct i j).held = Function.update (Function.update s.held j (some 0)) i (some fd) := by
  obtain ⟨hlive, rfl⟩ := held_eq_some_iff.mp hj
  have hne : i ≠ j := by
    rintro rfl
    rw [hi] at hj
    cases hj
  funext k
  show (if Function.update s.live i true k = true then
    some (Function.update (Function.update s.socket i (s.socket j)) j 0 k) else none) = _
  by_cases hki : k = i
  · subst hki
    rw [Function.update_self, Function.update_self, Function.update_of_ne hne, Function.update_self, if_pos rfl]
  · rw [Function.update_of_ne hki, Function.update_of_ne hki]
    by_cases hkj : k = j
    · subst hkj
      rw [Function.update_self, Function.update_self, if_pos hlive]
    · rw [Function.update_of_ne hkj, Function.update_of_ne hkj, Function.update_of_ne hki]
      rfl

theorem not_held_update {held : Nat → Option Int} {value : Option Int} (hnot : ∀ k, held k ≠ some fd)
    (hvalue : value ≠ some fd) (k : Nat) : Function.update held i value k ≠ some fd := by
  by_cases hk : k = i
  · rw [hk, Function.update_self]
    exact hvalue
  · rw [Function.update_of_ne hk]
    exact hnot k

theorem Tidy.destroy (h : s.Tidy before) (hi : s.held i = some fd) :
    s.step (.destroy i) = some (s.destroy i) ∧ (s.destroy i).Tidy before := by
  obtain ⟨hlive, rfl⟩ := held_eq_some_iff.mp hi
  have hopen : ∀ d, 0 < d → ((s.destroy i).isOpen d = true ↔ s.isOpen d = true ∧ d ≠ s.socket i) := by
    intro d hpos
    show (s.destruct i).isOpen d = true ↔ _
    unfold destruct
    split_ifs with hsocket
    · show Function.update s.isOpen (s.socket i) false d = true ↔ _
      by_cases hd : d = s.socket i
      · simp [hd]
      · simp [hd]
    · have hd : d ≠ s.socket i := by
        rintro rfl
        exact hsocket hpos
      simp [hd]
  refine ⟨if_pos hlive, h.owned.destroy hlive, fun d hpos hd => ?_, fun d hpos hbefore => ?_⟩
  · obtain ⟨hd, hne⟩ := (hopen d hpos).mp hd
    rw [held_destroy]
    refine (h.covered d hpos hd).imp_right ?_
    rintro ⟨k, hk⟩
    have hki : k ≠ i := by
      rintro rfl
      exact hne (held_eq_some_iff.mp hk).2.symm
    exact ⟨k, by rwa [Function.update_of_ne hki]⟩
  · obtain ⟨hd, hnot⟩ := h.spared d hpos hbefore
    refine ⟨(hopen d hpos).mpr ⟨hd, fun heq => hnot i (heq ▸ hi)⟩, ?_⟩
    rw [held_destroy]
    exact not_held_update hnot nofun

theorem Tidy.moveConstruct (h : s.Tidy before) (hi : s.held i = none) (hj : s.held j = some fd) :
    s.step (.moveConstruct i j) = some (s.moveConstruct i j) ∧ (s.moveConstruct i j).Tidy before := by
  have hlive := held_eq_none_iff.mp hi
  have hlive' := (held_eq_some_iff.mp hj).1
  refine ⟨if_pos ⟨hlive, hlive'⟩, h.owned.moveConstruct hlive hlive', fun d hpos hopen => ?_,
    fun d hpos hbefore => ?_⟩
  · refine (h.covered d hpos hopen).imp_right ?_
    rw [held_moveConstruct hi hj]
    rintro ⟨k, hk⟩
    have hki : k ≠ i := by
      rintro rfl
      rw [hi] at hk
      cases hk
    by_cases hkj : k = j
    · subst hkj
      exact ⟨i, by rw [Function.update_self, ← hj, hk]⟩
    · exact ⟨k, by rwa [Function.update_of_ne hki, Function.update_of_ne hkj]⟩
  · obtain ⟨hopen, hnot⟩ := h.spared d hpos hbefore
    refine ⟨hopen, ?_⟩
    rw [held_moveConstruct hi hj]
    refine not_held_update (not_held_update hnot fun heq => ?_) fun heq => hnot j (hj.trans heq)
    rw [Option.some.injEq] at heq
    omega

theorem held_construct (s : Sockets) (i : Nat) (fd : Int) :
    (s.construct i fd).held = Function.update s.held i (some fd) := by
  funext k
  show (if Function.update s.live i true k = true then some (Function.update s.socket i fd k) else none) = _
  by_cases hk : k = i
  · subst hk
    rw [Function.update_self, Function.update_self, Function.update_self, if_pos rfl]
  · rw [Function.update_of_ne hk, Function.update_of_ne hk, Function.update_of_ne hk]
    rfl

theorem held_set (hi : s.live i = true) (fd : Int) : (s.set i fd).held = Function.update s.held i (some fd) := by
  funext k
  show (if s.live k = true then some (Function.update s.socket i fd k) else none) = _
  by_cases hk : k = i
  · subst hk
    rw [Function.update_self, Function.update_self, if_pos hi]
  · rw [Function.update_of_ne hk, Function.update_of_ne hk]
    rfl

theorem held_adopt (hi : s.live i = true) (fd : Int) :
    ((s.opened fd).set i fd).held = Function.update s.held i (some fd) := by
  have hi : (s.opened fd).live i = true := hi
  exact held_set hi fd

/-- What is held elsewhere stays held. -/
theorem exists_held_update {held : Nat → Option Int} {value : Option Int} (hi : ∀ d, held i = some d → d ≤ 0)
    (hpos : 0 < fd) (h : ∃ k, held k = some fd) : ∃ k, Function.update held i value k = some fd := by
  obtain ⟨k, hk⟩ := h
  have hne : k ≠ i := by
    rintro rfl
    exact absurd (hi fd hk) (by omega)
  exact ⟨k, by rwa [Function.update_of_ne hne]⟩

theorem Tidy.construct (h : s.Tidy before) (hi : s.held i = none) : (s.construct i 0).Tidy before := by
  refine ⟨h.owned.construct (vacant_of_nonpos le_rfl), fun d hpos hopen => ?_, fun d hpos hbefore => ?_⟩
  · rw [held_construct]
    exact (h.covered d hpos hopen).imp_right (exists_held_update (by rw [hi]; nofun) hpos)
  · obtain ⟨hopen, hnot⟩ := h.spared d hpos hbefore
    refine ⟨hopen, ?_⟩
    rw [held_construct]
    exact not_held_update hnot fun heq => by rw [Option.some.injEq] at heq; omega

theorem Tidy.set (h : s.Tidy before) (hi : s.held i = some 0) (fd : Int) (hfd : fd ≤ 0) :
    (s.set i fd).Tidy before := by
  refine ⟨h.owned.set hfd, fun d hpos hopen => ?_, fun d hpos hbefore => ?_⟩
  · rw [held_set (held_eq_some_iff.mp hi).1]
    exact (h.covered d hpos hopen).imp_right
      (exists_held_update (fun d hd => by rw [hi, Option.some.injEq] at hd; omega) hpos)
  · obtain ⟨hopen, hnot⟩ := h.spared d hpos hbefore
    refine ⟨hopen, ?_⟩
    rw [held_set (held_eq_some_iff.mp hi).1]
    exact not_held_update hnot fun heq => by rw [Option.some.injEq] at heq; omega

theorem Tidy.adopt (h : s.Tidy before) (hi : s.held i = some 0) (hnew : s.isOpen fd = false) :
    ((s.opened fd).set i fd).Tidy before := by
  refine ⟨h.owned.adopt hnew, fun d hpos hopen => ?_, fun d hpos hbefore => ?_⟩
  · rw [held_adopt (held_eq_some_iff.mp hi).1]
    by_cases hd : d = fd
    · exact .inr ⟨i, by rw [Function.update_self, hd]⟩
    · change Function.update s.isOpen fd true d = true at hopen
      rw [Function.update_of_ne hd] at hopen
      exact (h.covered d hpos hopen).imp_right
        (exists_held_update (fun d hd => by rw [hi, Option.some.injEq] at hd; omega) hpos)
  · obtain ⟨hopen, hnot⟩ := h.spared d hpos hbefore
    have hd : d ≠ fd := by
      rintro rfl
      rw [hnew] at hopen
      cases hopen
    refine ⟨(Function.update_of_ne hd _ _).trans hopen, ?_⟩
    rw [held_adopt (held_eq_some_iff.mp hi).1]
    exact not_held_update hnot fun heq => hd (Option.some.inj heq).symm

/-- What the objects hold after `accept`. -/
def heldAfter (s : Sockets) (result : Nat) : Acceptance → Nat → Option Int
  | ⟨some true, some fd⟩ => Function.update s.held result (some fd)
  | _ => s.held

theorem Tidy.accept (h : s.Tidy before) {socket result : Nat} (hi : s.held i = some fd)
    (hsocket : s.held socket = none) (hresult : s.held result = none) (hne : result ≠ socket)
    (acceptance : Acceptance) (hsystem : s.HandsOut acceptance.accepted) :
    s.step (.accept i socket result acceptance) = some (s.accept socket result acceptance).2 ∧
      (s.accept socket result acceptance).2.Tidy before ∧
      (s.accept socket result acceptance).2.held = s.heldAfter result acceptance := by
  refine ⟨if_pos ⟨(held_eq_some_iff.mp hi).1, held_eq_none_iff.mp hsocket, held_eq_none_iff.mp hresult, hne,
    hsystem⟩, ?_⟩
  have hlocal : (s.construct socket 0).held socket = some 0 := by rw [held_construct, Function.update_self]
  have htidy := h.construct hsocket
  obtain ⟨dataToRecieve, accepted⟩ := acceptance
  rcases dataToRecieve with _ | _ | _
  · exact ⟨h, rfl⟩
  · exact ⟨h, rfl⟩
  · cases accepted with
    | none =>
        have hset := htidy.set hlocal (-1) (by decide)
        have hheld := held_set (held_eq_some_iff.mp hlocal).1 (-1)
        have hlocal' : ((s.construct socket 0).set socket (-1)).held socket = some (-1) := by
          rw [hheld, Function.update_self]
        refine ⟨(hset.destroy hlocal').2, ?_⟩
        show (((s.construct socket 0).set socket (-1)).destroy socket).held = s.held
        rw [held_destroy, hheld, held_construct, Function.update_idem, Function.update_idem, ← hsocket,
          Function.update_eq_self]
    | some descriptor =>
        have hadopt := htidy.adopt hlocal (hsystem descriptor rfl).2
        have hheld := held_adopt (held_eq_some_iff.mp hlocal).1 descriptor
        rw [held_construct, Function.update_idem] at hheld
        have hsome : (((s.construct socket 0).opened descriptor).set socket descriptor).held socket =
            some descriptor := by rw [hheld, Function.update_self]
        have hnone : (((s.construct socket 0).opened descriptor).set socket descriptor).held result = none := by
          rw [hheld, Function.update_of_ne hne, hresult]
        have hmove := (hadopt.moveConstruct hnone hsome).2
        have hmoved := held_moveConstruct hnone hsome
        rw [hheld, Function.update_idem] at hmoved
        have hleft : ((((s.construct socket 0).opened descriptor).set socket descriptor).moveConstruct result
            socket).held socket = some 0 := by
          rw [hmoved, Function.update_of_ne hne.symm, Function.update_self]
        refine ⟨(hmove.destroy hleft).2, ?_⟩
        · refine (held_destroy _ _).trans ?_
          rw [hmoved, Function.update_comm hne.symm, Function.update_idem]
          exact Function.update_eq_self_iff.mpr (by rw [Function.update_of_ne hne.symm, hsocket])

end Sockets

end Fipper
