import Fipper.Server.Threads

/-!
# The objects of a connection

While `m_handleRequest` hands a connection over, the accept loop has its variable `clientSocketWithError` and a job
is there for the connection. Both are told from the state of the threads.

* `Returning` : `m_handleRequest` has pushed the job and not returned;
* `HasClient`, `HasJob` : the objects that are there;
* `Settled` : what holds between two steps, `settled_step`;
* `Step.hasClient_iff`, `Inv.hasJob_iff`, `Step.handled_iff` : what a step does to them;
* `Inv.hasJob_iff_at` : where the job of a connection is.
-/

namespace Fipper

open Lib

namespace ServerThreads
variable {E V : Type} [RouteStringExtractor E V] {B R : Type}
variable {endpoints : List (Entry E (Callback V B R))} {comesBack : Bool}
variable {s t : ServerThreads} {a : Action} {connection : Nat}

/-- `m_handleRequest` has pushed the job of a connection and not returned. -/
def Returning (s : ServerThreads) (connection : Nat) : Prop :=
  s.scheduler.producers 0 = .pushed ∧ connection + 1 = s.accepted

/-- `clientSocketWithError` is there for a connection. -/
def HasClient (s : ServerThreads) (connection : Nat) : Prop :=
  (∃ point, s.point = .serving connection point) ∨ s.Returning connection

/-- A job is there for a connection: in the hands of `m_handleRequest`, in a ring or with a worker. -/
def HasJob (s : ServerThreads) (connection : Nat) : Prop :=
  .request connection ∈ s.scheduler.log.offered ∧ .request connection ∉ s.scheduler.log.executed ∧
    (.request connection ∈ s.scheduler.log.rejected → s.Returning connection)

/-- The thread in `run` has made the jobs, each while it serves the connection. -/
structure Settled (s : ServerThreads) : Prop where
  latest : ∀ connection point, s.point = .serving connection point → connection + 1 = s.accepted
  known : ∀ connection, .request connection ∈ s.scheduler.log.offered → connection < s.accepted
  returning : s.scheduler.producers 0 = .pushed → 0 < s.accepted ∧ ∀ connection,
    (∀ point, s.point ≠ .serving connection point) ∧
      (connection + 1 = s.accepted → .request connection ∈ s.scheduler.log.offered)
  refused : ∀ connection, .request connection ∈ s.scheduler.log.rejected → ∀ point,
    s.point ≠ .serving connection point

/-! ### What a step does to the jobs -/

theorem Step.offered_iff (h : Step endpoints comesBack s a t) (connection : Nat) :
    .request connection ∈ t.scheduler.log.offered ↔
      .request connection ∈ s.scheduler.log.offered ∨
        (a = .guard ∧ ∃ point, s.point = .serving connection point) := by
  have hsame {job : Work Nat} (ha : ¬ (a = .guard ∧ ∃ point, s.point = .serving connection point)) :
      (job ∈ s.scheduler.log.offered ↔ job ∈ s.scheduler.log.offered ∨
        (a = .guard ∧ ∃ point, s.point = .serving connection point)) := by simp [ha]
  cases h with
  | own => exact hsame nofun
  | signal => exact hsame nofun
  | @guard connection' request scheduler hpoint hscheduler =>
      show _ ∈ scheduler.log.offered ↔ _
      rw [(Scheduler.step_cases hscheduler).offered, List.mem_cons, or_comm, hpoint]
      simp [eq_comm]
  | @push connection' request scheduler hpoint hscheduler =>
      show _ ∈ scheduler.log.offered ↔ _
      rw [(Scheduler.step_cases hscheduler).offered]
      exact hsame nofun
  | @offer p priority awaiter scheduler hne hscheduler =>
      show _ ∈ scheduler.log.offered ↔ _
      rw [(Scheduler.step_cases hscheduler).offered]
      simp
  | @thread action scheduler handled hother hends hscheduler =>
      show _ ∈ scheduler.log.offered ↔ _
      have hoffered := (Scheduler.step_cases hscheduler).offered
      cases action with
      | offer p priority job => cases hother
      | _ =>
        rw [hoffered]
        exact hsame nofun

theorem Step.executed_iff (h : Step endpoints comesBack s a t) (connection : Nat) :
    .request connection ∈ t.scheduler.log.executed ↔ .request connection ∈ s.scheduler.log.executed ∨
      ∃ w, a = .thread (.finish w) ∧ s.scheduler.workers w = .working (.request connection) := by
  have hsame {b : Scheduler.Action (Work Nat)} {scheduler : Scheduler (Work Nat)}
      (hstep : s.scheduler.step b = some scheduler) (hb : ∀ w, b ≠ .finish w) :
      scheduler.log.executed = s.scheduler.log.executed := by
    rcases (Scheduler.step_cases hstep).executed with ⟨w, job, heq, -⟩ | ⟨-, hexecuted⟩
    · exact absurd heq (hb w)
    · exact hexecuted
  cases h with
  | own => simp [setLoop]
  | signal => simp
  | @guard connection' request scheduler hpoint hscheduler =>
      show _ ∈ scheduler.log.executed ↔ _
      rw [hsame hscheduler nofun]
      simp
  | @push connection' request scheduler hpoint hscheduler =>
      show _ ∈ scheduler.log.executed ↔ _
      rw [hsame hscheduler nofun]
      simp
  | @offer p priority awaiter scheduler hne hscheduler =>
      show _ ∈ scheduler.log.executed ↔ _
      rw [hsame hscheduler nofun]
      simp
  | @thread action scheduler handled hother hends hscheduler =>
      show _ ∈ scheduler.log.executed ↔ _
      rcases (Scheduler.step_cases hscheduler).executed with ⟨w, job, rfl, hw, hexecuted⟩ | ⟨hne, hexecuted⟩
      · rw [hexecuted, List.mem_cons, or_comm]
        refine or_congr_right ⟨?_, ?_⟩
        · rintro rfl
          exact ⟨w, rfl, hw⟩
        · rintro ⟨w', heq, hw'⟩
          obtain rfl := Scheduler.Action.finish.inj (Action.thread.inj heq)
          rw [hw] at hw'
          exact (WorkerPoint.working.inj hw').symm
      · rw [hexecuted]
        refine (or_iff_left ?_).symm
        rintro ⟨w, heq, -⟩
        exact hne w (Action.thread.inj heq)

/-- Nothing but the end of `m_handleRequest` moves producer 0. -/
theorem elsewhere_cases {s t : Scheduler (Work Nat)} {action : Scheduler.Action (Work Nat)} (h : s.step action = some t)
    (hother : action.elsewhere = true) :
    (action = .release 0 ∧ s.producers 0 = .pushed ∧ t.producers 0 = .outside) ∨
      ((∀ p, action = .release p → p ≠ 0) ∧ t.producers 0 = s.producers 0) := by
  cases Scheduler.step_cases h with
  | offer hp hm hnew => cases hother
  | @push p priority job hp =>
      have hne : p ≠ 0 := by simpa [Scheduler.Action.elsewhere] using hother
      exact .inr ⟨nofun, Function.update_of_ne hne.symm _ _⟩
  | @release p hp =>
      by_cases hzero : p = 0
      · subst hzero
        exact .inl ⟨rfl, hp, by rw [Scheduler.moveProducer_producers, Function.update_self]⟩
      · refine .inr ⟨fun p' heq => ?_, Function.update_of_ne (Ne.symm hzero) _ _⟩
        rwa [← Scheduler.Action.release.inj heq]
  | _ => exact .inr ⟨nofun, rfl⟩

/-- Only the push of `m_handleRequest` has a connection's job refused. -/
theorem Inv.rejected (hs : Inv endpoints comesBack s) (h : Step endpoints comesBack s a t) (connection : Nat) :
    (.request connection ∈ s.scheduler.log.rejected → .request connection ∈ t.scheduler.log.rejected) ∧
      (.request connection ∈ t.scheduler.log.rejected → .request connection ∈ s.scheduler.log.rejected ∨
        (a = .push ∧ ∃ point, s.point = .serving connection point)) := by
  have hcases {b : Scheduler.Action (Work Nat)} {scheduler : Scheduler (Work Nat)}
      (hstep : s.scheduler.step b = some scheduler)
      (hpush : ∀ priority, b = .push 0 → s.scheduler.producers 0 = .locked priority (.request connection) →
        a = .push ∧ ∃ point, s.point = .serving connection point) :
      (.request connection ∈ s.scheduler.log.rejected → .request connection ∈ scheduler.log.rejected) ∧
        (.request connection ∈ scheduler.log.rejected → .request connection ∈ s.scheduler.log.rejected ∨
          (a = .push ∧ ∃ point, s.point = .serving connection point)) := by
    have hiff := (Scheduler.step_cases hstep).rejected_iff (.request connection)
    refine ⟨fun hmem => hiff.mpr (.inl hmem), fun hmem => (hiff.mp hmem).imp_right ?_⟩
    rintro ⟨p, priority, rfl, hp, -⟩
    obtain rfl := hs.foreign p priority connection hp
    exact hpush priority rfl hp
  cases h with
  | own => exact ⟨id, .inl⟩
  | signal => exact ⟨id, .inl⟩
  | guard hpoint hscheduler => exact hcases hscheduler nofun
  | push hpoint hscheduler =>
      refine hcases hscheduler fun priority _ hp => ?_
      obtain ⟨hlocked, -⟩ := hs.push hpoint hscheduler
      rw [hp] at hlocked
      obtain ⟨-, hjob⟩ := ProducerPoint.locked.inj hlocked
      obtain rfl := Work.request.inj hjob
      exact ⟨rfl, _, hpoint⟩
  | offer hne hscheduler => exact hcases hscheduler nofun
  | thread hother hends hscheduler =>
      refine hcases hscheduler fun priority heq hp => ?_
      rw [heq] at hother
      cases hother

/-- `m_handleRequest` is between its push and its end. -/
theorem Step.pushed_iff (h : Step endpoints comesBack s a t) :
    t.scheduler.producers 0 = .pushed ↔
      a = .push ∨ (s.scheduler.producers 0 = .pushed ∧ a ≠ .thread (.release 0)) := by
  cases h with
  | own => simp [setLoop]
  | signal => simp
  | @guard connection request scheduler hpoint hscheduler =>
      cases Scheduler.step_cases hscheduler with
      | offer hp hm hnew => simp [hp]
  | @push connection request scheduler hpoint hscheduler =>
      cases Scheduler.step_cases hscheduler with
      | push hp => simp [Scheduler.pushJob]
  | @offer p priority awaiter scheduler hne hscheduler =>
      cases Scheduler.step_cases hscheduler with
      | offer hp hm hnew => simp [Function.update_of_ne hne.symm]
  | @thread action scheduler handled hother hends hscheduler =>
      show scheduler.producers 0 = .pushed ↔ _
      rcases elsewhere_cases hscheduler hother with ⟨rfl, -, hp⟩ | ⟨hne, hp⟩
      · simp [hp]
      · rw [hp]
        have hne : action ≠ .release 0 := fun heq => hne 0 heq rfl
        simp [hne]

theorem Step.pushed_of_release (h : Step endpoints comesBack s (.thread (.release 0)) t) :
    s.scheduler.producers 0 = .pushed := by
  cases h with
  | thread hother hends hscheduler =>
      cases Scheduler.step_cases hscheduler with
      | release hp => exact hp

theorem settled_start : start.Settled where
  latest := nofun
  known := nofun
  returning := nofun
  refused := nofun

theorem accepted_handle (s : Running) (connection : Nat) (request : Str) :
    (s.handle connection request).accepted = s.accepted := by
  rw [Running.handle_eq]
  dsimp only
  split_ifs <;> rfl

theorem not_serving_handle (s : Running) (connection : Nat) (request : Str) (connection' : Nat) (point : Serving) :
    (s.handle connection request).point ≠ .serving connection' point := by
  rw [Running.handle_eq]
  dsimp only
  split_ifs <;> nofun

theorem accepted_own {s t : Running} {action : Running.Action} (hown : action.own = true)
    (h : s.step action = some t) : s.accepted ≤ t.accepted := by
  cases Running.step_cases h with
  | accepted poll accepted free => exact Nat.le_succ _
  | called connection point call result serving next => rcases result with errors | _ | point <;> exact le_rfl
  | handled connection request serving => cases hown
  | _ => exact le_rfl

theorem Step.accepted_le (h : Step endpoints comesBack s a t) : s.accepted ≤ t.accepted := by
  cases h with
  | own hown hfree hloop => exact accepted_own hown hloop
  | @push connection request scheduler hpoint hscheduler => exact (accepted_handle s.loop connection request).ge
  | _ => exact le_rfl

/-! ### The job of a connection -/

/-- A job that is about to be pushed was not refused. -/
theorem Inv.not_rejected (hs : Inv endpoints comesBack s) {priority : JobPriority}
    (hp : s.scheduler.producers 0 = .locked priority (.request connection)) :
    .request connection ∉ s.scheduler.log.rejected := by
  obtain ⟨-, lists, place, ha⟩ := hs.valid
  obtain ⟨hnone, -⟩ := ha.pending 0 (.request connection) (by rw [hp]; rfl)
  intro hrejected
  rw [(ha.place_iff .refused _).mp hrejected] at hnone
  cases hnone

theorem Inv.offered_of_rejected (hs : Inv endpoints comesBack s)
    (h : .request connection ∈ s.scheduler.log.rejected) : .request connection ∈ s.scheduler.log.offered := by
  obtain ⟨-, lists, place, ha⟩ := hs.valid
  by_contra hnot
  have hrefused := (ha.place_iff .refused _).mp h
  rw [ha.unplaced _ hnot] at hrefused
  cases hrefused

theorem Inv.not_executed (hs : Inv endpoints comesBack s)
    (h : .request connection ∈ s.scheduler.log.rejected) : .request connection ∉ s.scheduler.log.executed :=
  List.count_eq_zero.mp (hs.valid.dropped h).2.2

theorem Step.guard_fresh (h : Step endpoints comesBack s .guard t) {point : Serving}
    (hpoint : s.point = .serving connection point) : .request connection ∉ s.scheduler.log.offered := by
  cases h with
  | guard hpoint' hscheduler =>
      rw [hpoint] at hpoint'
      obtain ⟨rfl, -⟩ := RunPoint.serving.inj hpoint'
      cases Scheduler.step_cases hscheduler with
      | offer hp hm hnew => exact hnew

theorem Step.not_pushed {action : Running.Action} (h : Step endpoints comesBack s (.own action) t) :
    s.scheduler.producers 0 ≠ .pushed := by
  intro hpushed
  cases h with
  | own hown hfree hloop =>
      rw [hpushed] at hfree
      cases hfree

theorem Step.accepted_eq (h : Step endpoints comesBack s a t) (ha : a = .push ∨ s.scheduler.producers 0 = .pushed) :
    t.accepted = s.accepted := by
  have hfree : ∀ action, a = .own action → s.scheduler.producers 0 ≠ .pushed := by
    rintro action rfl
    exact h.not_pushed
  cases h with
  | own => exact absurd (ha.resolve_left nofun) (hfree _ rfl)
  | @push connection request scheduler hpoint hscheduler => exact accepted_handle s.loop connection request
  | _ => rfl

theorem settled_step (hs : Inv endpoints comesBack s) (h : s.Settled)
    (hledger : ∃ custody, Running.Ledger t.loop custody) (hstep : step endpoints comesBack s a = some t) :
    t.Settled := by
  obtain ⟨custody, hledger⟩ := hledger
  have hcases := step_cases hstep
  refine ⟨hledger.latest, fun connection hoffered => ?_, fun hpushed => ?_,
    fun connection hrejected point hpoint => ?_⟩
  · refine lt_of_lt_of_le ?_ hcases.accepted_le
    rcases (hcases.offered_iff connection).mp hoffered with hoffered | ⟨-, point, hpoint⟩
    · exact h.known connection hoffered
    · exact Nat.lt_of_succ_le (h.latest connection point hpoint).le
  · rcases hcases.pushed_iff.mp hpushed with rfl | ⟨hpushed, -⟩
    · cases hcases with
      | @push connection request scheduler hpoint hscheduler =>
          obtain ⟨hlocked, -⟩ := hs.push hpoint hscheduler
          have hlatest : connection + 1 = s.accepted := h.latest _ _ hpoint
          have haccepted : (s.loop.handle connection request).accepted = s.accepted := accepted_handle s.loop _ _
          obtain ⟨-, lists, place, ha⟩ := hs.valid
          have hoffered := (ha.pending 0 (.request connection) (by rw [hlocked]; rfl)).2
          refine ⟨?_, fun connection' =>
            ⟨not_serving_handle s.loop connection request connection', fun hlast => ?_⟩⟩
          · show 0 < (s.loop.handle connection request).accepted
            omega
          · change connection' + 1 = (s.loop.handle connection request).accepted at hlast
            obtain rfl : connection' = connection := by omega
            show _ ∈ scheduler.log.offered
            rw [(Scheduler.step_cases hscheduler).offered]
            exact hoffered
    · obtain ⟨hpos, hserving⟩ := h.returning hpushed
      have haccepted := hcases.accepted_eq (.inr hpushed)
      refine ⟨haccepted ▸ hpos, fun connection => ⟨?_, fun hlast => ?_⟩⟩
      · have hfree : ∀ action, a ≠ .own action := by
          rintro action rfl
          exact hcases.not_pushed hpushed
        cases hcases with
        | own => exact absurd rfl (hfree _)
        | push hpoint hscheduler => exact absurd hpoint ((hserving _).1 _)
        | _ => exact (hserving connection).1
      · exact (hcases.offered_iff connection).mpr (.inl ((hserving connection).2 (hlast.trans haccepted)))
  · rcases (hs.rejected hcases connection).2 hrejected with hrefused | ⟨rfl, -⟩
    · have hknown := h.known connection (hs.offered_of_rejected hrefused)
      have hlatest : connection + 1 = t.accepted := hledger.latest connection point hpoint
      have hle := hcases.accepted_le
      cases hcases with
      | @own action loop hown hfree hloop =>
          rcases Running.serving_step hloop hpoint with ⟨connection', point', hpoint'⟩ | haccepted
          · have hlatest' : connection' + 1 = s.accepted := h.latest connection' point' hpoint'
            obtain rfl : connection' = connection := by omega
            exact h.refused connection' hrefused point' hpoint'
          · have haccepted : (s.setLoop loop).accepted = s.accepted + 1 := haccepted
            omega
      | @push connection' request scheduler hpoint' hscheduler =>
          exact not_serving_handle s.loop connection' request connection point hpoint
      | _ => exact h.refused connection hrefused point hpoint
    · cases hcases with
      | @push connection' request scheduler hpoint' hscheduler =>
          exact not_serving_handle s.loop connection' request connection point hpoint

/-- A job is there from the guard of its connection on, until it has been executed, or `m_handleRequest`
returns after it was refused. -/
theorem Inv.hasJob_iff (hs : Inv endpoints comesBack s) (hsettled : s.Settled)
    (h : Step endpoints comesBack s a t) (connection : Nat) :
    t.HasJob connection ↔
      (s.HasJob connection ∨ (a = .guard ∧ ∃ point, s.point = .serving connection point)) ∧
      (∀ w, a = .thread (.finish w) → s.scheduler.workers w ≠ .working (.request connection)) ∧
      (a = .thread (.release 0) → .request connection ∉ s.scheduler.log.rejected) := by
  obtain ⟨hkept, hrejected⟩ := hs.rejected h connection
  constructor
  · rintro ⟨hoffered, hexecuted, hreturning⟩
    rw [h.executed_iff, not_or] at hexecuted
    refine ⟨?_, fun w ha hw => hexecuted.2 ⟨w, ha, hw⟩, fun ha hmem => ?_⟩
    · refine ((h.offered_iff connection).mp hoffered).imp_left fun hoffered =>
        ⟨hoffered, hexecuted.1, fun hmem => ?_⟩
      obtain ⟨hpushed, hlast⟩ := hreturning (hkept hmem)
      rcases h.pushed_iff.mp hpushed with rfl | ⟨hpushed, -⟩
      · -- the job that is pushed is for the latest connection, and was not refused before
        cases h with
        | @push connection' request scheduler hpoint hscheduler =>
            obtain ⟨hlocked, -⟩ := hs.push hpoint hscheduler
            have hlast : connection + 1 = (s.loop.handle connection' request).accepted := hlast
            rw [accepted_handle] at hlast
            have hlatest : connection' + 1 = s.loop.accepted := hsettled.latest _ _ hpoint
            obtain rfl : connection = connection' := by omega
            exact absurd hmem (hs.not_rejected hlocked)
      · exact ⟨hpushed, hlast.trans (h.accepted_eq (.inr hpushed))⟩
    · obtain ⟨hpushed, -⟩ := hreturning (hkept hmem)
      rcases h.pushed_iff.mp hpushed with heq | ⟨-, hne⟩
      · rw [ha] at heq
        cases heq
      · exact hne ha
  · rintro ⟨hjob, hfinish, hrelease⟩
    have hexecuted : .request connection ∉ s.scheduler.log.executed := by
      rcases hjob with hjob | ⟨rfl, point, hpoint⟩
      · exact hjob.2.1
      · exact fun hmem => h.guard_fresh hpoint (hs.valid.offered_of_executed hmem)
    refine ⟨(h.offered_iff connection).mpr (hjob.imp_left And.left), ?_, fun hmem => ?_⟩
    · rw [h.executed_iff, not_or]
      exact ⟨hexecuted, fun ⟨w, ha, hw⟩ => hfinish w ha hw⟩
    · rcases hrejected hmem with hmem | ⟨rfl, point, hpoint⟩
      · rcases hjob with hjob | ⟨rfl, point, hpoint⟩
        · obtain ⟨hpushed, hlast⟩ := hjob.2.2 hmem
          refine ⟨h.pushed_iff.mpr (.inr ⟨hpushed, fun ha => hrelease ha hmem⟩), ?_⟩
          exact hlast.trans (h.accepted_eq (.inr hpushed)).symm
        · exact absurd (hs.offered_of_rejected hmem) (h.guard_fresh hpoint)
      · refine ⟨h.pushed_iff.mpr (.inl rfl), ?_⟩
        exact (hsettled.latest connection point hpoint).trans (h.accepted_eq (.inl rfl)).symm

/-- `clientSocketWithError` is there until `m_handleRequest` returns. -/
theorem Step.hasClient_iff (hsettled : s.Settled) (h : Step endpoints comesBack s a t)
    (hown : ∀ action, a ≠ .own action) (connection : Nat) :
    t.HasClient connection ↔ s.HasClient connection ∧ a ≠ .thread (.release 0) := by
  have hreturning : t.Returning connection ↔ (a = .push ∧ connection + 1 = s.accepted) ∨
      (s.Returning connection ∧ a ≠ .thread (.release 0)) := by
    constructor
    · rintro ⟨hpushed, hlast⟩
      rcases h.pushed_iff.mp hpushed with ha | ⟨hpushed, hne⟩
      · exact .inl ⟨ha, hlast.trans (h.accepted_eq (.inl ha))⟩
      · exact .inr ⟨⟨hpushed, hlast.trans (h.accepted_eq (.inr hpushed))⟩, hne⟩
    · rintro (⟨ha, hlast⟩ | ⟨⟨hpushed, hlast⟩, hne⟩)
      · exact ⟨h.pushed_iff.mpr (.inl ha), hlast.trans (h.accepted_eq (.inl ha)).symm⟩
      · exact ⟨h.pushed_iff.mpr (.inr ⟨hpushed, hne⟩), hlast.trans (h.accepted_eq (.inr hpushed)).symm⟩
  unfold HasClient
  rw [hreturning]
  cases h with
  | own => exact absurd rfl (hown _)
  | signal => simp
  | guard => simp
  | offer => simp
  | @push connection' request scheduler hpoint hscheduler =>
      have hlatest := hsettled.latest _ _ hpoint
      have hserving : ∀ point, (s.loop.handle connection' request).point ≠ .serving connection point :=
        not_serving_handle s.loop connection' request connection
      constructor
      · rintro (⟨point, hp⟩ | ⟨-, hlast⟩ | ⟨hreturn, hne⟩)
        · exact absurd hp (hserving point)
        · obtain rfl : connection = connection' := by omega
          exact ⟨.inl ⟨_, hpoint⟩, nofun⟩
        · exact ⟨.inr hreturn, nofun⟩
      · rintro ⟨⟨point, hp⟩ | hreturn, -⟩
        · exact .inr (.inl ⟨rfl, hsettled.latest _ _ hp⟩)
        · exact .inr (.inr ⟨hreturn, nofun⟩)
  | @thread action scheduler handled hother hends hscheduler =>
      by_cases hrelease : action = .release 0
      · subst hrelease
        rcases elsewhere_cases hscheduler hother with ⟨-, hpushed, -⟩ | ⟨hne, -⟩
        · have hserving := ((hsettled.returning hpushed).2 connection).1
          simp [hserving]
        · exact absurd rfl (hne 0 rfl)
      · simp [hrelease]

/-- What the job of a connection leaves. -/
theorem Step.handled_iff (h : Step endpoints comesBack s a t) (connection : Nat) (handled : Handled) :
    (connection, handled) ∈ t.handled ↔ (connection, handled) ∈ s.handled ∨ ∃ w endpoint,
      a = .thread (.finish w) ∧ s.scheduler.workers w = .working (.request connection) ∧
        Server.handleRequest endpoints comesBack (s.request connection) = .ok (endpoint, handled) := by
  cases h with
  | own => simp [setLoop]
  | signal => simp
  | guard => simp
  | push => simp [setLoop]
  | offer => simp
  | @thread action scheduler new hother hends hscheduler =>
      show _ ∈ new ++ s.handled ↔ _
      rw [List.mem_append, or_comm]
      refine or_congr_right ?_
      cases action with
      | finish w =>
          simp only [ends] at hends
          split at hends
          · next connection' hw =>
              cases hresult : Server.handleRequest endpoints comesBack (s.request connection') with
              | error fault =>
                  rw [hresult] at hends
                  cases hends
              | ok result =>
                  rw [hresult] at hends
                  obtain rfl := Except.ok.inj hends
                  rw [List.mem_singleton]
                  constructor
                  · rintro heq
                    obtain ⟨rfl, rfl⟩ := Prod.mk.inj heq
                    exact ⟨w, result.1, rfl, hw, hresult⟩
                  · rintro ⟨w', endpoint, heq, hw', hresult'⟩
                    obtain rfl := Scheduler.Action.finish.inj (Action.thread.inj heq)
                    rw [hw] at hw'
                    obtain rfl := Work.request.inj (WorkerPoint.working.inj hw')
                    rw [hresult] at hresult'
                    rw [Except.ok.inj hresult']
          · next hne =>
              obtain rfl := Except.ok.inj hends
              refine iff_of_false List.not_mem_nil ?_
              rintro ⟨w', endpoint, heq, hw', -⟩
              obtain rfl := Scheduler.Action.finish.inj (Action.thread.inj heq)
              exact hne connection hw'
      | _ =>
          obtain rfl := Except.ok.inj hends
          exact iff_of_false List.not_mem_nil (by rintro ⟨w, endpoint, heq, -⟩; cases heq)

theorem Step.handled_iff_of_ne (h : Step endpoints comesBack s a t) (hfinish : ∀ w, a ≠ .thread (.finish w))
    (connection : Nat) (handled : Handled) :
    (connection, handled) ∈ t.handled ↔ (connection, handled) ∈ s.handled := by
  rw [h.handled_iff]
  exact or_iff_left fun ⟨w, _, heq, _⟩ => hfinish w heq

/-- A coroutine is left suspended by an endpoint only. -/
theorem not_driving_of_none {request : Str} {handled : Handled}
    (h : Server.handleRequest endpoints comesBack request = .ok (none, handled)) : handled ≠ .driving := by
  unfold Server.handleRequest at h
  obtain ⟨dispatched, -, h⟩ := exists_of_bind_eq_ok h
  cases dispatched with
  | send message =>
      obtain ⟨-, rfl⟩ := Prod.mk.inj (Except.ok.inj h)
      nofun
  | handle endpoint =>
      obtain ⟨result, -, h⟩ := exists_of_bind_eq_ok h
      cases (Prod.mk.inj (Except.ok.inj h)).1

/-- Where the job of a connection is. -/
theorem Inv.hasJob_iff_at (hs : Inv endpoints comesBack s) (hsettled : s.Settled)
    (hledger : ∃ custody, Running.Ledger s.loop custody) (connection : Nat) :
    s.HasJob connection ↔
      (s.At .serving connection ∧ .request connection ∈ s.scheduler.log.offered) ∨ s.At .waiting connection ∨
        s.At .held connection ∨ (s.Returning connection ∧ .request connection ∈ s.scheduler.log.rejected) := by
  obtain ⟨custody, hledger⟩ := hledger
  have haccepted : .request connection ∈ s.scheduler.log.accepted →
      .request connection ∈ s.scheduler.log.offered ∧ .request connection ∉ s.scheduler.log.rejected := by
    intro hmem
    obtain ⟨-, lists, locate, ha⟩ := hs.valid
    obtain ⟨pl, hplace, -⟩ := ha.placed _ hmem
    refine ⟨?_, fun hrejected => hs.valid.not_accepted hrejected hmem⟩
    by_contra hnot
    rw [ha.unplaced _ hnot] at hplace
    cases hplace
  constructor
  · rintro ⟨hoffered, hexecuted, hreturning⟩
    rcases hs.pushed _ hoffered with ⟨p, priority, hp⟩ | hmem | hrejected
    · obtain rfl := hs.foreign p priority connection hp
      obtain ⟨-, connection', request, hpoint, hjob⟩ := hs.locked priority _ hp
      obtain rfl := Work.request.inj hjob
      exact .inl ⟨⟨_, hpoint⟩, hoffered⟩
    · rcases hs.valid.conserved hmem with hqueued | hheld | hdone
      · exact .inr (.inl hqueued)
      · exact .inr (.inr (.inl hheld))
      · exact absurd ((hs.executed_iff connection).mp hdone) hexecuted
    · exact .inr (.inr (.inr ⟨hreturning hrejected, hrejected⟩))
  · rintro (⟨hserving, hoffered⟩ | hqueued | hheld | ⟨hreturning, hrejected⟩)
    · rcases hs.pushed _ hoffered with ⟨p, priority, hp⟩ | hmem | hrejected
      · obtain rfl := hs.foreign p priority connection hp
        refine ⟨hoffered, fun hexecuted => ?_, fun hrejected => absurd hrejected (hs.not_rejected hp)⟩
        obtain ⟨-, lists, locate, ha⟩ := hs.valid
        have hnone := (ha.pending 0 (.request connection) (by rw [hp]; rfl)).1
        rw [(ha.place_iff .done _).mp hexecuted] at hnone
        cases hnone
      · have hcustody := (hledger.has_iff .serving connection).mp hserving
        rw [(hledger.has_iff .handed connection).mp ((hs.mem_handed_iff connection).mpr hmem)] at hcustody
        cases hcustody
      · obtain ⟨point, hpoint⟩ := hserving
        exact absurd hpoint (hsettled.refused connection hrejected point)
    · obtain ⟨hoffered, hnot⟩ := haccepted (hs.valid.accepted_of_queued hs.pushed hqueued)
      exact ⟨hoffered, List.count_eq_zero.mp hqueued.2.2, fun hrejected => absurd hrejected hnot⟩
    · obtain ⟨w, hw, -⟩ := hheld.2.1
      obtain ⟨hoffered, hnot⟩ := haccepted (hs.valid.accepted_of_job hs.pushed hw)
      exact ⟨hoffered, List.count_eq_zero.mp hheld.2.2, fun hrejected => absurd hrejected hnot⟩
    · exact ⟨hs.offered_of_rejected hrejected, hs.not_executed hrejected, fun _ => hreturning⟩

end ServerThreads

end Fipper
