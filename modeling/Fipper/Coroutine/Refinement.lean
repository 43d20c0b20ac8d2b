import Fipper.Coroutine.Sessions

/-!
# Coroutines and their awaiters

The awaiters on the job queue are modelled twice: `AsyncRuntime` knows them by name and takes the coroutines as given,
`CoroutineRuntime` has the coroutines, and the awaiters at addresses that are used again. Every run of the second is one
of the first, where an awaiter is named by its address and its number. A worker that runs a job ends it, and a handler
that comes to its next await suspends on a new awaiter.

* `Simulates` : a state of the awaiters alone, for one of the coroutines;
* `Simulates.completes`, `Simulates.continues` : completions are followed, and wrappers that run on;
* `completion_refines` : so is every run;
* `accepted_kept` : a resume job that the queue has taken resumes its wrapper once.
-/

namespace Fipper

open Lib

namespace CoroutineRuntime
variable {T S : Type*}

/-- The same scheduler and resumptions; an awaiter that is outstanding has the handle that is found at its address,
and the value once it is completed; those that are still to come have no handle. -/
structure Simulates (s : CoroutineRuntime T S) (u : AsyncRuntime AwaiterRef T) : Prop where
  scheduler : u.scheduler = s.scheduler
  handle : ∀ awaiter, s.Outstanding awaiter → (u.awaiters awaiter).handle = (s.awaiters awaiter.address).handle
  value : ∀ awaiter, s.Pending awaiter → (u.awaiters awaiter).value = (s.awaiters awaiter.address).value
  fresh : ∀ awaiter, s.created ≤ awaiter.serial → (u.awaiters awaiter).handle = none
  resumed : u.resumed.map (fun r => (r.1.serial, r.2)) = s.resumed.map fun r => (r.awaiter, some r.handle)

section
variable {s t : CoroutineRuntime T S} {u : AsyncRuntime AwaiterRef T}

/-- The process of an awaiter completes. -/
theorem Simulates.completes (h : Simulates s u) (hs : Inv s) {p : Nat} {awaiter : AwaiterRef} {value : T}
    (hoffer : s.scheduler.step (.offer p .eResumingJob (.resume awaiter)) = some t.scheduler)
    (hcomp : Completes s awaiter value t) :
    ∃ v, u.step (.complete p awaiter value) = some v ∧ Simulates t v := by
  obtain ⟨handle, -, hhandle⟩ := hs.waits.waiting awaiter (.inl hcomp.started)
  have hsuspended : (u.awaiters awaiter).handle = some handle :=
    (h.handle awaiter (.inl hcomp.started)).trans hhandle
  let awaiters := Function.update u.awaiters awaiter ⟨value, some handle⟩
  have hself : awaiters awaiter = ⟨value, some handle⟩ := Function.update_self ..
  have hne : ∀ awaiter', awaiter' ≠ awaiter → awaiters awaiter' = u.awaiters awaiter' :=
    fun awaiter' hne => Function.update_of_ne hne _ _
  refine ⟨{ u with scheduler := t.scheduler, awaiters := awaiters }, ?_, rfl, ?_, ?_, ?_, ?_⟩
  · unfold AsyncRuntime.step
    dsimp only
    rw [hsuspended]
    dsimp only
    rw [h.scheduler, hoffer]
    rfl
  · intro awaiter' ho
    rw [hcomp.handle]
    by_cases heq : awaiter' = awaiter
    · rw [heq, hhandle]
      exact congrArg AsyncAwaiter.handle hself
    · rw [← h.handle awaiter' (hcomp.outstanding ho)]
      exact congrArg AsyncAwaiter.handle (hne awaiter' heq)
  · intro awaiter' hp
    by_cases heq : awaiter' = awaiter
    · rw [heq, hcomp.value_self]
      exact congrArg AsyncAwaiter.value hself
    · have hp : s.Pending awaiter' := (hcomp.pending hp).resolve_left heq
      have haddress : awaiter'.address ≠ awaiter.address := fun haddress =>
        heq (hs.waits.eq_of_address (.inl hcomp.started) (.inr hp) haddress)
      rw [hcomp.value_of_ne _ haddress, ← h.value awaiter' hp]
      exact congrArg AsyncAwaiter.value (hne awaiter' heq)
  · intro awaiter' hserial
    rw [hcomp.created] at hserial
    have hold : awaiter.serial < s.created := hs.numbered.old awaiter (.inl hcomp.started)
    have heq : awaiter' ≠ awaiter := by
      rintro rfl
      omega
    rw [← h.fresh awaiter' hserial]
    exact congrArg AsyncAwaiter.handle (hne awaiter' heq)
  · rw [hcomp.resumed]
    exact h.resumed

/-- The scheduler moves without a new resume job. -/
theorem Simulates.reschedule (h : Simulates s u) {scheduler : Scheduler (Work AwaiterRef)}
    (hoffered : ∀ awaiter, .resume awaiter ∈ scheduler.log.offered → .resume awaiter ∈ s.scheduler.log.offered)
    (hexecuted : s.scheduler.log.executed ⊆ scheduler.log.executed) :
    Simulates { s with scheduler := scheduler } { u with scheduler := scheduler } := by
  have hpending : ∀ {awaiter}, Pending { s with scheduler := scheduler } awaiter → s.Pending awaiter :=
    fun hp => ⟨hoffered _ hp.1, fun hexec => hp.2 (hexecuted hexec)⟩
  exact ⟨rfl, fun awaiter ho => h.handle awaiter (ho.imp id hpending),
    fun awaiter hp => h.value awaiter (hpending hp), h.fresh, h.resumed⟩

/-- The job of a worker ends. -/
theorem Simulates.finish (h : Simulates s u) {w : Nat} {job : Work AwaiterRef}
    {scheduler : Scheduler (Work AwaiterRef)} (hw : s.scheduler.workers w = .working job)
    (hfinish : s.scheduler.step (.finish w) = some scheduler) :
    u.step (.thread (.finish w)) = some { u with
        scheduler := scheduler
        resumed := job.awaiter.toList.map (fun awaiter => (awaiter, (u.awaiters awaiter).handle)) ++ u.resumed } ∧
      Simulates { s with scheduler := scheduler } { u with scheduler := scheduler } := by
  have hresumes : u.resumes (.finish w) =
      job.awaiter.toList.map fun awaiter => (awaiter, (u.awaiters awaiter).handle) := by
    unfold AsyncRuntime.resumes
    dsimp only
    rw [h.scheduler, hw]
    cases job <;> rfl
  constructor
  · rw [← hresumes]
    show (u.scheduler.step _).map _ = _
    rw [h.scheduler, hfinish]
    rfl
  · have hcases := Scheduler.step_cases hfinish
    have hoffered : scheduler.log.offered = s.scheduler.log.offered := hcases.offered
    exact h.reschedule (fun awaiter hjob => hoffered ▸ hjob) hcases.executed_subset

/-- A wrapper runs on, up to its next suspension or its end. -/
theorem Simulates.continues (h : Simulates s u) (hwaits : Waits s) (hnumbered : Numbered s) {handle address : Nat}
    (hcont : Continues s handle address t) (hfree : s.free handle address = true)
    (hother : ∀ awaiter, s.Outstanding awaiter → s.waitsFor handle ≠ some awaiter) :
    ∃ bs v, run AsyncRuntime.step u bs = some v ∧ Simulates t v := by
  have hsame : ∀ {awaiter}, s.Outstanding awaiter → t.awaiters awaiter.address = s.awaiters awaiter.address :=
    fun ho => (hwaits.undisturbed hcont hfree hother ho).1
  have hvalue : ∀ awaiter, t.Pending awaiter → (u.awaiters awaiter).value = (t.awaiters awaiter.address).value := by
    intro awaiter hp
    have hp : s.Pending awaiter := (hcont.pending_iff awaiter).mp hp
    rw [hsame (.inr hp)]
    exact h.value awaiter hp
  have hresumed : u.resumed.map (fun r => (r.1.serial, r.2)) = t.resumed.map fun r => (r.awaiter, some r.handle) := by
    rw [hcont.resumed]
    exact h.resumed
  rcases hcont.next with ⟨-, hrunning, hcreated⟩ | ⟨-, hhandle, hrunning, hcreated⟩
  · refine ⟨[], u, rfl, h.scheduler.trans hcont.scheduler.symm, fun awaiter ho => ?_, hvalue,
      fun awaiter hserial => h.fresh awaiter (hcreated.trans hserial), hresumed⟩
    have ho : s.Outstanding awaiter := ho.imp (fun hmem => hrunning ▸ hmem) (hcont.pending_iff awaiter).mp
    rw [hsame ho]
    exact h.handle awaiter ho
  · -- the awaiter it suspends on
    let next : AwaiterRef := ⟨address, s.created⟩
    let awaiters := Function.update u.awaiters next ⟨(u.awaiters next).value, some handle⟩
    have hself : awaiters next = ⟨(u.awaiters next).value, some handle⟩ := Function.update_self ..
    have hne : ∀ awaiter, s.created ≠ awaiter.serial → awaiters awaiter = u.awaiters awaiter := by
      intro awaiter hserial
      refine Function.update_of_ne ?_ _ _
      rintro rfl
      exact hserial rfl
    have hold : ∀ {awaiter}, s.Known awaiter → awaiters awaiter = u.awaiters awaiter :=
      fun hk => hne _ (Nat.ne_of_gt (hnumbered.old _ hk))
    refine ⟨[.suspend next handle], { u with awaiters := awaiters }, ?_, h.scheduler.trans hcont.scheduler.symm,
      fun awaiter ho => ?_, fun awaiter hp => ?_, fun awaiter hserial => ?_, hresumed⟩
    · rw [run_cons, AsyncRuntime.step]
      dsimp only
      rw [h.fresh next le_rfl]
      rfl
    · have hcases : awaiter = next ∨ s.Outstanding awaiter := by
        rcases ho with hmem | hp
        · rw [hrunning, List.mem_cons] at hmem
          exact hmem.imp id .inl
        · exact .inr (.inr ((hcont.pending_iff awaiter).mp hp))
      rcases hcases with rfl | ho
      · rw [hhandle]
        exact congrArg AsyncAwaiter.handle hself
      · have hk : s.Known awaiter := ho.imp id And.left
        rw [hsame ho, ← h.handle awaiter ho]
        exact congrArg AsyncAwaiter.handle (hold hk)
    · rw [← hvalue awaiter hp]
      exact congrArg AsyncAwaiter.value (hold (.inr ((hcont.pending_iff awaiter).mp hp).1))
    · rw [← h.fresh awaiter (by omega)]
      exact congrArg AsyncAwaiter.handle (hne awaiter (by omega))

end

variable [Inhabited T] {coroutines : Coroutines T S} {s t : CoroutineRuntime T S} {u : AsyncRuntime AwaiterRef T}

theorem simulates_init : Simulates (init : CoroutineRuntime T S) AsyncRuntime.init where
  scheduler := rfl
  handle _ _ := rfl
  value _ _ := rfl
  fresh _ _ := rfl
  resumed := rfl

/-- A step that no worker takes to run a job. -/
theorem Simulates.quiet (h : Simulates s u) (hs : Inv s) {a : Action T} (hact : s.act coroutines a = some t)
    (hrun : ∀ w handle address bit, a ≠ .run w handle address bit) :
    ∃ b v, u.step b = some v ∧ Simulates t v := by
  cases a with
  | complete p awaiter value =>
      obtain ⟨hoffer, hcomp⟩ := act_complete hact
      exact ⟨.complete p awaiter value, h.completes hs hoffer hcomp⟩
  | request p n =>
      obtain ⟨scheduler, hoffer, rfl⟩ := Option.map_eq_some_iff.mp hact
      refine ⟨.request p n, { u with scheduler := scheduler }, ?_, h.reschedule (fun awaiter hjob => ?_) ?_⟩
      · show (u.scheduler.step _).map _ = _
        rw [h.scheduler, hoffer]
        rfl
      · have hoffered : scheduler.log.offered = .request n :: s.scheduler.log.offered :=
          (Scheduler.step_cases hoffer).offered
        rw [hoffered, List.mem_cons] at hjob
        exact hjob.resolve_left nofun
      · exact (Scheduler.step_cases hoffer).executed_subset
  | thread action =>
      refine ⟨.thread action, ?_⟩
      cases action with
      | offer p priority job => cases hact
      | finish w => cases hact
      | stop =>
          obtain rfl := Option.some.inj hact
          have hstop : u.step (.thread .stop) =
              some { u with scheduler := { u.scheduler with running := false } } := rfl
          rw [h.scheduler] at hstop
          exact ⟨_, hstop, h.reschedule (fun _ hjob => hjob) fun _ hjob => hjob⟩
      | _ =>
          obtain ⟨scheduler, hthread, rfl⟩ := Option.map_eq_some_iff.mp hact
          have hcases := Scheduler.step_cases hthread
          have hoffered : scheduler.log.offered = s.scheduler.log.offered := hcases.offered
          refine ⟨{ u with scheduler := scheduler }, ?_,
            h.reschedule (fun awaiter hjob => hoffered ▸ hjob) hcases.executed_subset⟩
          show (u.scheduler.step _).map _ = _
          rw [h.scheduler, hthread]
          rfl
  | run w handle address bit => exact absurd rfl (hrun w handle address bit)

/-- A worker runs its job: it ends, and the wrapper that it begins or resumes runs on. -/
theorem Simulates.ran (h : Simulates s u) (hs : Inv s) {w handle address : Nat} {bit : Bool}
    (hran : Ran coroutines s w handle address bit t) :
    ∃ bs v, run AsyncRuntime.step u bs = some v ∧ Simulates t v := by
  cases hran with
  | @other n scheduler hfinish hw hnone =>
      obtain ⟨hstep, hsim⟩ := h.finish hw hfinish
      exact ⟨[.thread (.finish w)], _, by rw [run_cons, hstep]; rfl, hsim⟩
  | @began n point scheduler hfinish hw hpoint hnew hfree =>
      obtain ⟨hstep, hsim⟩ := h.finish hw hfinish
      have hinv : Inv { s with scheduler := scheduler, handles := handle :: s.handles } :=
        (hs.finish hw hfinish).2.addHandle handle
      have hsim : Simulates { s with scheduler := scheduler, handles := handle :: s.handles }
          { u with scheduler := scheduler } := ⟨hsim.scheduler, hsim.handle, hsim.value, hsim.fresh, hsim.resumed⟩
      have hcont := continues_start (s := { s with scheduler := scheduler }) hnew address bit (coroutines.body point)
      have hnone : waitsFor { s with scheduler := scheduler, handles := handle :: s.handles } handle = none :=
        waitsFor_of_none hnew
      obtain ⟨bs, v, hv, hsim⟩ := hsim.continues hinv.waits hinv.numbered hcont (free_addHandle hfree)
        fun awaiter _ hwaits => Option.some_ne_none awaiter (hwaits.symm.trans hnone)
      exact ⟨.thread (.finish w) :: bs, v, by rw [run_cons, hstep]; exact hv, hsim⟩
  | @resumed awaiter handle' task suspended scheduler hfinish hw hhandle htask hrest hfree =>
      obtain ⟨hstep, hsim⟩ := h.finish hw hfinish
      obtain ⟨-, hinv⟩ := hs.finish hw hfinish
      have ho : s.Outstanding awaiter := .inr (hs.scheduler.working hw)
      have hwaits : s.waitsFor handle' = some awaiter := by
        obtain ⟨other, hwaits, hother⟩ := hs.waits.waiting awaiter ho
        obtain rfl : other = handle' := Option.some.inj (hother.symm.trans hhandle)
        exact hwaits
      let value := (s.awaiters suspended.awaiter.address).value
      let resumed := { s with scheduler := scheduler, resumed := ⟨awaiter.serial, handle', value⟩ :: s.resumed }
      have hsim : Simulates resumed
          { u with scheduler := scheduler, resumed := (awaiter, (u.awaiters awaiter).handle) :: u.resumed } := by
        refine ⟨hsim.scheduler, hsim.handle, hsim.value, hsim.fresh, ?_⟩
        rw [List.map_cons, h.handle awaiter ho, hhandle, h.resumed]
        rfl
      have hcont := (continues_proceed resumed coroutines handle' task (suspended.next value) address).1
      have hother : ∀ awaiter', resumed.Outstanding awaiter' → resumed.waitsFor handle' ≠ some awaiter' := by
        intro awaiter' ho hwaits'
        obtain rfl : awaiter = awaiter' := Option.some.inj (hwaits.symm.trans hwaits')
        exact hs.not_outstanding hw hfinish ho
      obtain ⟨bs, v, hv, hsim⟩ := hsim.continues ⟨hinv.waits.listed, hinv.waits.waiting, hinv.waits.apart⟩
        ⟨hinv.numbered.old, hinv.numbered.serial, hinv.numbered.once, hinv.numbered.nodup⟩ hcont hfree hother
      exact ⟨.thread (.finish w) :: bs, v, by rw [run_cons, hstep]; exact hv, hsim⟩

/-- **The coroutines refine the awaiters.** Every run of the coroutines, in any interleaving, is a run of the awaiters
alone, with the same scheduler, handles, values and resumptions. -/
theorem completion_refines (coroutines : Coroutines T S) (as : List (Action T)) (s : CoroutineRuntime T S)
    (h : run (step coroutines) init as = some s) :
    ∃ bs u, run AsyncRuntime.step AsyncRuntime.init bs = some u ∧ Simulates s u := by
  have hstep : ∀ (s : CoroutineRuntime T S) a t (u : AsyncRuntime AwaiterRef T), Inv s ∧ Simulates s u →
      step coroutines s a = some t → ∃ bs v, run AsyncRuntime.step u bs = some v ∧ Inv t ∧ Simulates t v := by
    rintro s a t u ⟨hs, hsim⟩ hstep
    have hinv : Inv t := inv_step hs hstep
    have hact := (step_cases hstep).2
    rcases ran_or_quiet hs hact with ⟨w, handle, address, bit, rfl, hran⟩ | hquiet
    · obtain ⟨bs, v, hv, hsim⟩ := hsim.ran hs hran
      exact ⟨bs, v, hv, hinv, hsim⟩
    · obtain ⟨b, v, hv, hsim⟩ := hsim.quiet hs hact hquiet
      exact ⟨[b], v, by rw [run_cons, hv]; rfl, hinv, hsim⟩
  have hstart : Inv (init : CoroutineRuntime T S) ∧ Simulates (init : CoroutineRuntime T S) AsyncRuntime.init :=
    ⟨inv_init, simulates_init⟩
  obtain ⟨bs, u, hu, -, hsim⟩ := exists_simulated_run hstep hstart h
  exact ⟨bs, u, hu, hsim⟩

/-- A resume job that the queue has taken is in one slot, or with one worker, or has resumed one wrapper, once. -/
theorem accepted_kept (coroutines : Coroutines T S) (as : List (Action T)) (s : CoroutineRuntime T S)
    (h : run (step coroutines) init as = some s) (awaiter : AwaiterRef)
    (hjob : .resume awaiter ∈ s.scheduler.log.accepted) :
    s.scheduler.Queued (.resume awaiter) ∨ s.scheduler.Held (.resume awaiter) ∨
      (s.scheduler.Executed (.resume awaiter) ∧ (s.resumed.map (·.awaiter)).count awaiter.serial = 1) := by
  obtain ⟨bs, u, hu, hsim⟩ := completion_refines coroutines as s h
  have hinv : Inv s := run_invariant (fun _ _ _ => inv_step) inv_init h
  have hvalid : u.Valid := run_invariant (fun _ _ _ => AsyncRuntime.valid_step) AsyncRuntime.valid_init hu
  have hkept : u.Kept awaiter := hvalid.kept (by rwa [hsim.scheduler])
  unfold AsyncRuntime.Kept at hkept
  rw [hsim.scheduler] at hkept
  refine hkept.imp id (Or.imp id (And.imp id fun hcount => ?_))
  have hmem : awaiter ∈ u.resumed.map Prod.fst := List.count_pos_iff.mp (by omega)
  obtain ⟨r, hr, rfl⟩ := List.mem_map.mp hmem
  have hpair : (r.1.serial, r.2) ∈ s.resumed.map fun r => (r.awaiter, some r.handle) := by
    rw [← hsim.resumed]
    exact List.mem_map_of_mem hr
  obtain ⟨r', hr', heq⟩ := List.mem_map.mp hpair
  have hserial : r.1.serial ∈ s.resumed.map (·.awaiter) := by
    rw [← (Prod.mk.inj heq).1]
    exact List.mem_map_of_mem hr'
  exact List.count_eq_one_of_mem hinv.recorded.nodup hserial

end CoroutineRuntime

end Fipper
