import Mathlib.Data.Fintype.EquivFin
import Fipper.Coroutine.Runtime

/-!
# Which coroutine a resume job resumes

* `Inv` : to every awaiter that is outstanding belongs one wrapper, and the value it was completed with is
  there until the resume job runs;
* `Inv.completes`, `Inv.continues` : it is kept by completions, and by wrappers that run on;
* `resume_exact` : a resume job resumes the wrapper that waits for its awaiter, with the value passed to
  `complete`.
-/

namespace Fipper

open Lib

namespace CoroutineRuntime
variable {T S : Type*}

/-! ## The invariant -/

section
variable (s : CoroutineRuntime T S)

/-- The process of the awaiter has been started. -/
def Known (awaiter : AwaiterRef) : Prop :=
  awaiter ∈ s.running ∨ .resume awaiter ∈ s.scheduler.log.offered

/-- The awaiter is completed, and its resume job has not run. -/
def Pending (awaiter : AwaiterRef) : Prop :=
  .resume awaiter ∈ s.scheduler.log.offered ∧ .resume awaiter ∉ s.scheduler.log.executed

/-- The process of the awaiter runs, or its resume job is still to run. -/
def Outstanding (awaiter : AwaiterRef) : Prop := awaiter ∈ s.running ∨ s.Pending awaiter

/-- Awaiters have numbers of their own, and complete once. -/
structure Numbered : Prop where
  old : ∀ awaiter, s.Known awaiter → awaiter.serial < s.created
  serial : ∀ awaiter awaiter', s.Known awaiter → s.Known awaiter' →
    awaiter.serial = awaiter'.serial → awaiter = awaiter'
  once : ∀ awaiter ∈ s.running, .resume awaiter ∉ s.scheduler.log.offered
  nodup : s.running.Nodup

/-- The handler of some wrapper waits for each outstanding awaiter, which has the handle of this wrapper;
and no two of the awaiters that handlers wait for are in one place. -/
structure Waits : Prop where
  listed : ∀ handle, s.wrappers handle ≠ none → handle ∈ s.handles
  waiting : ∀ awaiter, s.Outstanding awaiter → ∃ handle, s.waitsFor handle = some awaiter ∧
    (s.awaiters awaiter.address).handle = some handle
  apart : ∀ handle handle' awaiter awaiter', s.waitsFor handle = some awaiter →
    s.waitsFor handle' = some awaiter' → awaiter.address = awaiter'.address → handle = handle'

/-- What was passed to `complete` is in the awaiter until the resume job runs, and was then yielded. -/
structure Recorded : Prop where
  value : ∀ awaiter, s.Pending awaiter →
    (awaiter.serial, (s.awaiters awaiter.address).value) ∈ s.completed
  offered : ∀ k v, (k, v) ∈ s.completed →
    ∃ awaiter, awaiter.serial = k ∧ .resume awaiter ∈ s.scheduler.log.offered
  single : (s.completed.map Prod.fst).Nodup
  executed : ∀ r ∈ s.resumed,
    ∃ awaiter, awaiter.serial = r.awaiter ∧ .resume awaiter ∈ s.scheduler.log.executed
  nodup : (s.resumed.map (·.awaiter)).Nodup
  yields : ∀ r ∈ s.resumed, (r.awaiter, r.value) ∈ s.completed

structure Inv : Prop where
  scheduler : s.scheduler.Valid
  numbered : Numbered s
  waits : Waits s
  recorded : Recorded s

end

/-- The scheduler moves without a new resume job. -/
theorem Inv.reschedule {s : CoroutineRuntime T S} (h : Inv s) {scheduler : Scheduler (Work AwaiterRef)}
    (hvalid : scheduler.Valid)
    (hoffered : ∀ awaiter, .resume awaiter ∈ scheduler.log.offered ↔
      .resume awaiter ∈ s.scheduler.log.offered)
    (hexecuted : s.scheduler.log.executed ⊆ scheduler.log.executed) :
    Inv { s with scheduler := scheduler } := by
  have hknown : ∀ {awaiter}, Known { s with scheduler := scheduler } awaiter → s.Known awaiter :=
    fun hk => hk.imp id (hoffered _).mp
  have hpending : ∀ {awaiter}, Pending { s with scheduler := scheduler } awaiter → s.Pending awaiter :=
    fun hp => ⟨(hoffered _).mp hp.1, fun hexec => hp.2 (hexecuted hexec)⟩
  obtain ⟨-, hnumbered, hwaits, hrecorded⟩ := h
  refine ⟨hvalid, ⟨?_, ?_, ?_, hnumbered.nodup⟩, ⟨hwaits.listed, ?_, hwaits.apart⟩,
    ⟨?_, ?_, hrecorded.single, ?_, hrecorded.nodup, hrecorded.yields⟩⟩
  · exact fun awaiter hk => hnumbered.old awaiter (hknown hk)
  · exact fun awaiter awaiter' hk hk' => hnumbered.serial awaiter awaiter' (hknown hk) (hknown hk')
  · exact fun awaiter hmem => mt (hoffered awaiter).mp (hnumbered.once awaiter hmem)
  · exact fun awaiter ho => hwaits.waiting awaiter (ho.imp id hpending)
  · exact fun awaiter hp => hrecorded.value awaiter (hpending hp)
  · intro k v hmem
    obtain ⟨awaiter, hserial, hjob⟩ := hrecorded.offered k v hmem
    exact ⟨awaiter, hserial, (hoffered awaiter).mpr hjob⟩
  · intro r hr
    obtain ⟨awaiter, hserial, hjob⟩ := hrecorded.executed r hr
    exact ⟨awaiter, hserial, hexecuted hjob⟩

theorem Waits.listed_of_waitsFor {s : CoroutineRuntime T S} (h : Waits s) {handle : Nat}
    {awaiter : AwaiterRef} (hwaits : s.waitsFor handle = some awaiter) : handle ∈ s.handles := by
  apply h.listed
  intro hnone
  rw [waitsFor_of_none hnone] at hwaits
  cases hwaits

/-- Where only `handle` may have an awaiter, no other wrapper has one. -/
theorem Waits.address_ne {s : CoroutineRuntime T S} (h : Waits s) {handle address : Nat}
    (hfree : s.free handle address = true) {other : Nat} (hne : other ≠ handle) {awaiter : AwaiterRef}
    (hwaits : s.waitsFor other = some awaiter) : awaiter.address ≠ address := by
  have hother := List.all_eq_true.mp hfree other (h.listed_of_waitsFor hwaits)
  rw [Bool.or_eq_true, beq_iff_eq, hwaits] at hother
  simpa using hother.resolve_left hne

theorem exists_free (s : CoroutineRuntime T S) (handle : Nat) : ∃ address, s.free handle address = true := by
  obtain ⟨address, hnew⟩ :=
    Infinite.exists_notMem_finset ((s.handles.filterMap s.waitsFor).map (·.address)).toFinset
  refine ⟨address, List.all_eq_true.mpr fun other hother => ?_⟩
  cases hwaits : s.waitsFor other with
  | none => exact Bool.or_true _
  | some awaiter =>
      have hne : awaiter.address ≠ address := by
        rintro rfl
        apply hnew
        rw [List.mem_toFinset]
        exact List.mem_map_of_mem (List.mem_filterMap.mpr ⟨other, hother, hwaits⟩)
      simp [hne]

/-! ### A completion -/

section
variable {s t : CoroutineRuntime T S} {awaiter : AwaiterRef} {value : T}

theorem Completes.offered_iff (h : Completes s awaiter value t) (awaiter' : AwaiterRef) :
    .resume awaiter' ∈ t.scheduler.log.offered ↔
      awaiter' = awaiter ∨ .resume awaiter' ∈ s.scheduler.log.offered := by
  rw [h.offered, List.mem_cons, Work.resume.injEq]

theorem Completes.waitsFor (h : Completes s awaiter value t) (handle : Nat) :
    t.waitsFor handle = s.waitsFor handle :=
  waitsFor_congr (congrFun h.wrappers handle)

theorem Completes.running_subset (h : Completes s awaiter value t) {awaiter' : AwaiterRef}
    (hmem : awaiter' ∈ t.running) : awaiter' ∈ s.running := by
  rw [h.running] at hmem
  exact List.mem_of_mem_erase hmem

theorem Completes.known (h : Completes s awaiter value t) {awaiter' : AwaiterRef}
    (hk : t.Known awaiter') : s.Known awaiter' := by
  rcases hk with hmem | hjob
  · exact .inl (h.running_subset hmem)
  · rcases (h.offered_iff awaiter').mp hjob with rfl | hjob
    · exact .inl h.started
    · exact .inr hjob

theorem Completes.pending (h : Completes s awaiter value t) {awaiter' : AwaiterRef}
    (hp : t.Pending awaiter') : awaiter' = awaiter ∨ s.Pending awaiter' := by
  obtain ⟨hjob, hnot⟩ := hp
  rw [h.executed] at hnot
  exact ((h.offered_iff awaiter').mp hjob).imp id fun hjob => ⟨hjob, hnot⟩

theorem Completes.outstanding (h : Completes s awaiter value t) {awaiter' : AwaiterRef}
    (ho : t.Outstanding awaiter') : s.Outstanding awaiter' := by
  rcases ho with hmem | hp
  · exact .inl (h.running_subset hmem)
  · rcases h.pending hp with rfl | hp
    · exact .inl h.started
    · exact .inr hp

theorem Numbered.completes (h : Numbered s) (hcomp : Completes s awaiter value t) : Numbered t := by
  refine ⟨?_, ?_, ?_, ?_⟩
  · intro awaiter' hk
    rw [hcomp.created]
    exact h.old awaiter' (hcomp.known hk)
  · exact fun _ _ hk hk' => h.serial _ _ (hcomp.known hk) (hcomp.known hk')
  · intro awaiter' hmem hjob
    rw [hcomp.running, h.nodup.mem_erase_iff] at hmem
    exact h.once awaiter' hmem.2 (((hcomp.offered_iff awaiter').mp hjob).resolve_left hmem.1)
  · rw [hcomp.running]
    exact h.nodup.erase awaiter

theorem Waits.completes (h : Waits s) (hcomp : Completes s awaiter value t) : Waits t := by
  refine ⟨?_, ?_, ?_⟩
  · rw [hcomp.wrappers, hcomp.handles]
    exact h.listed
  · intro awaiter' ho
    obtain ⟨handle, hwaits, hhandle⟩ := h.waiting awaiter' (hcomp.outstanding ho)
    exact ⟨handle, (hcomp.waitsFor handle).trans hwaits, (hcomp.handle _).trans hhandle⟩
  · intro handle handle' first second hwaits hwaits'
    rw [hcomp.waitsFor] at hwaits hwaits'
    exact h.apart handle handle' first second hwaits hwaits'

/-- Two outstanding awaiters in one place are one awaiter. -/
theorem Waits.eq_of_address (h : Waits s) {awaiter' : AwaiterRef} (ho : s.Outstanding awaiter)
    (ho' : s.Outstanding awaiter') (haddress : awaiter'.address = awaiter.address) :
    awaiter' = awaiter := by
  obtain ⟨handle, hwaits, -⟩ := h.waiting awaiter ho
  obtain ⟨handle', hwaits', -⟩ := h.waiting awaiter' ho'
  obtain rfl := h.apart _ _ _ _ hwaits' hwaits haddress
  rw [hwaits, Option.some.injEq] at hwaits'
  exact hwaits'.symm

theorem Recorded.completes (h : Recorded s) (hnumbered : Numbered s) (hwaits : Waits s)
    (hcomp : Completes s awaiter value t) : Recorded t := by
  refine ⟨?_, ?_, ?_, ?_, ?_, ?_⟩
  · intro awaiter' hp
    rw [hcomp.completed]
    by_cases heq : awaiter' = awaiter
    · rw [heq, hcomp.value_self]
      exact List.mem_cons_self
    · have hp := (hcomp.pending hp).resolve_left heq
      have hne : awaiter'.address ≠ awaiter.address := fun haddress =>
        heq (hwaits.eq_of_address (.inl hcomp.started) (.inr hp) haddress)
      rw [hcomp.value_of_ne _ hne]
      exact List.mem_cons_of_mem _ (h.value awaiter' hp)
  · intro k v hkv
    rw [hcomp.completed] at hkv
    rcases List.mem_cons.mp hkv with heq | hkv
    · rw [Prod.mk.injEq] at heq
      exact ⟨awaiter, heq.1.symm, (hcomp.offered_iff awaiter).mpr (.inl rfl)⟩
    · obtain ⟨awaiter', hserial, hjob⟩ := h.offered k v hkv
      exact ⟨awaiter', hserial, (hcomp.offered_iff awaiter').mpr (.inr hjob)⟩
  · rw [hcomp.completed]
    -- it has not completed before, since its process was still to complete
    refine List.nodup_cons.mpr ⟨fun hserial => ?_, h.single⟩
    obtain ⟨⟨k, v⟩, hkv, hk⟩ := List.mem_map.mp hserial
    obtain ⟨awaiter', hserial', hjob⟩ := h.offered k v hkv
    obtain rfl := hnumbered.serial awaiter' awaiter (.inr hjob) (.inl hcomp.started) (hserial'.trans hk)
    exact hnumbered.once awaiter' hcomp.started hjob
  · rw [hcomp.resumed, hcomp.executed]
    exact h.executed
  · rw [hcomp.resumed]
    exact h.nodup
  · rw [hcomp.resumed, hcomp.completed]
    exact fun r hr => List.mem_cons_of_mem _ (h.yields r hr)

/-- The process of an awaiter completes. -/
theorem Inv.completes (h : Inv s) (hvalid : t.scheduler.Valid) (hcomp : Completes s awaiter value t) :
    Inv t :=
  ⟨hvalid, h.numbered.completes hcomp, h.waits.completes hcomp,
    h.recorded.completes h.numbered h.waits hcomp⟩

end

/-! ### A wrapper that runs on -/

section
variable {s t : CoroutineRuntime T S} {handle address : Nat}

theorem Continues.created_le (h : Continues s handle address t) : s.created ≤ t.created := by
  rcases h.next with ⟨-, -, hcreated⟩ | ⟨-, -, -, hcreated⟩
  · exact hcreated
  · omega

/-- The only process it may start is that of the new awaiter. -/
theorem Continues.running (h : Continues s handle address t) {awaiter : AwaiterRef}
    (hmem : awaiter ∈ t.running) : awaiter ∈ s.running ∨ (awaiter = ⟨address, s.created⟩ ∧
      t.waitsFor handle = some awaiter ∧ (t.awaiters address).handle = some handle ∧
      t.created = s.created + 1) := by
  rcases h.next with ⟨-, hrunning, -⟩ | ⟨hwaits, hhandle, hrunning, hcreated⟩
  · exact .inl (hrunning ▸ hmem)
  · rw [hrunning, List.mem_cons] at hmem
    rcases hmem with rfl | hmem
    · exact .inr ⟨rfl, hwaits, hhandle, hcreated⟩
    · exact .inl hmem

theorem Continues.waitsFor_self (h : Continues s handle address t) {awaiter : AwaiterRef}
    (hwaits : t.waitsFor handle = some awaiter) : awaiter.address = address := by
  rcases h.next with ⟨hnone, -⟩ | ⟨hsome, -⟩
  · rw [hnone] at hwaits
    cases hwaits
  · rw [hsome, Option.some.injEq] at hwaits
    rw [← hwaits]

theorem Continues.waitsFor_of_ne (h : Continues s handle address t) {other : Nat}
    (hne : other ≠ handle) : t.waitsFor other = s.waitsFor other :=
  waitsFor_congr (h.wrappers other hne)

theorem Continues.pending_iff (h : Continues s handle address t) (awaiter : AwaiterRef) :
    t.Pending awaiter ↔ s.Pending awaiter := by
  rw [Pending, h.scheduler, Pending]

theorem Continues.known (h : Continues s handle address t) {awaiter : AwaiterRef}
    (hk : t.Known awaiter) :
    s.Known awaiter ∨ (awaiter = ⟨address, s.created⟩ ∧ t.created = s.created + 1) := by
  rcases hk with hmem | hjob
  · rcases h.running hmem with hmem | ⟨heq, -, -, hcreated⟩
    · exact .inl (.inl hmem)
    · exact .inr ⟨heq, hcreated⟩
  · rw [h.scheduler] at hjob
    exact .inl (.inr hjob)

theorem Numbered.continues (h : Numbered s) (hcont : Continues s handle address t) : Numbered t := by
  -- the number of the new awaiter has not been given out
  have hnew : ∀ {awaiter}, s.Known awaiter → awaiter.serial ≠ s.created :=
    fun hk => Nat.ne_of_lt (h.old _ hk)
  refine ⟨?_, ?_, ?_, ?_⟩
  · intro awaiter hk
    rcases hcont.known hk with hk | ⟨rfl, hcreated⟩
    · exact Nat.lt_of_lt_of_le (h.old awaiter hk) hcont.created_le
    · rw [hcreated]
      exact Nat.lt_succ_self _
  · intro awaiter awaiter' hk hk' hserial
    rcases hcont.known hk with hk | ⟨rfl, -⟩ <;> rcases hcont.known hk' with hk' | ⟨rfl, -⟩
    · exact h.serial awaiter awaiter' hk hk' hserial
    · exact absurd hserial (hnew hk)
    · exact absurd hserial.symm (hnew hk')
    · rfl
  · intro awaiter hmem hjob
    rw [hcont.scheduler] at hjob
    rcases hcont.running hmem with hmem | ⟨rfl, -⟩
    · exact h.once awaiter hmem hjob
    · exact hnew (.inr hjob) rfl
  · rcases hcont.next with ⟨-, hrunning, -⟩ | ⟨-, -, hrunning, -⟩
    · rw [hrunning]
      exact h.nodup
    · rw [hrunning]
      exact List.nodup_cons.mpr ⟨fun hmem => hnew (.inl hmem) rfl, h.nodup⟩

/-- An awaiter that is outstanding before is where it was, with its wrapper. -/
theorem Waits.undisturbed (h : Waits s) (hcont : Continues s handle address t)
    (hfree : s.free handle address = true)
    (hother : ∀ awaiter, s.Outstanding awaiter → s.waitsFor handle ≠ some awaiter)
    {awaiter : AwaiterRef} (ho : s.Outstanding awaiter) :
    t.awaiters awaiter.address = s.awaiters awaiter.address ∧
      ∃ other, t.waitsFor other = some awaiter ∧ (s.awaiters awaiter.address).handle = some other := by
  obtain ⟨other, hwaits, hhandle⟩ := h.waiting awaiter ho
  have hne : other ≠ handle := fun heq => hother awaiter ho (heq ▸ hwaits)
  refine ⟨hcont.awaiters _ (h.address_ne hfree hne hwaits), other, ?_, hhandle⟩
  rw [hcont.waitsFor_of_ne hne]
  exact hwaits

theorem Waits.continues (h : Waits s) (hcont : Continues s handle address t)
    (hlisted : handle ∈ s.handles) (hfree : s.free handle address = true)
    (hother : ∀ awaiter, s.Outstanding awaiter → s.waitsFor handle ≠ some awaiter) : Waits t := by
  refine ⟨?_, ?_, ?_⟩
  · intro other hne
    rw [hcont.handles]
    by_cases heq : other = handle
    · rw [heq]
      exact hlisted
    · rw [hcont.wrappers other heq] at hne
      exact h.listed other hne
  · intro awaiter ho
    have hcases : s.Outstanding awaiter ∨ (awaiter = ⟨address, s.created⟩ ∧
        t.waitsFor handle = some awaiter ∧ (t.awaiters address).handle = some handle) := by
      rcases ho with hmem | hp
      · rcases hcont.running hmem with hmem | ⟨heq, hwaits, hhandle, -⟩
        · exact .inl (.inl hmem)
        · exact .inr ⟨heq, hwaits, hhandle⟩
      · exact .inl (.inr ((hcont.pending_iff awaiter).mp hp))
    rcases hcases with ho | ⟨rfl, hwaits, hhandle⟩
    · obtain ⟨hsame, other, hwaits, hhandle⟩ := h.undisturbed hcont hfree hother ho
      exact ⟨other, hwaits, by rw [hsame, hhandle]⟩
    · exact ⟨handle, hwaits, hhandle⟩
  · intro first second awaiter awaiter' hwaits hwaits' haddress
    by_cases heq : first = handle <;> by_cases heq' : second = handle
    · rw [heq, heq']
    · rw [heq] at hwaits
      rw [hcont.waitsFor_of_ne heq'] at hwaits'
      rw [hcont.waitsFor_self hwaits] at haddress
      exact absurd haddress.symm (h.address_ne hfree heq' hwaits')
    · rw [heq'] at hwaits'
      rw [hcont.waitsFor_of_ne heq] at hwaits
      rw [hcont.waitsFor_self hwaits'] at haddress
      exact absurd haddress (h.address_ne hfree heq hwaits)
    · rw [hcont.waitsFor_of_ne heq] at hwaits
      rw [hcont.waitsFor_of_ne heq'] at hwaits'
      exact h.apart _ _ _ _ hwaits hwaits' haddress

/-- A wrapper that nothing outstanding belongs to runs on, with its next awaiter where no other is. -/
theorem Inv.continues (h : Inv s) (hcont : Continues s handle address t)
    (hlisted : handle ∈ s.handles) (hfree : s.free handle address = true)
    (hother : ∀ awaiter, s.Outstanding awaiter → s.waitsFor handle ≠ some awaiter) : Inv t := by
  obtain ⟨hvalid, hnumbered, hwaits, hrecorded⟩ := h
  refine ⟨hcont.scheduler ▸ hvalid, hnumbered.continues hcont,
    hwaits.continues hcont hlisted hfree hother, ?_⟩
  obtain ⟨hvalue, hoffered, hsingle, hexecuted, hnodup, hyields⟩ := hrecorded
  refine ⟨?_, ?_, ?_, ?_, ?_, ?_⟩
  · intro awaiter hp
    have hp := (hcont.pending_iff awaiter).mp hp
    rw [(hwaits.undisturbed hcont hfree hother (.inr hp)).1, hcont.completed]
    exact hvalue awaiter hp
  · rw [hcont.completed, hcont.scheduler]
    exact hoffered
  · rw [hcont.completed]
    exact hsingle
  · rw [hcont.resumed, hcont.scheduler]
    exact hexecuted
  · rw [hcont.resumed]
    exact hnodup
  · rw [hcont.resumed, hcont.completed]
    exact hyields

end

/-! ### The jobs -/

section
variable {s : CoroutineRuntime T S} {scheduler : Scheduler (Work AwaiterRef)}

/-- A resumption is recorded: the first of its awaiter, with the value it was completed with. -/
theorem Inv.record (h : Inv s) {awaiter : AwaiterRef} (handle : Nat) {value : T}
    (hexecuted : .resume awaiter ∈ s.scheduler.log.executed)
    (hnew : ∀ r ∈ s.resumed, r.awaiter ≠ awaiter.serial)
    (hvalue : (awaiter.serial, value) ∈ s.completed) :
    Inv { s with resumed := ⟨awaiter.serial, handle, value⟩ :: s.resumed } := by
  obtain ⟨hvalid, hnumbered, hwaits, hrecorded⟩ := h
  refine ⟨hvalid, ⟨hnumbered.old, hnumbered.serial, hnumbered.once, hnumbered.nodup⟩,
    ⟨hwaits.listed, hwaits.waiting, hwaits.apart⟩,
    ⟨hrecorded.value, hrecorded.offered, hrecorded.single, ?_, ?_, ?_⟩⟩
  · intro r hr
    rcases List.mem_cons.mp hr with rfl | hr
    · exact ⟨awaiter, rfl, hexecuted⟩
    · exact hrecorded.executed r hr
  · refine List.nodup_cons.mpr ⟨fun hmem => ?_, hrecorded.nodup⟩
    obtain ⟨r, hr, hserial⟩ := List.mem_map.mp hmem
    exact hnew r hr hserial
  · intro r hr
    rcases List.mem_cons.mp hr with rfl | hr
    · exact hvalue
    · exact hrecorded.yields r hr

/-- The scheduler after a worker has run its job. -/
theorem Inv.finish (h : Inv s) {w : Nat} {job : Work AwaiterRef} (hw : s.scheduler.workers w = .working job)
    (hfinish : s.scheduler.step (.finish w) = some scheduler) :
    scheduler.log.executed = job :: s.scheduler.log.executed ∧ Inv { s with scheduler := scheduler } := by
  have hcases := Scheduler.step_cases hfinish
  have hoffered : scheduler.log.offered = s.scheduler.log.offered := hcases.offered
  have hexecuted : scheduler.log.executed = job :: s.scheduler.log.executed := by
    rcases hcases.executed with ⟨w', job', heq, hw', hexecuted⟩ | ⟨hne, -⟩
    · cases heq
      rw [hw, WorkerPoint.working.injEq] at hw'
      rw [hexecuted, hw']
    · exact absurd rfl (hne w)
  refine ⟨hexecuted, h.reschedule (Scheduler.valid_step h.scheduler hfinish) ?_ hcases.executed_subset⟩
  intro awaiter
  rw [hoffered]

/-- An awaiter whose resume job has been run is not outstanding any more. -/
theorem Inv.not_outstanding (h : Inv s) {w : Nat} {awaiter : AwaiterRef}
    (hw : s.scheduler.workers w = .working (.resume awaiter))
    (hfinish : s.scheduler.step (.finish w) = some scheduler) :
    ¬ Outstanding { s with scheduler := scheduler } awaiter := by
  rintro (hrunning | hpending)
  · exact h.numbered.once awaiter hrunning (h.scheduler.working hw).1
  · apply hpending.2
    rw [(h.finish hw hfinish).1]
    exact List.mem_cons_self

/-- The scheduler moves, and no resume job is offered. -/
theorem Inv.thread (h : Inv s) {action : Scheduler.Action (Work AwaiterRef)}
    (hs : s.scheduler.step action = some scheduler)
    (hoffered : ∀ awaiter, .resume awaiter ∈ scheduler.log.offered ↔
      .resume awaiter ∈ s.scheduler.log.offered) : Inv { s with scheduler := scheduler } :=
  h.reschedule (Scheduler.valid_step h.scheduler hs) hoffered (Scheduler.step_cases hs).executed_subset

/-- The handle of a new wrapper is listed. -/
theorem Inv.addHandle (h : Inv s) (handle : Nat) : Inv { s with handles := handle :: s.handles } := by
  obtain ⟨hvalid, hnumbered, hwaits, hrecorded⟩ := h
  refine ⟨hvalid, ⟨hnumbered.old, hnumbered.serial, hnumbered.once, hnumbered.nodup⟩,
    ⟨?_, hwaits.waiting, hwaits.apart⟩, ⟨hrecorded.value, hrecorded.offered, hrecorded.single, hrecorded.executed,
      hrecorded.nodup, hrecorded.yields⟩⟩
  exact fun other hne => List.mem_cons_of_mem _ (hwaits.listed other hne)

theorem free_addHandle {handle address : Nat} (hfree : s.free handle address = true) :
    free { s with handles := handle :: s.handles } handle address = true := by
  show List.all (handle :: s.handles) _ = true
  rw [List.all_cons, Bool.and_eq_true]
  exact ⟨by simp, hfree⟩

end

section
variable [Inhabited T] {coroutines : Coroutines T S} {s t : CoroutineRuntime T S}
  {scheduler : Scheduler (Work AwaiterRef)}

/-- Running a request job. -/
theorem Inv.work_request (h : Inv s) {handle address n : Nat} {bit : Bool}
    (hwork : work coroutines s handle address bit (.request n) = some t) : Inv t := by
  unfold work at hwork
  dsimp only at hwork
  split at hwork
  · cases hwork
    exact h
  · next point =>
      split at hwork
      · next hguard =>
          cases hwork
          rw [Bool.and_eq_true, Option.isNone_iff_eq_none] at hguard
          obtain ⟨hnew, hfree⟩ := hguard
          apply (h.addHandle handle).continues (continues_start hnew address bit _) List.mem_cons_self
          · exact free_addHandle hfree
          · intro awaiter _ hwaits
            have hnone : waitsFor { s with handles := handle :: s.handles } handle = none :=
              waitsFor_of_none hnew
            rw [hnone] at hwaits
            cases hwaits
      · cases hwork

/-- Running a resume job: one wrapper waits for the awaiter, and it goes on, with the value the awaiter
was completed with. -/
theorem Inv.work_resume (h : Inv s) {w : Nat} {awaiter : AwaiterRef}
    (hw : s.scheduler.workers w = .working (.resume awaiter))
    (hfinish : s.scheduler.step (.finish w) = some scheduler) {handle' address : Nat} {bit : Bool}
    (hwork : work coroutines { s with scheduler := scheduler } handle' address bit (.resume awaiter) =
      some t) :
    Inv t ∧ ∃ handle task suspended value, (∀ other, s.waitsFor other = some awaiter ↔ other = handle) ∧
      s.wrappers handle = some task ∧ task.frame.rest = some suspended ∧
      (awaiter.serial, value) ∈ s.completed ∧
      t = proceed { s with
        scheduler := scheduler
        resumed := ⟨awaiter.serial, handle, value⟩ :: s.resumed }
          coroutines handle task (suspended.next value) address := by
  have hpending : s.Pending awaiter := h.scheduler.working hw
  obtain ⟨handle, hwaits, hhandle⟩ := h.waits.waiting awaiter (.inr hpending)
  have hcompleted := h.recorded.value awaiter hpending
  obtain ⟨hexecuted, hinv⟩ := h.finish hw hfinish
  obtain ⟨hfree, rfl⟩ : free { s with scheduler := scheduler } handle address = true ∧
      resume coroutines { s with scheduler := scheduler } awaiter address = t := by
    unfold work at hwork
    dsimp only at hwork
    rw [hhandle, Option.all_some] at hwork
    split at hwork
    · next hfree => exact ⟨hfree, Option.some.inj hwork⟩
    · cases hwork
  obtain ⟨task, suspended, htask, hrest, hawaiter⟩ := waitsFor_eq_some.mp hwaits
  have hresume := resume_eq coroutines (s := { s with scheduler := scheduler }) hhandle htask hrest address
  rw [hawaiter] at hresume
  rw [hresume]
  have hcont := (continues_proceed { s with
    scheduler := scheduler
    resumed := ⟨awaiter.serial, handle, (s.awaiters awaiter.address).value⟩ :: s.resumed }
      coroutines handle task (suspended.next (s.awaiters awaiter.address).value) address).1
  have hjob : .resume awaiter ∈ scheduler.log.executed := by
    rw [hexecuted]
    exact List.mem_cons_self
  -- an earlier resumption of this awaiter would have been another run of this job
  have hnew : ∀ r ∈ s.resumed, r.awaiter ≠ awaiter.serial := by
    intro r hr hserial
    obtain ⟨awaiter', hserial', hexecuted'⟩ := h.recorded.executed r hr
    have hknown : s.Known awaiter' := .inr (h.scheduler.offered_of_executed hexecuted')
    obtain rfl := h.numbered.serial awaiter' awaiter hknown (.inr hpending.1) (hserial'.trans hserial)
    exact hpending.2 hexecuted'
  have hlisted := h.waits.listed_of_waitsFor hwaits
  refine ⟨(hinv.record handle hjob hnew hcompleted).continues hcont hlisted hfree ?_, handle, task,
    suspended, _, fun other => ⟨fun hother => ?_, fun heq => heq ▸ hwaits⟩, htask, hrest, hcompleted, rfl⟩
  · intro awaiter' ho hwaits'
    obtain rfl : awaiter = awaiter' := Option.some.inj (hwaits.symm.trans hwaits')
    exact h.not_outstanding hw hfinish ho
  · exact h.waits.apart _ _ _ _ hother hwaits rfl

/-- There is room for an awaiter, so that a resume job can be run. -/
theorem Inv.exists_step (h : Inv s) (hmisuse : s.misuse = none) {w : Nat} {awaiter : AwaiterRef}
    (hw : s.scheduler.workers w = .working (.resume awaiter)) (handle' : Nat) (bit : Bool) :
    ∃ address t, step coroutines s (.run w handle' address bit) = some t := by
  obtain ⟨handle, -, hhandle⟩ := h.waits.waiting awaiter (.inr (h.scheduler.working hw))
  have hfinish : ∃ scheduler, s.scheduler.step (.finish w) = some scheduler := by
    unfold Scheduler.step
    dsimp only
    rw [hw]
    exact ⟨_, rfl⟩
  obtain ⟨scheduler, hfinish⟩ := hfinish
  obtain ⟨address, hfree⟩ := exists_free { s with scheduler := scheduler } handle
  have hact : ∃ t, s.act coroutines (.run w handle' address bit) = some t := by
    unfold act
    dsimp only
    rw [hw]
    dsimp only
    rw [hfinish, Option.bind_some]
    unfold work
    dsimp only
    rw [hhandle, Option.all_some, if_pos hfree]
    exact ⟨_, rfl⟩
  obtain ⟨t, hact⟩ := hact
  refine ⟨address, t, ?_⟩
  unfold step
  rw [hmisuse]
  exact hact

end

/-! ## Runs -/

variable [Inhabited T]

theorem inv_init : Inv (init : CoroutineRuntime T S) where
  scheduler := Scheduler.valid_init
  numbered := by
    refine ⟨?_, ?_, nofun, List.nodup_nil⟩
    · rintro awaiter (h | h) <;> cases h
    · rintro awaiter awaiter' (h | h) <;> cases h
  waits := by
    refine ⟨fun handle h => absurd rfl h, ?_, nofun⟩
    rintro awaiter (h | ⟨h, -⟩) <;> cases h
  recorded := by
    refine ⟨?_, nofun, List.nodup_nil, nofun, List.nodup_nil, nofun⟩
    rintro awaiter ⟨h, -⟩
    cases h

theorem inv_step {coroutines : Coroutines T S} {s t : CoroutineRuntime T S} {a : Action T} (h : Inv s)
    (hstep : step coroutines s a = some t) : Inv t := by
  have hact := (step_cases hstep).2
  cases a with
  | complete p awaiter value =>
      obtain ⟨hs, hcomp⟩ := act_complete hact
      exact h.completes (Scheduler.valid_step h.scheduler hs) hcomp
  | request p n =>
      obtain ⟨scheduler, hs, rfl⟩ := Option.map_eq_some_iff.mp hact
      have hoffered : scheduler.log.offered = .request n :: s.scheduler.log.offered :=
        (Scheduler.step_cases hs).offered
      refine h.thread hs fun awaiter => ?_
      rw [hoffered, List.mem_cons]
      exact or_iff_right nofun
  | thread action =>
      cases action with
      | offer p priority job => cases hact
      | finish w => cases hact
      | stop =>
          cases hact
          have hs : s.scheduler.step .stop = some { s.scheduler with running := false } := rfl
          exact h.thread hs fun _ => Iff.rfl
      | _ =>
          obtain ⟨scheduler, hs, rfl⟩ := Option.map_eq_some_iff.mp hact
          have hoffered : scheduler.log.offered = s.scheduler.log.offered :=
            (Scheduler.step_cases hs).offered
          exact h.thread hs fun awaiter => by rw [hoffered]
  | run w handle address bit =>
      obtain ⟨job, scheduler, hw, hfinish, hwork⟩ := act_run hact
      cases job with
      | request n => exact (h.finish hw hfinish).2.work_request hwork
      | resume awaiter => exact (h.work_resume hw hfinish hwork).1

/-- **No cross-talk between asynchronous endpoints.** After any interleaving of requests, completions and
workers: every awaiter was completed at most once and resumed at most once, with the value it was completed
with; and a worker with a resume job can run it, and then resumes the one wrapper whose handler is suspended
on the awaiter of the job, and the handler goes on with the value of this awaiter; no other wrapper moves. -/
theorem resume_exact (coroutines : Coroutines T S) (as : List (Action T)) (s : CoroutineRuntime T S)
    (h : run (step coroutines) init as = some s) :
    (s.completed.map Prod.fst).Nodup ∧ (s.resumed.map (·.awaiter)).Nodup ∧
      (∀ r ∈ s.resumed, (r.awaiter, r.value) ∈ s.completed) ∧
      ∀ w awaiter, s.scheduler.workers w = .working (.resume awaiter) →
        (s.misuse = none → ∀ handle' bit, ∃ address t,
          step coroutines s (.run w handle' address bit) = some t) ∧
        ∀ handle' address bit t, step coroutines s (.run w handle' address bit) = some t →
          ∃ handle task suspended value scheduler,
            (∀ other, s.waitsFor other = some awaiter ↔ other = handle) ∧
            s.wrappers handle = some task ∧ task.frame.rest = some suspended ∧
            (awaiter.serial, value) ∈ s.completed ∧
            t = proceed { s with
              scheduler := scheduler
              resumed := ⟨awaiter.serial, handle, value⟩ :: s.resumed }
                coroutines handle task (suspended.next value) address ∧
            (∀ other, other ≠ handle → t.wrappers other = s.wrappers other) ∧ t.misuse = none := by
  have hinv : Inv s := run_invariant (fun _ _ _ => inv_step) inv_init h
  refine ⟨hinv.recorded.single, hinv.recorded.nodup, hinv.recorded.yields, fun w awaiter hw =>
    ⟨fun hmisuse handle' bit => hinv.exists_step hmisuse hw handle' bit, ?_⟩⟩
  intro handle' address bit t hstep
  obtain ⟨hmisuse, hact⟩ := step_cases hstep
  obtain ⟨job, scheduler, hjob, hfinish, hwork⟩ := act_run hact
  obtain rfl : .resume awaiter = job := WorkerPoint.working.inj (hw.symm.trans hjob)
  obtain ⟨-, handle, task, suspended, value, hunique, htask, hrest, hvalue, rfl⟩ :=
    hinv.work_resume hw hfinish hwork
  obtain ⟨hcont, hsame⟩ := continues_proceed { s with
    scheduler := scheduler
    resumed := ⟨awaiter.serial, handle, value⟩ :: s.resumed }
      coroutines handle task (suspended.next value) address
  exact ⟨handle, task, suspended, value, scheduler, hunique, htask, hrest, hvalue, rfl, hcont.wrappers,
    hsame.trans hmisuse⟩

/-- A handler that asks for two numbers, and returns 200. -/
def asksTwice : Coroutines Nat (List Nat) where
  endpoint := fun _ => some []
  body := fun numbers =>
    if numbers.length < 2 then .coAwait fun number => number :: numbers else .coReturn .e200

/-- Worker 0 obtains the next job. -/
def obtainJob : List (Action Nat) :=
  [.enter 0, .acquire 0, .check 0, .pop 0, .begin 0].map .thread

/-- Two handlers wait; the second awaiter completes first. -/
def twoWaiting : List (Action Nat) :=
  [.request 0 1, .thread (.push 0), .thread (.release 0)] ++ obtainJob ++ [.run 0 21 5 false] ++
    [.request 0 2, .thread (.push 0), .thread (.release 0)] ++ obtainJob ++ [.run 0 22 9 false] ++
    [.complete 0 ⟨9, 1⟩ 70, .thread (.push 0), .thread (.release 0)] ++
    [.complete 0 ⟨5, 0⟩ 30, .thread (.push 0), .thread (.release 0)] ++ obtainJob

theorem resume_exact_twoWaiting : ∃ s t, run (step asksTwice) init twoWaiting = some s ∧
    s.scheduler.workers 0 = .working (.resume ⟨9, 1⟩) ∧
    step asksTwice s (.run 0 0 9 false) = some t ∧
    ∃ handle task suspended value scheduler, (∀ other, s.waitsFor other = some ⟨9, 1⟩ ↔ other = handle) ∧
      s.wrappers handle = some task ∧ task.frame.rest = some suspended ∧ (1, value) ∈ s.completed ∧
      t = proceed { s with scheduler := scheduler, resumed := ⟨1, handle, value⟩ :: s.resumed }
        asksTwice handle task (suspended.next value) 9 ∧
      (∀ other, other ≠ handle → t.wrappers other = s.wrappers other) ∧ t.misuse = none :=
  ⟨_, _, rfl, rfl, rfl, ((resume_exact asksTwice twoWaiting _ rfl).2.2.2 0 ⟨9, 1⟩ rfl).2 0 9 false _ rfl⟩

end CoroutineRuntime

end Fipper
