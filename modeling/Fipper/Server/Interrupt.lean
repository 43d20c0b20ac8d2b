import Fipper.Server.Answers
import Fipper.Server.Handover

/-!
# The end signal

After SIGINT, `run` returns once it is back at the condition of its loop. How long that takes is up to the client it
serves: each time that data is there, `recieve` goes on.

* `Serving.toGo`, `RunPoint.toGo` : the steps that `run` has left;
* `Step.toReturn_le` : what a step does to them;
* `Inv.exists_closer` : `run` can take a step, or the owner of the mutex can;
* `exists_kept` : a client can keep it from returning;
* `signal_heeded` : the result.
-/

namespace Fipper

open Lib

/-- How many steps `run` has left with a client. A client that has sent data may send more. -/
@[simp] def Serving.toGo : Serving → Nat
  | polling => 8
  | recieving => 7
  | recv _ => 6
  | more _ written => if written = 0 then 5 else 7
  | handling _ => 4

/-- How many steps `run` has left when `s_endSignal` is set. -/
@[simp] def RunPoint.toGo : RunPoint → Nat
  | listening => 2
  | top => 1
  | accepting => 9
  | serving _ point => point.toGo
  | returned _ _ => 0

/-- How many of them are those of its guard. -/
@[simp] def ProducerPoint.toGo {J : Type*} : ProducerPoint J → Nat
  | outside => 2
  | locked _ _ => 1
  | pushed => 3

/-- `recv` returns data. -/
def Call.brings : Call → Bool
  | .recv (some (_ :: _)) => true
  | _ => false

theorem Serving.next_toGo {point next : Serving} {call : Call} (h : point.next call = some (.ok (some next))) :
    next.toGo + 1 ≤ point.toGo + if call.brings then 2 else 0 := by
  unfold Serving.next at h
  split at h
  · have h := Option.some.inj h
    unfold afterPolling at h
    split at h <;> cases h
    simp
  · have h := Option.some.inj h
    unfold afterRecieving at h
    split at h <;> cases h
    simp
  · next data result =>
      cases result with
      | none => cases h
      | some bytes =>
          cases h
          cases bytes <;> simp [Call.brings]
  · next data written result =>
      have h := Option.some.inj h
      unfold afterMore at h
      split at h
      · cases h
      · next dataToRecieve hdata =>
          obtain rfl := Option.some.inj (Except.ok.inj h)
          by_cases hwritten : written = 0
          · simp [hwritten]
          · cases dataToRecieve <;> simp [hwritten, Call.brings]
  · cases h

/-- Every point of a client that is left by a call is that far from the end of the loop at least. -/
theorem Serving.two_le_toGo {point : Serving} {call : Call} {result : Except Errors (Option Serving)}
    (h : point.next call = some result) : 2 ≤ point.toGo := by
  cases point with
  | handling request => cases call <;> cases h
  | more data written => simp only [toGo]; split_ifs <;> decide
  | _ => simp

namespace Running

def Action.brings : Action → Bool
  | .call made => made.brings
  | _ => false

theorem toGo_step {s t : Running} {action : Action} (hsignal : s.endSignal = true) (hown : action.own = true)
    (h : s.step action = some t) : t.point.toGo + 1 ≤ s.point.toGo + if action.brings then 2 else 0 := by
  cases action with
  | listen success =>
      obtain ⟨hpoint, h⟩ := Option.ite_none_right_eq_some.mp h
      obtain rfl := Option.some.inj h
      cases success <;> simp [hpoint, fail, Action.brings]
  | check =>
      obtain ⟨hpoint, h⟩ := Option.ite_none_right_eq_some.mp h
      obtain rfl := Option.some.inj h
      simp [hpoint, check, hsignal]
  | accept poll accepted =>
      obtain ⟨hpoint, h⟩ := Option.ite_none_right_eq_some.mp h
      obtain rfl := Option.some.inj h
      rw [hpoint]
      unfold accept
      split
      · simp [Action.brings]
      · simp [Action.brings]
      · simp [fail, Action.brings]
  | call call =>
      simp only [step] at h
      split at h
      · next connection point hpoint =>
          obtain ⟨result, hnext, rfl⟩ := Option.map_eq_some_iff.mp h
          have htwo := Serving.two_le_toGo hnext
          rw [hpoint]
          rcases result with errors | _ | next
          · simp only [called, fail, RunPoint.toGo]
            omega
          · simp only [called, RunPoint.toGo]
            omega
          · exact Serving.next_toGo hnext
      · cases h
  | _ => cases hown

end Running

/-! ## The thread in `run` -/

namespace ServerThreads

/-- The thread in `run` takes the step. -/
def Action.main : Action → Bool
  | .own _ | .guard | .push | .thread (.release 0) => true
  | _ => false

/-- The step brings data of a client. -/
def Action.brings : Action → Bool
  | .own action => action.brings
  | _ => false

/-- The thread that has the mutex takes the step. -/
def Action.ofOwner (s : ServerThreads) : Action → Prop
  | .thread action => ∃ thread, s.scheduler.mutex = some thread ∧ action.thread = some thread
  | _ => False

/-- `m_handleRequest` and `run` have returned. -/
def hasReturned (s : ServerThreads) : Bool :=
  match s.point, s.scheduler.producers 0 with
  | .returned _ _, .outside => true
  | _, _ => false

/-- How many steps `run` has left when `s_endSignal` is set, its guard included. -/
def toReturn (s : ServerThreads) : Nat := s.point.toGo + (s.scheduler.producers 0).toGo

variable {E V : Type} [RouteStringExtractor E V] {B R : Type}
variable {endpoints : List (Entry E (Callback V B R))} {comesBack : Bool}
variable {s t : ServerThreads} {a : Action} {connection : Nat}

theorem hasReturned_iff :
    s.hasReturned = true ↔
      (∃ result errors, s.point = .returned result errors) ∧ s.scheduler.producers 0 = .outside := by
  unfold hasReturned
  constructor
  · intro h
    split at h
    · next result errors hpoint hproducer => exact ⟨⟨result, errors, hpoint⟩, hproducer⟩
    · cases h
  · rintro ⟨⟨result, errors, hpoint⟩, hproducer⟩
    rw [hpoint, hproducer]

theorem toReturn_le (s : ServerThreads) : s.toReturn ≤ 12 := by
  have hpoint : s.point.toGo ≤ 9 := by
    cases s.point with
    | serving connection point =>
        cases point with
        | more data written => simp only [RunPoint.toGo, Serving.toGo]; split_ifs <;> decide
        | _ => simp
    | _ => simp
  have hproducer : (s.scheduler.producers 0).toGo ≤ 3 := by cases s.scheduler.producers 0 <;> simp
  unfold toReturn
  omega

/-- What a step does to the steps that are left. -/
theorem Step.toReturn_le (hs : Inv endpoints comesBack s) (hsignal : s.endSignal = true)
    (h : Step endpoints comesBack s a t) :
    t.endSignal = true ∧ t.toReturn + (if a.main then 1 else 0) ≤ s.toReturn + if a.brings then 2 else 0 := by
  cases h with
  | @own action loop hown hfree hloop =>
      have hle : loop.point.toGo + 1 ≤ s.point.toGo + if action.brings then 2 else 0 :=
        Running.toGo_step hsignal hown hloop
      refine ⟨hsignal, ?_⟩
      show loop.point.toGo + (s.scheduler.producers 0).toGo + 1 ≤
        s.point.toGo + (s.scheduler.producers 0).toGo + if action.brings then 2 else 0
      omega
  | signal => exact ⟨rfl, le_rfl⟩
  | @guard connection request scheduler hpoint hscheduler =>
      refine ⟨hsignal, ?_⟩
      cases Scheduler.step_cases hscheduler with
      | offer hp hm hnew => simp [toReturn, Action.main, Action.brings, hp]
  | @push connection request scheduler hpoint hscheduler =>
      refine ⟨hsignal, ?_⟩
      obtain ⟨hlocked, -⟩ := hs.push hpoint hscheduler
      have hle : (s.loop.handle connection request).point.toGo ≤ 1 := by
        rw [Running.handle_eq]
        dsimp only
        split_ifs <;> simp [Running.fail]
      cases Scheduler.step_cases hscheduler with
      | @push _ priority job hp =>
          have htoGo : s.toReturn = 5 := by simp [toReturn, hpoint, hlocked]
          have hpushed : ((s.scheduler.pushJob 0 priority job).producers 0).toGo = 3 := by simp [Scheduler.pushJob]
          rw [htoGo]
          show (s.loop.handle connection request).point.toGo +
            ((s.scheduler.pushJob 0 priority job).producers 0).toGo + 1 ≤ 5 + 0
          omega
  | @offer p priority awaiter scheduler hne hscheduler =>
      refine ⟨hsignal, ?_⟩
      cases Scheduler.step_cases hscheduler with
      | offer hp hm hnew => simp [toReturn, Action.main, Action.brings, Function.update_of_ne hne.symm]
  | @thread action scheduler handled hother hends hscheduler =>
      refine ⟨hsignal, ?_⟩
      rcases elsewhere_cases hscheduler hother with ⟨rfl, hpushed, hp⟩ | ⟨hne, hp⟩
      · simp [toReturn, Action.main, Action.brings, hpushed, hp]
      · have hmain : Action.main (.thread action) = false := by
          unfold Action.main
          split <;> simp_all
        simp [toReturn, hmain, Action.brings, hp]

/-! ## `run` returns -/

/-- A connection that is served has no job before the guard. -/
theorem Inv.fresh (hs : Inv endpoints comesBack s) (hsettled : s.Settled)
    (hledger : ∃ custody, Running.Ledger s.loop custody) {point : Serving}
    (hpoint : s.point = .serving connection point) (hp : s.scheduler.producers 0 = .outside) :
    .request connection ∉ s.scheduler.log.offered := by
  intro hoffered
  rcases hs.pushed _ hoffered with ⟨p, priority, hlocked⟩ | hmem | hrejected
  · obtain rfl := hs.foreign p priority connection hlocked
    rw [hp] at hlocked
    cases hlocked
  · obtain ⟨custody, hledger⟩ := hledger
    have hcustody := (hledger.has_iff .serving connection).mp ⟨point, hpoint⟩
    rw [(hledger.has_iff .handed connection).mp ((hs.mem_handed_iff connection).mpr hmem)] at hcustody
    cases hcustody
  · exact hsettled.refused connection hrejected point hpoint

/-- The owner of the mutex has no job that it could end. -/
theorem ends_of_owner (hx : Scheduler.Exclusive s.scheduler) {b : Scheduler.Action (Work Nat)}
    (howner : ∀ w ∈ b.worker, s.scheduler.mutex = some (.worker w)) : s.ends endpoints comesBack b = .ok [] := by
  unfold ends
  split
  · next w =>
      split
      · next connection hw =>
          have hinside : s.scheduler.inside (.worker w) = true := (hx (.worker w)).mpr (howner w rfl)
          simp [Scheduler.inside, hw, WorkerPoint.inside] at hinside
      · rfl
  · rfl

/-- How far `run` is from its end, with the steps of the thread it may have to wait for. -/
def distance (s : ServerThreads) : Nat := 3 * s.toReturn + s.scheduler.critical

/-- The thread that has the mutex can take a step. -/
theorem Inv.closer_of_mutex (hs : Inv endpoints comesBack s) (hsignal : s.endSignal = true)
    (hp : s.scheduler.producers 0 = .outside) {thread : Thread} (hm : s.scheduler.mutex = some thread) :
    ∃ a t, step endpoints comesBack s a = some t ∧ a.ofOwner s ∧ t.distance < s.distance := by
  obtain ⟨b, scheduler, hb, hongoing, hthread, hlt⟩ := Scheduler.exists_critical hs.valid.1 hm 0
  have hother : b.elsewhere = true := by
    cases b with
    | offer p priority job => exact absurd rfl (hongoing.1 p priority job)
    | push p =>
        have hne : p ≠ 0 := by
          rintro rfl
          simp [Scheduler.step, hp] at hb
        simp [Scheduler.Action.elsewhere, hne]
    | _ => rfl
  have howner : ∀ w ∈ b.worker, s.scheduler.mutex = some (.worker w) := fun w hw =>
    hm.trans (hthread.symm.trans (Scheduler.Action.thread_of_worker hw))
  have hstep : step endpoints comesBack s (.thread b) = some { s with scheduler := scheduler } := by
    simp [step, hother, ends_of_owner hs.valid.1 howner, hb]
  refine ⟨.thread b, _, hstep, ⟨thread, hm, hthread⟩, ?_⟩
  have hle := ((step_cases hstep).toReturn_le hs hsignal).2
  simp only [Action.brings, Bool.false_eq_true, if_false, Nat.add_zero] at hle
  unfold distance
  show 3 * toReturn { s with scheduler := scheduler } + scheduler.critical < _
  omega

/-- `run` can take a step, or the thread that has the mutex can. -/
theorem Inv.exists_closer (hs : Inv endpoints comesBack s) (hsettled : s.Settled)
    (hledger : ∃ custody, Running.Ledger s.loop custody) (hsignal : s.endSignal = true)
    (hnot : s.hasReturned = false) :
    ∃ a t, step endpoints comesBack s a = some t ∧ (a.main = true ∨ a.ofOwner s) ∧
      t.distance < s.distance := by
  have hmain {a : Action} (hsome : (step endpoints comesBack s a).isSome = true) (hmain : a.main = true)
      (hbrings : a.brings = false) :
      ∃ a t, step endpoints comesBack s a = some t ∧ (a.main = true ∨ a.ofOwner s) ∧
        t.distance < s.distance := by
    obtain ⟨t, hstep⟩ := Option.isSome_iff_exists.mp hsome
    have hle := ((step_cases hstep).toReturn_le hs hsignal).2
    have hcritical := t.scheduler.critical_le
    rw [if_pos hmain, hbrings] at hle
    refine ⟨a, t, hstep, .inl hmain, ?_⟩
    simp only [Bool.false_eq_true, if_false] at hle
    unfold distance
    omega
  cases hp : s.scheduler.producers 0 with
  | pushed =>
      have hends : s.ends endpoints comesBack (.release 0) = .ok [] := rfl
      refine hmain (a := .thread (.release 0)) ?_ rfl rfl
      simp [step, Scheduler.Action.elsewhere, hends, Scheduler.step, hp]
  | locked priority job =>
      obtain ⟨-, connection, request, hpoint, -⟩ := hs.locked priority job hp
      exact hmain (a := .push) (by simp [step, hpoint, Scheduler.step, hp]) rfl rfl
  | outside =>
      have hown {action : Running.Action} (hown : action.own = true) (hbrings : action.brings = false)
          (hsome : (s.loop.step action).isSome = true) :
          ∃ a t, step endpoints comesBack s a = some t ∧ (a.main = true ∨ a.ofOwner s) ∧
            t.distance < s.distance := by
        refine hmain (a := .own action) ?_ rfl hbrings
        simpa [step, hown, hp, ProducerPoint.inside] using hsome
      cases hpoint : s.point with
      | listening => exact @hown (.listen true) rfl rfl (by simp [Running.step, loop, hpoint])
      | top => exact @hown .check rfl rfl (by simp [Running.step, loop, hpoint])
      | accepting =>
          exact @hown (.accept Running.nothingThere false) rfl rfl (by simp [Running.step, loop, hpoint])
      | returned result errors =>
          rw [hasReturned_iff.mpr ⟨⟨result, errors, hpoint⟩, hp⟩] at hnot
          cases hnot
      | serving connection point =>
          cases point with
          | handling request =>
              cases hm : s.scheduler.mutex with
              | some thread =>
                  obtain ⟨a, t, hstep, howner, hlt⟩ := hs.closer_of_mutex hsignal hp hm
                  exact ⟨a, t, hstep, .inr howner, hlt⟩
              | none =>
                  have hfresh := hs.fresh hsettled hledger hpoint hp
                  exact hmain (a := .guard) (by simp [step, hpoint, Scheduler.step, hp, hm, hfresh]) rfl rfl
          | recv data =>
              exact @hown (.call (.recv none)) rfl rfl (by simp [Running.step, loop, hpoint, Serving.next])
          | _ =>
              exact @hown (.call (.poll Running.nothingThere)) rfl rfl
                (by simp [Running.step, loop, hpoint, Serving.next])

/-- A client that keeps sending keeps `run` from returning. -/
theorem exists_kept (hfree : (s.scheduler.producers 0).inside = false) {data : Str}
    (hpoint : s.point = .serving connection (.recv data)) (n : Nat) :
    ∃ more t, run (step endpoints comesBack) s more = some t ∧ n ≤ more.countP Action.main ∧
      t.hasReturned = false := by
  induction n generalizing s data with
  | zero =>
      refine ⟨[], s, rfl, Nat.zero_le _, ?_⟩
      simp [hasReturned, hpoint]
  | succ n ih =>
      obtain ⟨t, ht, hpoint', hfree'⟩ : ∃ t, run (step endpoints comesBack) s
          [.own (.call (.recv (some ['x']))), .own (.call (.poll Running.dataThere))] = some t ∧
            t.point = .serving connection (.recv (data ++ ['x'])) ∧ (t.scheduler.producers 0).inside = false := by
        refine ⟨s.setLoop { s.loop with point := .serving connection (.recv (data ++ ['x'])) }, ?_, rfl, hfree⟩
        simp [step, Running.Action.own, hfree, Running.step, loop, hpoint, Serving.next, Serving.afterRecv,
          Running.called, setLoop, Serving.afterMore, Running.dataThere, Socket.hasDataToRecieve]
      obtain ⟨more, u, hmore, hcount, hnot⟩ := ih hfree' hpoint'
      refine ⟨_, u, by rw [run_append ht, hmore], ?_, hnot⟩
      rw [List.countP_append]
      have htwo : List.countP Action.main
          [.own (.call (.recv (some ['x']))), .own (.call (.poll Running.dataThere))] = 2 := rfl
      omega

/-- What holds after SIGINT. -/
structure Interrupted (endpoints : List (Entry E (Callback V B R))) (comesBack : Bool) (s : ServerThreads) : Prop where
  inv : Inv endpoints comesBack s
  ledger : ∃ custody, Running.Ledger s.loop custody
  settled : s.Settled
  signal : s.endSignal = true

theorem Interrupted.step (h : Interrupted endpoints comesBack s) (hstep : step endpoints comesBack s a = some t) :
    Interrupted endpoints comesBack t where
  inv := inv_step h.inv hstep
  ledger := ledger_run h.ledger (loop_step h.inv hstep)
  settled := settled_step h.inv h.settled (ledger_run h.ledger (loop_step h.inv hstep)) hstep
  signal := ((step_cases hstep).toReturn_le h.inv h.signal).1

theorem settled_run {as : List Action} (h : run (ServerThreads.step endpoints comesBack) start as = some s) :
    s.Settled := by
  have hstep : ∀ (s : ServerThreads) a t,
      (Inv endpoints comesBack s ∧ (∃ custody, Running.Ledger s.loop custody) ∧ s.Settled) →
        ServerThreads.step endpoints comesBack s a = some t →
          Inv endpoints comesBack t ∧ (∃ custody, Running.Ledger t.loop custody) ∧ t.Settled := by
    rintro s a t ⟨hs, hledger, hsettled⟩ hstep
    have hledger' := ledger_run hledger (loop_step hs hstep)
    exact ⟨inv_step hs hstep, hledger', settled_step hs hsettled hledger' hstep⟩
  exact (run_invariant hstep ⟨inv_start, ⟨_, Running.ledger_start⟩, settled_start⟩ h).2.2

/-- **SIGINT ends `run`, as far as its client lets it.** Whatever the threads have done before and do then, `run`
takes at most twelve steps once `s_endSignal` is set, and two for each time that its client sends something. It can
always be brought to its end, in at most 38 steps of its own, the push of the request it serves among them, and of
the thread that has the mutex at that time; but while it reads from a client, nothing else than the client bounds its
steps. -/
theorem signal_heeded (endpoints : List (Entry E (Callback V B R))) (comesBack : Bool) (as : List Action)
    (s : ServerThreads) (h : run (step endpoints comesBack) start as = some s) (hsignal : s.endSignal = true) :
    (∀ more t, run (step endpoints comesBack) s more = some t →
        more.countP Action.main ≤ 12 + 2 * more.countP Action.brings) ∧
      (∃ more t, run (step endpoints comesBack) s more = some t ∧
        Along (step endpoints comesBack) (fun s a => a.main = true ∨ a.ofOwner s) s more ∧ more.length ≤ 38 ∧
        t.hasReturned = true) ∧
      ∀ connection data, s.point = .serving connection (.recv data) → ∀ n, ∃ more t,
        run (step endpoints comesBack) s more = some t ∧ n ≤ more.countP Action.main ∧ t.hasReturned = false := by
  have hs : Interrupted endpoints comesBack s := ⟨inv_run h, exists_ledger h, settled_run h, hsignal⟩
  have hle := s.toReturn_le
  refine ⟨fun more t hmore => ?_, ?_, fun connection data hpoint n => exists_kept ?_ hpoint n⟩
  · have hcount := @run_countP_le_add _ _ (step endpoints comesBack) (Interrupted endpoints comesBack) toReturn
      Action.main Action.brings 2
      (fun s a t hs hstep => ⟨hs.step hstep, ((step_cases hstep).toReturn_le hs.inv hs.signal).2⟩) more s t hs hmore
    omega
  · have hstep : ∀ u : ServerThreads, Interrupted endpoints comesBack u → ¬ u.hasReturned = true →
        ∃ a v, step endpoints comesBack u a = some v ∧ (a.main = true ∨ a.ofOwner u) ∧
          Interrupted endpoints comesBack v ∧ v.distance < u.distance := by
      intro u hu hnot
      obtain ⟨a, v, hv, hok, hlt⟩ := hu.inv.exists_closer hu.settled hu.ledger hu.signal
        (Bool.eq_false_of_not_eq_true hnot)
      exact ⟨a, v, hv, hok, hu.step hv, hlt⟩
    obtain ⟨more, t, hmore, halong, -, hreturned, hlength⟩ := exists_run hstep hs
    have hcritical := s.scheduler.critical_le
    refine ⟨more, t, hmore, halong, ?_, hreturned⟩
    unfold distance at hlength
    omega
  · cases hp : s.scheduler.producers 0 with
    | outside => rfl
    | locked priority job =>
        obtain ⟨-, connection', request, hpoint', -⟩ := hs.inv.locked priority job hp
        rw [hpoint] at hpoint'
        cases hpoint'
    | pushed => exact absurd hpoint (((hs.settled.returning hp).2 connection).1 _)

/-- SIGINT comes while a request is read. -/
def readingInterrupted : List Action :=
  [.own (.listen true), .own .check, .own (.accept Running.dataThere true),
    .own (.call (.poll Running.dataThere)), .own (.call (.poll Running.dataThere)), .signal]

theorem signal_heeded_reading : ∃ s, run (step (build [root]) true) start readingInterrupted = some s ∧
    (∀ n, ∃ more t, run (step (build [root]) true) s more = some t ∧ n ≤ more.countP Action.main ∧
      t.hasReturned = false) ∧
    ∃ more t, run (step (build [root]) true) s more = some t ∧ more.length ≤ 38 ∧ t.hasReturned = true := by
  have hview : (run (step (build [root]) true) start readingInterrupted).map (fun s => (s.point, s.endSignal)) =
      some (.serving 0 (.recv []), true) := rfl
  obtain ⟨s, hrun, hview⟩ := Option.map_eq_some_iff.mp hview
  obtain ⟨hpoint, hsignal⟩ := Prod.mk.inj hview
  obtain ⟨-, ⟨more, t, hmore, -, hlength, hreturned⟩, hkept⟩ :=
    signal_heeded (build [root]) true readingInterrupted s hrun hsignal
  exact ⟨s, hrun, hkept 0 [] hpoint, more, t, hmore, hlength, hreturned⟩

end ServerThreads

end Fipper
