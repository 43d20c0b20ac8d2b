import Fipper.Container.RollingQueue
import Fipper.Lib.PriorityQueue
import Fipper.Lib.Transition

/-!
# `JobQueue`

One ring buffer for each `JobPriority` and the number of jobs held, kept by hand in
`s_queuedJobsCount`. The static members are the state, `push` and `pop` take and return it; both are
called with `s_mutex` held.

`Represents q s` relates the code's state to the lists of a bounded stable priority queue
(`Lib.PriorityQueue`): each ring holds its list and the counter, a 64-bit word, is the total.
`push_represents` and `pop_represents` are the two simulation steps, `jobQueue_refines` is the run.
-/

namespace Fipper

open Lib

/-- `fp::JobPriority`, in the order of the enumerators' values. -/
inductive JobPriority
  | eLowest
  | eLow
  | eMedium
  | eHigh
  | eCritical
  | eResumingJob
  deriving Repr

namespace JobPriority

/-- `static_cast<std::size_t>(priority)`. -/
def index : JobPriority → Fin 6
  | eLowest => 0
  | eLow => 1
  | eMedium => 2
  | eHigh => 3
  | eCritical => 4
  | eResumingJob => 5

theorem index_injective : Function.Injective index := by
  intro p p' h
  cases p <;> cases p' <;> first | rfl | cases h

instance : LinearOrder JobPriority := LinearOrder.lift' index index_injective

/-- The priorities in the order of the array `s_queues`. -/
def values : List JobPriority := [eLowest, eLow, eMedium, eHigh, eCritical, eResumingJob]

theorem mem_values (p : JobPriority) : p ∈ values := by cases p <;> decide

instance : Fintype JobPriority := ⟨⟨values, by decide⟩, mem_values⟩

end JobPriority

/-- `FP_JOB_QUEUE_SIZE`, as the build defines it. -/
def fpJobQueueSize : Nat := 16

/-- `s_queues` and `s_queuedJobsCount`. -/
structure JobQueue (J : Type*) where
  queues : JobPriority → StackBasedRollingQueue J fpJobQueueSize
  queuedJobsCount : UInt64

namespace JobQueue
variable {J : Type*}

/-- The initial values of the static members. -/
def init : JobQueue J := ⟨fun _ => .init, 0⟩

def push (q : JobQueue J) (priority : JobPriority) (job : J) : Result × JobQueue J :=
  let (result, queue) := (q.queues priority).push job
  if result ≠ .eSuccess then (result, ⟨Function.update q.queues priority queue, q.queuedJobsCount⟩)
  else (.eSuccess, ⟨Function.update q.queues priority queue, q.queuedJobsCount + 1⟩)

/-- The loop of `pop` over the queues that remain to be looked at. -/
def popLoop (q : JobQueue J) : List JobPriority → Option J × JobQueue J
  | [] => (none, q)
  | priority :: priorities =>
      if (q.queues priority).empty then q.popLoop priorities
      else
        let (job, queue) := (q.queues priority).pop
        (job, ⟨Function.update q.queues priority queue, q.queuedJobsCount - 1⟩)

def pop (q : JobQueue J) : Option J × JobQueue J := q.popLoop JobPriority.values.reverse

/-! ## Refinement -/

/-- The code's state holds the lists `s`. -/
structure Represents (q : JobQueue J) (s : JobPriority → List J) : Prop where
  queue : ∀ p, (q.queues p).Represents (s p)
  count : q.queuedJobsCount.toNat = PriorityQueue.total s

theorem fpJobQueueSize_pos : 0 < fpJobQueueSize := by decide

/-- All the rings together hold fewer jobs than the counter can count. -/
theorem Represents.total_lt {q : JobQueue J} {s : JobPriority → List J} (h : Represents q s) :
    PriorityQueue.total s + 1 < 2 ^ 64 := by
  have hle := PriorityQueue.total_le fun p => (h.queue p).length_le
  have hcap : Fintype.card JobPriority * fpJobQueueSize + 1 < 2 ^ 64 := by decide
  omega

theorem represents_init : Represents (init : JobQueue J) fun _ => [] where
  queue _ := StackBasedRollingQueue.represents_init fpJobQueueSize_pos
  count := by simp [init, PriorityQueue.total]

/-- A push to a full ring changes nothing at all. -/
theorem push_full {q : JobQueue J} {s : JobPriority → List J} (h : Represents q s) {p : JobPriority}
    (hfull : (s p).length = fpJobQueueSize) (job : J) : q.push p job = (.eSaturated, q) := by
  rw [push, StackBasedRollingQueue.push_full (h.queue p) hfull job]
  simp

theorem push_of_lt {q : JobQueue J} {s : JobPriority → List J} (h : Represents q s) {p : JobPriority}
    (hlt : (s p).length < fpJobQueueSize) (job : J) :
    (q.push p job).1 = .eSuccess ∧
      Represents (q.push p job).2 (Function.update s p (s p ++ [job])) := by
  obtain ⟨hres, hq⟩ := StackBasedRollingQueue.push_of_lt (h.queue p) hlt job
  have hpush : q.push p job = (.eSuccess,
      ⟨Function.update q.queues p ((q.queues p).push job).2, q.queuedJobsCount + 1⟩) := by
    simp [push, hres]
  rw [hpush]
  refine ⟨rfl, fun p' => ?_, ?_⟩
  · by_cases hp : p' = p
    · subst hp
      simpa using hq
    · simpa [Function.update_of_ne hp] using h.queue p'
  · have htotal := PriorityQueue.total_update s p (s p ++ [job])
    have hbound := h.total_lt
    rw [List.length_append, List.length_singleton] at htotal
    show (q.queuedJobsCount + 1).toNat = _
    rw [UInt64.toNat_add, h.count, UInt64.toNat_one, Nat.mod_eq_of_lt hbound]
    omega

theorem push_eq_eSuccess_iff {q : JobQueue J} {s : JobPriority → List J} (h : Represents q s)
    (p : JobPriority) (job : J) :
    (q.push p job).1 = .eSuccess ↔ (q.queues p).size < fpJobQueueSize := by
  rw [(h.queue p).size_eq]
  constructor
  · intro hres
    refine Nat.lt_of_le_of_ne (h.queue p).length_le fun hfull => ?_
    rw [push_full h hfull] at hres
    cases hres
  · exact fun hlt => (push_of_lt h hlt job).1

/-- **`push` refines the abstract `push`.** -/
theorem push_represents {q : JobQueue J} {s : JobPriority → List J} (h : Represents q s)
    (p : JobPriority) (job : J) :
    (q.push p job).1 =
        (if (PriorityQueue.push fpJobQueueSize s p job).1 then .eSuccess else .eSaturated) ∧
      Represents (q.push p job).2 (PriorityQueue.push fpJobQueueSize s p job).2 := by
  by_cases hfull : (s p).length = fpJobQueueSize
  · rw [push_full h hfull, PriorityQueue.push, if_pos hfull]
    exact ⟨rfl, h⟩
  · have hlt : (s p).length < fpJobQueueSize :=
      Nat.lt_of_le_of_ne (h.queue p).length_le hfull
    obtain ⟨hres, hq⟩ := push_of_lt h hlt job
    rw [PriorityQueue.push, if_neg hfull, hres]
    exact ⟨rfl, hq⟩

theorem pop_ring {q : JobQueue J} {s : JobPriority → List J} (h : Represents q s) {p : JobPriority}
    {job : J} {jobs : List J} (hp : s p = job :: jobs) :
    (q.queues p).pop.1 = some job ∧
      Represents ⟨Function.update q.queues p (q.queues p).pop.2, q.queuedJobsCount - 1⟩
        (Function.update s p jobs) := by
  obtain ⟨hjob, hq⟩ := StackBasedRollingQueue.pop_cons (hp ▸ h.queue p)
  refine ⟨hjob, fun p' => ?_, ?_⟩
  · by_cases hne : p' = p
    · subst hne
      simpa using hq
    · simpa [Function.update_of_ne hne] using h.queue p'
  · have htotal := PriorityQueue.total_update s p jobs
    rw [hp, List.length_cons] at htotal
    have hpos : 1 ≤ q.queuedJobsCount.toNat := by rw [h.count]; omega
    have hle : (1 : UInt64) ≤ q.queuedJobsCount := by simpa [UInt64.le_iff_toNat_le] using hpos
    show (q.queuedJobsCount - 1).toNat = _
    rw [UInt64.toNat_sub_of_le _ _ hle, h.count, UInt64.toNat_one]
    rw [h.count] at hpos
    omega

/-- The loop passes over empty queues and takes from the first that is not. -/
theorem popLoop_represents {q : JobQueue J} {s : JobPriority → List J} (h : Represents q s)
    {priorities : List JobPriority} (hsorted : priorities.Pairwise (· > ·))
    (hrest : ∀ p, p ∉ priorities → s p = []) :
    (q.popLoop priorities).1 = (PriorityQueue.pop s).1 ∧
      Represents (q.popLoop priorities).2 (PriorityQueue.pop s).2 := by
  induction priorities with
  | nil =>
      have hbot : PriorityQueue.highest s = ⊥ :=
        PriorityQueue.highest_eq_bot_iff.mpr fun p => hrest p List.not_mem_nil
      rw [PriorityQueue.pop_of_bot hbot]
      exact ⟨rfl, h⟩
  | cons p priorities ih =>
      rw [List.pairwise_cons] at hsorted
      rw [popLoop]
      cases hp : s p with
      | nil =>
          rw [if_pos ((h.queue p).empty_iff.mpr hp)]
          refine ih hsorted.2 fun p' hp' => ?_
          by_cases heq : p' = p
          · rw [heq, hp]
          · exact hrest p' (by simp [heq, hp'])
      | cons job jobs =>
          have hne : (q.queues p).empty ≠ true := by
            rw [Ne, (h.queue p).empty_iff, hp]
            exact List.cons_ne_nil _ _
          have htop : PriorityQueue.highest s = p := by
            refine PriorityQueue.highest_eq_coe_iff.mpr ⟨by rw [hp]; exact List.cons_ne_nil _ _, ?_⟩
            intro p' hlt
            refine hrest p' fun hmem => ?_
            rcases List.mem_cons.mp hmem with rfl | hmem
            · exact lt_irrefl _ hlt
            · exact lt_asymm hlt (hsorted.1 p' hmem)
          obtain ⟨hjob, hq⟩ := pop_ring h hp
          rw [if_neg hne, PriorityQueue.pop_of_highest htop, hp]
          exact ⟨hjob, by simpa using hq⟩

/-- **`pop` refines the abstract `pop`.** -/
theorem pop_represents {q : JobQueue J} {s : JobPriority → List J} (h : Represents q s) :
    q.pop.1 = (PriorityQueue.pop s).1 ∧ Represents q.pop.2 (PriorityQueue.pop s).2 := by
  refine popLoop_represents h (by decide) fun p hp => absurd ?_ hp
  cases p <;> decide

/-- A queue with a job waiting gives one, the oldest of its priority. -/
theorem pop_of_ne_nil {q : JobQueue J} {s : JobPriority → List J} (h : Represents q s)
    (hne : ∃ p, s p ≠ []) :
    ∃ p job jobs, s p = job :: jobs ∧ q.pop.1 = some job ∧
      Represents q.pop.2 (Function.update s p jobs) := by
  obtain ⟨hjob, hq⟩ := pop_represents h
  cases htop : PriorityQueue.highest s with
  | bot =>
      obtain ⟨p, hp⟩ := hne
      exact absurd (PriorityQueue.highest_eq_bot_iff.mp htop p) hp
  | coe p =>
      obtain ⟨job, jobs, hp⟩ := List.exists_cons_of_ne_nil (PriorityQueue.highest_eq_coe_iff.mp htop).1
      rw [PriorityQueue.pop_of_highest htop, hp] at hjob hq
      exact ⟨p, job, jobs, hp, hjob, hq⟩

/-! ## Runs -/

inductive Op (J : Type*)
  | push (priority : JobPriority) (job : J)
  | pop

inductive Answer (J : Type*)
  | pushed (result : Result)
  | popped (job : Option J)

/-- One operation of the code. -/
def exec (q : JobQueue J) : Op J → Answer J × JobQueue J
  | .push priority job => (.pushed (q.push priority job).1, (q.push priority job).2)
  | .pop => (.popped q.pop.1, q.pop.2)

/-- One operation of the specification: bounded lists, one for each priority. -/
def specExec (s : JobPriority → List J) : Op J → Answer J × (JobPriority → List J)
  | .push priority job =>
      let (accepted, s') := PriorityQueue.push fpJobQueueSize s priority job
      (.pushed (if accepted then .eSuccess else .eSaturated), s')
  | .pop =>
      let (job, s') := PriorityQueue.pop s
      (.popped job, s')

theorem exec_refines (q : JobQueue J) (s : JobPriority → List J) (op : Op J) (h : Represents q s) :
    (q.exec op).1 = (specExec s op).1 ∧ Represents (q.exec op).2 (specExec s op).2 := by
  cases op with
  | push p job =>
      obtain ⟨hres, hq⟩ := push_represents h p job
      exact ⟨congrArg Answer.pushed hres, hq⟩
  | pop =>
      obtain ⟨hres, hq⟩ := pop_represents h
      exact ⟨congrArg Answer.popped hres, hq⟩

/-- **The job queue is a bounded stable priority queue.** Every sequence of operations gets the
answers of the specification, and after it: the counter is the number of jobs held, a push to a full
list is refused and leaves the very same state, and nothing is popped exactly when all lists are
empty. -/
theorem jobQueue_refines (ops : List (Op J)) :
    let q := (trace exec (init : JobQueue J) ops).2
    let s := (trace specExec (fun _ => []) ops).2
    (trace exec (init : JobQueue J) ops).1 = (trace specExec (fun _ => []) ops).1 ∧
      q.queuedJobsCount.toNat = ∑ p, (s p).length ∧
      (∀ p job, (s p).length = fpJobQueueSize → q.push p job = (.eSaturated, q)) ∧
      (q.pop.1 = none ↔ ∀ p, s p = []) := by
  obtain ⟨heq, hq⟩ := trace_refines exec_refines ops (represents_init (J := J))
  refine ⟨heq, hq.count, fun p job hfull => push_full hq hfull job, ?_⟩
  rw [(pop_represents hq).1, PriorityQueue.pop_eq_none_iff]

end JobQueue

end Fipper
