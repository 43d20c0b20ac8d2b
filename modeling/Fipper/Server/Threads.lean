import Fipper.Job.Order
import Fipper.Lib.Sequence
import Fipper.Server.Message
import Fipper.Server.Run

/-!
# The threads of a server

`Server::run` in one thread, the workers of its scheduler, and other threads that push resume jobs. The
push of `m_handleRequest` is taken apart at its guard, as in `Scheduler`, where the thread in `run` is
producer 0; the job of a connection answers the request that was read from it.

* `step` : the transition system, for the endpoints of a server;
* `Running.Ledger` : the accept loop has each connection in one place;
* `loop_refines` : for the accept loop, a push under the guard is one step (`Running`);
* `requests_received` : its request is what was read from it;
* `connections_kept` : a connection that was accepted is in one place, and what is done is done for its request;
* `served_in_order` : the workers take the connections in the order in which they were accepted.
-/

namespace Fipper

open Lib

/-! ## The connections of the accept loop -/

namespace Running

/-- Where the accept loop has a connection. -/
inductive Custody
  | serving
  | silent
  /-- `run` has returned on its account. -/
  | lost
  | handed
  deriving DecidableEq, Repr

def Has (s : Running) : Custody → Nat → Prop
  | .serving, connection => ∃ point, s.point = .serving connection point
  | .silent, connection => connection ∈ s.silent
  | .lost, connection => s.Stopped ∧ connection + 1 = s.accepted
  | .handed, connection => connection ∈ s.handed.map Prod.fst

/-- A ledger `custody` has the one place of every connection that was accepted; the thread serves the latest
of them, and hands them over in order. -/
structure Ledger (s : Running) (custody : Nat → Option Custody) : Prop where
  has_iff : ∀ place connection, s.Has place connection ↔ custody connection = some place
  unknown : ∀ connection, custody connection = none ↔ s.accepted ≤ connection
  latest : ∀ connection point, s.point = .serving connection point → connection + 1 = s.accepted
  sorted : (s.handed.map Prod.fst).Pairwise (· > ·)

variable {s t : Running} {a : Action}

theorem ledger_start : Ledger start fun _ => none where
  has_iff place connection := by
    refine iff_of_false ?_ (Option.some_ne_none place).symm
    cases place with
    | serving => exact nofun
    | silent => exact List.not_mem_nil
    | lost => exact fun h => nomatch h.1
    | handed => exact List.not_mem_nil
  unknown _ := iff_of_true rfl (Nat.zero_le _)
  latest := nofun
  sorted := List.Pairwise.nil

theorem not_stopped_of_serving {connection : Nat} {point : Serving} (h : s.point = .serving connection point) :
    ¬ s.Stopped := by
  rintro ⟨errors, hpoint, -⟩
  rw [h] at hpoint
  cases hpoint

/-- The thread serves a client only if it did so before, or has just accepted it. -/
theorem serving_step (h : s.step a = some t) {connection : Nat} {point : Serving}
    (ht : t.point = .serving connection point) :
    (∃ connection point, s.point = .serving connection point) ∨ t.accepted = s.accepted + 1 := by
  cases a with
  | listen success =>
      obtain ⟨-, h⟩ := Option.ite_none_right_eq_some.mp h
      obtain rfl := Option.some.inj h
      cases success <;> cases ht
  | check =>
      obtain ⟨-, h⟩ := Option.ite_none_right_eq_some.mp h
      obtain rfl := Option.some.inj h
      unfold check at ht
      dsimp only at ht
      split at ht <;> cases ht
  | accept poll accepted =>
      obtain ⟨-, h⟩ := Option.ite_none_right_eq_some.mp h
      obtain rfl := Option.some.inj h
      unfold accept at ht ⊢
      split at ht
      · exact .inr rfl
      · cases ht
      · cases ht
  | call call =>
      simp only [step] at h
      split at h
      · next connection point hpoint => exact .inl ⟨connection, point, hpoint⟩
      · cases h
  | handleRequest =>
      simp only [step] at h
      split at h
      · next connection request hpoint => exact .inl ⟨connection, _, hpoint⟩
      · cases h
  | signal =>
      obtain rfl := Option.some.inj h
      exact .inl ⟨connection, point, ht⟩
  | push priority job =>
      obtain rfl := Option.some.inj h
      exact .inl ⟨connection, point, ht⟩
  | pop =>
      obtain rfl := Option.some.inj h
      exact .inl ⟨connection, point, ht⟩

/-- Nothing changes hands. -/
theorem Ledger.keep {custody : Nat → Option Custody} (h : Ledger s custody)
    (hserving : ∀ connection, t.Has .serving connection ↔ s.Has .serving connection)
    (hstopped : t.Stopped ↔ s.Stopped) (haccepted : t.accepted = s.accepted)
    (hhanded : t.handed = s.handed) (hsilent : t.silent = s.silent) : Ledger t custody where
  has_iff place connection := by
    rw [← h.has_iff]
    cases place with
    | serving => exact hserving connection
    | silent => rw [Has, Has, hsilent]
    | lost => rw [Has, Has, hstopped, haccepted]
    | handed => rw [Has, Has, hhanded]
  unknown connection := haccepted ▸ h.unknown connection
  latest connection point hpoint := by
    obtain ⟨point', hpoint'⟩ := (hserving connection).mp ⟨point, hpoint⟩
    exact haccepted ▸ h.latest connection point' hpoint'
  sorted := hhanded ▸ h.sorted

/-- The thread is done with the client it serves. -/
theorem Ledger.settle {custody : Nat → Option Custody} (h : Ledger s custody) {connection : Nat}
    {point : Serving} (hpoint : s.point = .serving connection point) {place : Custody}
    (hself : ∀ place', t.Has place' connection ↔ place' = place)
    (hothers : ∀ place' connection', connection' ≠ connection →
      (t.Has place' connection' ↔ s.Has place' connection'))
    (haccepted : t.accepted = s.accepted) (hfree : ∀ connection point, t.point ≠ .serving connection point)
    (hsorted : (t.handed.map Prod.fst).Pairwise (· > ·)) :
    Ledger t (Function.update custody connection (some place)) where
  has_iff place' connection' := by
    by_cases heq : connection' = connection
    · rw [heq, hself, Function.update_self, Option.some.injEq, eq_comm]
    · rw [hothers place' connection' heq, Function.update_of_ne heq, h.has_iff]
  unknown connection' := by
    rw [haccepted, ← h.unknown]
    by_cases heq : connection' = connection
    · have hserving := (h.has_iff .serving connection).mp ⟨point, hpoint⟩
      rw [heq, Function.update_self, hserving]
      exact iff_of_false nofun nofun
    · rw [Function.update_of_ne heq]
  latest connection' point' hpoint' := absurd hpoint' (hfree connection' point')
  sorted := hsorted

/-- No other connection is being served, or was lost. -/
theorem Ledger.others {custody : Nat → Option Custody} (h : Ledger s custody) {connection : Nat}
    {point : Serving} (hpoint : s.point = .serving connection point) {connection' : Nat}
    (hne : connection' ≠ connection) :
    ¬ s.Has .serving connection' ∧ ∀ t : Running, t.accepted = s.accepted → ¬ t.Has .lost connection' := by
  constructor
  · rintro ⟨point', hpoint'⟩
    rw [hpoint] at hpoint'
    exact hne (RunPoint.serving.inj hpoint').1.symm
  · rintro t haccepted ⟨-, hlast⟩
    have hlatest := h.latest connection point hpoint
    omega

theorem Ledger.serving {custody : Nat → Option Custody} (h : Ledger s custody) {connection : Nat}
    {point : Serving} (hpoint : s.point = .serving connection point) {place : Custody}
    (hplace : place ≠ .serving) : ¬ s.Has place connection := by
  rw [h.has_iff, (h.has_iff .serving connection).mp ⟨point, hpoint⟩, Option.some.injEq]
  exact hplace.symm

/-- A new client. -/
theorem Ledger.accept {custody : Nat → Option Custody} (h : Ledger s custody) (hpoint : s.point = .accepting) :
    Ledger { s with point := .serving s.accepted .polling, accepted := s.accepted + 1 }
      (Function.update custody s.accepted (some .serving)) where
  has_iff place connection := by
    have hstopped : ¬ s.Stopped := by
      rintro ⟨errors, hreturned, -⟩
      rw [hpoint] at hreturned
      cases hreturned
    by_cases heq : connection = s.accepted
    · subst heq
      have hnone : ∀ place, ¬ s.Has place s.accepted := fun place hplace => by
        rw [h.has_iff, (h.unknown _).mpr (le_refl _)] at hplace
        cases hplace
      rw [Function.update_self, Option.some.injEq]
      cases place with
      | serving => exact iff_of_true ⟨.polling, rfl⟩ rfl
      | silent => exact iff_of_false (hnone .silent) nofun
      | lost => exact iff_of_false (fun hlost => not_stopped_of_serving rfl hlost.1) nofun
      | handed => exact iff_of_false (hnone .handed) nofun
    · rw [Function.update_of_ne heq, ← h.has_iff]
      cases place with
      | serving =>
          refine iff_of_false ?_ ?_
          · rintro ⟨point, hserving⟩
            exact heq (RunPoint.serving.inj hserving).1.symm
          · rintro ⟨point, hserving⟩
            rw [hpoint] at hserving
            cases hserving
      | silent => exact Iff.rfl
      | lost => exact iff_of_false (fun hlost => not_stopped_of_serving rfl hlost.1) fun hlost => hstopped hlost.1
      | handed => exact Iff.rfl
  unknown connection := by
    by_cases heq : connection = s.accepted
    · rw [heq, Function.update_self]
      exact iff_of_false nofun (Nat.not_succ_le_self _)
    · rw [Function.update_of_ne heq, h.unknown]
      show s.accepted ≤ connection ↔ s.accepted + 1 ≤ connection
      omega
  latest connection point hserving := congrArg (· + 1) (RunPoint.serving.inj hserving).1.symm
  sorted := h.sorted

theorem returned_free {errors : Errors} {result : Result} (hpoint : t.point = .returned result errors)
    (connection : Nat) (point : Serving) : t.point ≠ .serving connection point := by
  rw [hpoint]
  nofun

/-- `run` returns on account of the client it serves. -/
theorem Ledger.lose {custody : Nat → Option Custody} (h : Ledger s custody) {connection : Nat}
    {point : Serving} (hpoint : s.point = .serving connection point) {errors : Errors}
    (hown : ¬ OwnSocket errors) (ht : t.point = .returned .eFailure errors) (haccepted : t.accepted = s.accepted)
    (hhanded : t.handed = s.handed) (hsilent : t.silent = s.silent) :
    Ledger t (Function.update custody connection (some .lost)) := by
  have hfree := returned_free ht
  refine h.settle hpoint (fun place => ?_) (fun place connection' hne => ?_) haccepted hfree (hhanded ▸ h.sorted)
  · cases place with
    | serving => exact iff_of_false (fun ⟨p, hp⟩ => hfree connection p hp) nofun
    | silent =>
        have hnot := h.serving hpoint (show Custody.silent ≠ .serving by nofun)
        rw [Has, hsilent]
        exact iff_of_false hnot nofun
    | lost => exact iff_of_true ⟨⟨errors, ht, hown⟩, haccepted ▸ h.latest connection point hpoint⟩ rfl
    | handed =>
        have hnot := h.serving hpoint (show Custody.handed ≠ .serving by nofun)
        rw [Has, hhanded]
        exact iff_of_false hnot nofun
  · obtain ⟨hserving, hlost⟩ := h.others hpoint hne
    cases place with
    | serving => exact iff_of_false (fun ⟨p, hp⟩ => hfree connection' p hp) hserving
    | silent => rw [Has, Has, hsilent]
    | lost => exact iff_of_false (hlost t haccepted) (hlost s rfl)
    | handed => rw [Has, Has, hhanded]

/-- The thread leaves the client it serves at another place, and goes on. -/
theorem Ledger.leave {custody : Nat → Option Custody} (h : Ledger s custody) {connection : Nat}
    {point : Serving} (hpoint : s.point = .serving connection point) (ht : t.point = .top)
    (haccepted : t.accepted = s.accepted) {place : Custody} (hplace : place = .silent ∨ place = .handed)
    (hsilent : ∀ connection', connection' ∈ t.silent ↔
      connection' ∈ s.silent ∨ place = .silent ∧ connection' = connection)
    (hhanded : t.handed.map Prod.fst =
      if place = .handed then connection :: s.handed.map Prod.fst else s.handed.map Prod.fst) :
    Ledger t (Function.update custody connection (some place)) := by
  have hfree : ∀ connection point, t.point ≠ .serving connection point := by
    rw [ht]
    nofun
  have hstopped : ¬ t.Stopped := by
    rintro ⟨errors, hreturned, -⟩
    rw [ht] at hreturned
    cases hreturned
  have hhanded' : ∀ connection', connection' ∈ t.handed.map Prod.fst ↔
      connection' ∈ s.handed.map Prod.fst ∨ place = .handed ∧ connection' = connection := by
    intro connection'
    rw [hhanded]
    split_ifs with hp
    · simp [hp, or_comm]
    · simp [hp]
  have hnotSilent := h.serving hpoint (show Custody.silent ≠ .serving by nofun)
  have hnotHanded := h.serving hpoint (show Custody.handed ≠ .serving by nofun)
  refine h.settle hpoint (fun place' => ?_) (fun place' connection' hne => ?_) haccepted hfree ?_
  · cases place' with
    | serving =>
        refine iff_of_false (fun ⟨p, hp⟩ => hfree connection p hp) ?_
        rcases hplace with rfl | rfl
        · nofun
        · nofun
    | silent =>
        rw [Has, hsilent]
        constructor
        · exact fun hmem => (hmem.resolve_left hnotSilent).1.symm
        · exact fun heq => .inr ⟨heq.symm, rfl⟩
    | lost =>
        refine iff_of_false (fun hlost => hstopped hlost.1) ?_
        rcases hplace with rfl | rfl
        · nofun
        · nofun
    | handed =>
        rw [Has, hhanded']
        constructor
        · exact fun hmem => (hmem.resolve_left hnotHanded).1.symm
        · exact fun heq => .inr ⟨heq.symm, rfl⟩
  · obtain ⟨hserving, hlost⟩ := h.others hpoint hne
    cases place' with
    | serving => exact iff_of_false (fun ⟨p, hp⟩ => hfree connection' p hp) hserving
    | silent => rw [Has, Has, hsilent, or_iff_left fun hmem => hne hmem.2]
    | lost => exact iff_of_false (fun hlost => hstopped hlost.1) (hlost s rfl)
    | handed => rw [Has, Has, hhanded', or_iff_left fun hmem => hne hmem.2]
  · rw [hhanded]
    split_ifs with hp
    · refine List.pairwise_cons.mpr ⟨fun connection' hmem => ?_, h.sorted⟩
      -- it is the latest that was accepted
      have hlatest := h.latest connection point hpoint
      have hknown : ¬ s.accepted ≤ connection' := by
        rw [← h.unknown, (h.has_iff .handed connection').mp hmem]
        nofun
      have hne : connection' ≠ connection := by
        rintro rfl
        exact hnotHanded hmem
      omega
    · exact h.sorted

theorem ledger_step {custody : Nat → Option Custody} (h : Ledger s custody) (hstep : s.step a = some t) :
    ∃ custody', Ledger t custody' := by
  have hserving_step := @serving_step s t a hstep
  cases step_cases hstep with
  | own action point free stays exit harmless =>
      refine ⟨custody, h.keep (fun connection => ?_) ?_ rfl rfl rfl⟩
      · refine iff_of_false ?_ fun ⟨p, hp⟩ => free connection p hp
        rintro ⟨p, hp⟩
        rcases hserving_step hp with ⟨connection', p', hp'⟩ | haccepted
        · exact free connection' p' hp'
        · exact absurd haccepted (Nat.lt_succ_self _).ne
      · refine iff_of_false ?_ fun ⟨errors, hpoint, _⟩ => stays _ _ hpoint
        rintro ⟨errors, hpoint, hown⟩
        rcases exit _ _ hpoint with ⟨hresult, -⟩ | hown'
        · cases hresult
        · exact hown hown'
  | accepted poll accepted free => exact ⟨_, h.accept free⟩
  | called connection point call result serving next =>
      rcases result with errors | _ | point'
      · have ht : (s.called connection (.error errors)).point = .returned .eFailure errors := rfl
        refine ⟨_, h.lose serving ?_ ht rfl rfl rfl⟩
        rcases Serving.head_of_next_error next with hhead | hhead
        · rw [OwnSocket, hhead]
          decide
        · rw [OwnSocket, hhead]
          decide
      · have ht : (s.called connection (.ok none)).point = .top := rfl
        refine ⟨_, h.leave serving ht rfl (.inl rfl) (fun connection' => ?_) rfl⟩
        simp [called, or_comm]
      · refine ⟨custody, h.keep (fun connection' => ?_) ?_ rfl rfl rfl⟩
        · constructor
          · rintro ⟨p, hp⟩
            obtain ⟨rfl, -⟩ := RunPoint.serving.inj hp
            exact ⟨point, serving⟩
          · rintro ⟨p, hp⟩
            obtain ⟨rfl, -⟩ := RunPoint.serving.inj (serving.symm.trans hp)
            exact ⟨point', rfl⟩
        · exact iff_of_false (not_stopped_of_serving rfl) (not_stopped_of_serving serving)
  | handled connection request serving =>
      rw [handle_eq]
      dsimp only
      split_ifs with hpush
      · refine ⟨Function.update custody connection (some .handed), ?_⟩
        apply h.leave serving
        · rfl
        · rfl
        · exact .inr rfl
        · simp
        · rfl
      · refine ⟨Function.update custody connection (some .lost), ?_⟩
        apply h.lose serving
        · show ¬ OwnSocket
            [(some .eFailure, "Can't handle request"), (some .eFailure, "Can't push job to job queue")]
          decide
        · rfl
        · rfl
        · rfl
        · rfl
  | other action endSignal queue signal valid harmless =>
      exact ⟨custody, h.keep (fun _ => Iff.rfl) Iff.rfl rfl rfl rfl⟩

end Running

/-! ## The bytes of a connection -/

/-- What has been read of the request. -/
def Serving.data : Serving → Str
  | .polling | .recieving => []
  | .recv data | .more data _ | .handling data => data

/-- What a call reads. -/
def Call.bytes : Call → Str
  | .recv (some bytes) => bytes
  | _ => []

theorem Serving.data_next {point point' : Serving} {call : Call} (h : point.next call = some (.ok (some point'))) :
    point'.data = point.data ++ call.bytes := by
  unfold next at h
  split at h
  · have h := Option.some.inj h
    unfold afterPolling at h
    split at h
    · cases h
    · cases h
    · obtain rfl := Option.some.inj (Except.ok.inj h)
      rfl
  · have h := Option.some.inj h
    unfold afterRecieving at h
    split at h
    · cases h
    · cases h
    · obtain rfl := Option.some.inj (Except.ok.inj h)
      rfl
  · next data result =>
      have h := Option.some.inj h
      unfold afterRecv at h
      split at h
      · cases h
      · obtain rfl := Option.some.inj (Except.ok.inj h)
        rfl
  · next data written result =>
      have h := Option.some.inj h
      unfold afterMore at h
      split at h
      · cases h
      · obtain rfl := Option.some.inj (Except.ok.inj h)
        split_ifs
        · exact (List.append_nil data).symm
        · exact (List.append_nil data).symm
  · cases h

/-- The bytes of a connection in a log of what was read, one after the other. -/
def bytesOf (log : List (List (Nat × Str))) (connection : Nat) : Str := (ofKey connection log.flatten).flatten

theorem bytesOf_concat (log : List (List (Nat × Str))) (reads : List (Nat × Str)) (connection : Nat) :
    bytesOf (log ++ [reads]) connection = bytesOf log connection ++ (ofKey connection reads).flatten := by
  unfold bytesOf
  rw [List.flatten_append, ofKey_append, List.flatten_append, List.flatten_singleton]

namespace Running

/-- What a step reads, and from which connection. -/
def reads (s : Running) : Action → List (Nat × Str)
  | .call call =>
      match s.point with
      | .serving connection _ => [(connection, call.bytes)]
      | _ => []
  | _ => []

/-- What has been read from the connections is in the requests, and nothing else is. -/
structure Heard (s : Running) (log : List (List (Nat × Str))) : Prop where
  handed : ∀ connection request, (connection, request) ∈ s.handed → bytesOf log connection = request
  serving : ∀ connection point, s.point = .serving connection point → bytesOf log connection = point.data
  unknown : ∀ connection, s.accepted ≤ connection → bytesOf log connection = []

variable {s t : Running} {a : Action} {log : List (List (Nat × Str))}

theorem heard_start : Heard start [] where
  handed _ _ h := absurd h List.not_mem_nil
  serving _ _ h := by cases h
  unknown _ _ := rfl

/-- Nothing is read. -/
theorem Heard.silent (h : Heard s log) : Heard s (log ++ [[]]) := by
  have hsame : ∀ connection, bytesOf (log ++ [[]]) connection = bytesOf log connection := by
    intro connection
    rw [bytesOf_concat]
    exact List.append_nil _
  refine ⟨fun connection request hmem => ?_, fun connection point hpoint => ?_, fun connection hle => ?_⟩
  · exact (hsame connection).trans (h.handed connection request hmem)
  · exact (hsame connection).trans (h.serving connection point hpoint)
  · exact (hsame connection).trans (h.unknown connection hle)

/-- A step that is not on a client's socket. -/
theorem Heard.other (h : Heard s log) (hstep : s.step a = some t) (hcall : ∀ call, a ≠ .call call) :
    Heard t log := by
  cases step_cases hstep with
  | own action point free stays exit harmless =>
      refine ⟨h.handed, fun connection p hp => ?_, h.unknown⟩
      rcases serving_step hstep hp with ⟨connection', p', hp'⟩ | haccepted
      · exact absurd hp' (free connection' p')
      · have haccepted : s.accepted = s.accepted + 1 := haccepted
        omega
  | accepted poll accepted free =>
      refine ⟨h.handed, fun connection p hp => ?_, fun connection hle => h.unknown connection (Nat.le_of_succ_le hle)⟩
      obtain ⟨rfl, rfl⟩ := RunPoint.serving.inj hp
      exact h.unknown _ (le_refl _)
  | called connection point call result serving next => exact absurd rfl (hcall call)
  | handled connection request serving =>
      rw [handle_eq]
      dsimp only
      split_ifs
      · refine ⟨fun connection' request' hmem => ?_, fun _ _ hp => (by cases hp), h.unknown⟩
        rcases List.mem_cons.mp hmem with heq | hmem
        · obtain ⟨rfl, rfl⟩ := Prod.mk.inj heq
          exact h.serving connection' _ serving
        · exact h.handed connection' request' hmem
      · exact ⟨h.handed, fun _ _ hp => (by cases hp), h.unknown⟩
  | other action endSignal queue signal valid harmless => exact ⟨h.handed, h.serving, h.unknown⟩

theorem heard_step (h : Heard s log) {custody : Nat → Option Custody} (hledger : Ledger s custody)
    (hstep : s.step a = some t) : Heard t (log ++ [s.reads a]) := by
  by_cases hcall : ∃ call, a = .call call
  · obtain ⟨call, rfl⟩ := hcall
    simp only [step] at hstep
    split at hstep
    · next connection point hpoint =>
        obtain ⟨result, hnext, rfl⟩ := Option.map_eq_some_iff.mp hstep
        have hreads : s.reads (.call call) = [(connection, call.bytes)] := by simp only [reads, hpoint]
        have hlatest := hledger.latest connection point hpoint
        -- those that were handed over, and those to come, are other connections
        have hhanded : ∀ other request, (other, request) ∈ s.handed →
            bytesOf (log ++ [s.reads (.call call)]) other = request := by
          intro other request hmem
          have hne : connection ≠ other := by
            rintro rfl
            have hserving := (hledger.has_iff .serving connection).mp ⟨point, hpoint⟩
            have hhanded := (hledger.has_iff .handed connection).mp (List.mem_map_of_mem hmem)
            cases hserving.symm.trans hhanded
          rw [bytesOf_concat, hreads, ofKey_cons_of_ne hne, ofKey_nil, List.flatten_nil, List.append_nil]
          exact h.handed other request hmem
        have hunknown : ∀ other, s.accepted ≤ other → bytesOf (log ++ [s.reads (.call call)]) other = [] := by
          intro other hle
          have hne : connection ≠ other := by omega
          rw [bytesOf_concat, hreads, ofKey_cons_of_ne hne, ofKey_nil, List.flatten_nil, List.append_nil]
          exact h.unknown other hle
        rcases result with errors | _ | point'
        · exact ⟨hhanded, fun _ _ hp => (by cases hp), hunknown⟩
        · exact ⟨hhanded, fun _ _ hp => (by cases hp), hunknown⟩
        · refine ⟨hhanded, fun other p hp => ?_, hunknown⟩
          obtain ⟨rfl, rfl⟩ := RunPoint.serving.inj hp
          rw [bytesOf_concat, hreads, ofKey_cons_self, ofKey_nil, List.flatten_singleton,
            h.serving connection point hpoint, Serving.data_next hnext]
    · cases hstep
  · have hother := h.other hstep fun call heq => hcall ⟨call, heq⟩
    have hreads : s.reads a = [] := by
      cases a with
      | call call => exact absurd ⟨call, rfl⟩ hcall
      | _ => rfl
    rw [hreads]
    exact hother.silent

end Running

/-! ## The server -/

/-- The connection that a job is for. -/
def Work.connection : Work Nat → Option Nat
  | .request n => some n
  | .resume _ => none

/-- The thread in `run`, `s_endSignal`, and the scheduler; how many connections were accepted, which were
handed over with which request, and which stayed silent; what the jobs of connections have left. -/
structure ServerThreads where
  point : RunPoint
  endSignal : Bool
  scheduler : Scheduler (Work Nat)
  accepted : Nat
  handed : List (Nat × Str)
  silent : List Nat
  handled : List (Nat × Handled)

/-- A step of the thread in `run` that does not concern the job queue. -/
def Running.Action.own : Running.Action → Bool
  | .listen _ | .check | .accept _ _ | .call _ => true
  | _ => false

/-- A step of a worker or a producer that offers no job and is not the push of `m_handleRequest`. -/
def Scheduler.Action.elsewhere {J : Type*} : Scheduler.Action J → Bool
  | .offer _ _ _ => false
  | .push p => p != 0
  | _ => true

namespace ServerThreads

inductive Action
  | own (action : Running.Action)
  | signal
  /-- `m_handleRequest` constructs its guard. -/
  | guard
  /-- It calls `JobQueue::push`. -/
  | push
  /-- Another thread constructs the guard to push a resume job. -/
  | offer (p : Nat) (priority : JobPriority) (awaiter : Nat)
  | thread (action : Scheduler.Action (Work Nat))

def start : ServerThreads := ⟨.listening, false, .init, 0, [], [], []⟩

/-- The accept loop, in the terms of `Running`. -/
def loop (s : ServerThreads) : Running :=
  ⟨s.point, s.endSignal, s.scheduler.queue, s.accepted, s.handed, s.silent⟩

def setLoop (s : ServerThreads) (loop : Running) : ServerThreads :=
  { s with
    point := loop.point
    accepted := loop.accepted
    handed := loop.handed
    silent := loop.silent }

/-- The request that the job of a connection has. -/
def request (s : ServerThreads) (connection : Nat) : Str := (s.handed.lookup connection).getD []

section
variable {E V : Type} [RouteStringExtractor E V] {B R : Type}
variable (endpoints : List (Entry E (Callback V B R))) (comesBack : Bool)

/-- What is left by the job that `action` ends. -/
def ends (s : ServerThreads) : Scheduler.Action (Work Nat) → Except Fault (List (Nat × Handled))
  | .finish w =>
      match s.scheduler.workers w with
      | .working (.request connection) =>
          (Server.handleRequest endpoints comesBack (s.request connection)).map
            fun result => [(connection, result.2)]
      | _ => .ok []
  | _ => .ok []

/-- One step; none follows a job whose behaviour is undefined. -/
def step (s : ServerThreads) : Action → Option ServerThreads
  | .own action =>
      if action.own && !(s.scheduler.producers 0).inside then (s.loop.step action).map s.setLoop else none
  | .signal => some { s with endSignal := true }
  | .guard =>
      match s.point with
      | .serving connection (.handling _) =>
          (s.scheduler.step (.offer 0 .eMedium (.request connection))).map
            fun scheduler => { s with scheduler := scheduler }
      | _ => none
  | .push =>
      match s.point with
      | .serving connection (.handling request) =>
          (s.scheduler.step (.push 0)).map
            fun scheduler => { s.setLoop (s.loop.handle connection request) with scheduler := scheduler }
      | _ => none
  | .offer p priority awaiter =>
      if p ≠ 0 then
        (s.scheduler.step (.offer p priority (.resume awaiter))).map
          fun scheduler => { s with scheduler := scheduler }
      else none
  | .thread action =>
      if action.elsewhere then
        match s.ends endpoints comesBack action with
        | .error _ => none
        | .ok handled =>
            (s.scheduler.step action).map
              fun scheduler => { s with scheduler := scheduler, handled := handled ++ s.handled }
      else none

/-- What one step can do: the cases of `step`, with their guards. -/
inductive Step (s : ServerThreads) : Action → ServerThreads → Prop
  | own {action : Running.Action} {loop : Running} (hown : action.own = true)
      (hfree : (s.scheduler.producers 0).inside = false) (h : s.loop.step action = some loop) :
      Step s (.own action) (s.setLoop loop)
  | signal : Step s .signal { s with endSignal := true }
  | guard {connection : Nat} {request : Str} {scheduler : Scheduler (Work Nat)}
      (hpoint : s.point = .serving connection (.handling request))
      (h : s.scheduler.step (.offer 0 .eMedium (.request connection)) = some scheduler) :
      Step s .guard { s with scheduler := scheduler }
  | push {connection : Nat} {request : Str} {scheduler : Scheduler (Work Nat)}
      (hpoint : s.point = .serving connection (.handling request))
      (h : s.scheduler.step (.push 0) = some scheduler) :
      Step s .push { s.setLoop (s.loop.handle connection request) with scheduler := scheduler }
  | offer {p : Nat} {priority : JobPriority} {awaiter : Nat} {scheduler : Scheduler (Work Nat)} (hp : p ≠ 0)
      (h : s.scheduler.step (.offer p priority (.resume awaiter)) = some scheduler) :
      Step s (.offer p priority awaiter) { s with scheduler := scheduler }
  | thread {action : Scheduler.Action (Work Nat)} {scheduler : Scheduler (Work Nat)} {handled : List (Nat × Handled)}
      (hother : action.elsewhere = true) (hends : s.ends endpoints comesBack action = .ok handled)
      (h : s.scheduler.step action = some scheduler) :
      Step s (.thread action) { s with scheduler := scheduler, handled := handled ++ s.handled }

end

variable {E V : Type} [RouteStringExtractor E V] {B R : Type}
variable {endpoints : List (Entry E (Callback V B R))} {comesBack : Bool}
variable {s t : ServerThreads} {a : Action}

theorem step_cases (h : step endpoints comesBack s a = some t) : Step endpoints comesBack s a t := by
  cases a with
  | own action =>
      obtain ⟨hguard, h⟩ := Option.ite_none_right_eq_some.mp h
      obtain ⟨loop, hloop, rfl⟩ := Option.map_eq_some_iff.mp h
      rw [Bool.and_eq_true, Bool.not_eq_true'] at hguard
      exact .own hguard.1 hguard.2 hloop
  | signal =>
      obtain rfl := Option.some.inj h
      exact .signal
  | guard =>
      simp only [step] at h
      split at h
      · next connection request hpoint =>
          obtain ⟨scheduler, hscheduler, rfl⟩ := Option.map_eq_some_iff.mp h
          exact .guard hpoint hscheduler
      · cases h
  | push =>
      simp only [step] at h
      split at h
      · next connection request hpoint =>
          obtain ⟨scheduler, hscheduler, rfl⟩ := Option.map_eq_some_iff.mp h
          exact .push hpoint hscheduler
      · cases h
  | offer p priority awaiter =>
      obtain ⟨hp, h⟩ := Option.ite_none_right_eq_some.mp h
      obtain ⟨scheduler, hscheduler, rfl⟩ := Option.map_eq_some_iff.mp h
      exact .offer hp hscheduler
  | thread action =>
      obtain ⟨hother, h⟩ := Option.ite_none_right_eq_some.mp h
      split at h
      · cases h
      · next handled hends =>
          obtain ⟨scheduler, hscheduler, rfl⟩ := Option.map_eq_some_iff.mp h
          exact .thread hother hends hscheduler

/-! ## The invariant -/

/-- The jobs of connections are pushed by the thread in `run` only, each while it serves its connection; those
that were accepted are for the connections that were handed over, and those that were executed have left
the answers to their requests. -/
structure Inv (endpoints : List (Entry E (Callback V B R))) (comesBack : Bool) (s : ServerThreads) : Prop where
  valid : s.scheduler.Valid
  pushed : s.scheduler.Pushed
  locked : ∀ priority job, s.scheduler.producers 0 = .locked priority job → priority = .eMedium ∧
    ∃ connection request, s.point = .serving connection (.handling request) ∧ job = .request connection
  foreign : ∀ p priority connection, s.scheduler.producers p = .locked priority (.request connection) → p = 0
  accepted : s.scheduler.log.accepted.filterMap Work.connection = s.handed.map Prod.fst
  executed : s.scheduler.log.executed.filterMap Work.connection = s.handled.map Prod.fst
  answers : ∀ connection handled, (connection, handled) ∈ s.handled → ∃ request,
    (connection, request) ∈ s.handed ∧
      (Server.handleRequest endpoints comesBack request).map Prod.snd = .ok handled

theorem inv_start : Inv endpoints comesBack start where
  valid := Scheduler.valid_init
  pushed := nofun
  locked := nofun
  foreign := nofun
  accepted := rfl
  executed := rfl
  answers := nofun

theorem own_frame {s t : Running} {a : Running.Action} (hown : a.own = true) (h : s.step a = some t) :
    t.queue = s.queue ∧ t.handed = s.handed ∧ t.endSignal = s.endSignal := by
  cases a with
  | listen success =>
      obtain ⟨-, h⟩ := Option.ite_none_right_eq_some.mp h
      obtain rfl := Option.some.inj h
      cases success <;> exact ⟨rfl, rfl, rfl⟩
  | check =>
      obtain ⟨-, h⟩ := Option.ite_none_right_eq_some.mp h
      obtain rfl := Option.some.inj h
      exact ⟨rfl, rfl, rfl⟩
  | accept poll accepted =>
      obtain ⟨-, h⟩ := Option.ite_none_right_eq_some.mp h
      obtain rfl := Option.some.inj h
      unfold Running.accept
      split <;> exact ⟨rfl, rfl, rfl⟩
  | call call =>
      simp only [Running.step] at h
      split at h
      · obtain ⟨result, -, rfl⟩ := Option.map_eq_some_iff.mp h
        rcases result with errors | _ | point <;> exact ⟨rfl, rfl, rfl⟩
      · cases h
  | _ => cases hown

theorem request_mem {connection : Nat} (h : connection ∈ s.handed.map Prod.fst) :
    (connection, s.request connection) ∈ s.handed := by
  obtain ⟨⟨key, text⟩, hmem, rfl⟩ := List.mem_map.mp h
  have hsome : (s.handed.lookup key).isSome = true := List.lookup_isSome_iff.mpr ⟨_, hmem, beq_self_eq_true key⟩
  obtain ⟨found, hfound⟩ := Option.isSome_iff_exists.mp hsome
  obtain ⟨before, after, hsplit, -⟩ := List.lookup_eq_some_iff.mp hfound
  rw [request, hfound, hsplit]
  exact List.mem_append_right _ List.mem_cons_self

theorem Inv.mem_handed_iff (h : Inv endpoints comesBack s) (connection : Nat) :
    connection ∈ s.handed.map Prod.fst ↔ .request connection ∈ s.scheduler.log.accepted := by
  rw [← h.accepted, List.mem_filterMap]
  constructor
  · rintro ⟨job, hmem, hjob⟩
    cases job with
    | request n =>
        obtain rfl := Option.some.inj hjob
        exact hmem
    | resume awaiter => cases hjob
  · exact fun hmem => ⟨_, hmem, rfl⟩

theorem Inv.foreign_step (h : Inv endpoints comesBack s) {b : Scheduler.Action (Work Nat)}
    {scheduler : Scheduler (Work Nat)} (hstep : s.scheduler.step b = some scheduler)
    (hb : ∀ p priority connection, b = .offer p priority (.request connection) → p = 0) :
    ∀ p priority connection, scheduler.producers p = .locked priority (.request connection) → p = 0 := by
  intro p priority connection hp
  rcases (Scheduler.step_cases hstep).locked hp with heq | hp
  · exact hb p priority connection heq
  · exact h.foreign p priority connection hp

/-- No job of a connection is accepted elsewhere. -/
theorem Inv.enters_elsewhere (h : Inv endpoints comesBack s) {b : Scheduler.Action (Work Nat)}
    (hother : b.elsewhere = true) : (s.scheduler.effect b).enters.filterMap Work.connection = [] := by
  cases b with
  | offer p priority job => cases hother
  | push p =>
      cases hp : s.scheduler.producers p with
      | locked priority job =>
          simp only [Scheduler.effect, hp]
          split_ifs
          · cases job with
            | request n =>
                have hzero := h.foreign p priority n hp
                subst hzero
                cases hother
            | resume awaiter => rfl
          · rfl
      | _ => simp [Scheduler.effect, hp, PriorityQueue.Effect.enters]
  | pop w =>
      unfold Scheduler.effect
      dsimp only
      split <;> rfl
  | _ => rfl

/-- A job of a connection that ends leaves the answer to its request. -/
theorem Inv.ends (h : Inv endpoints comesBack s) {b : Scheduler.Action (Work Nat)} {scheduler : Scheduler (Work Nat)}
    {handled : List (Nat × Handled)} (hends : s.ends endpoints comesBack b = .ok handled)
    (hstep : s.scheduler.step b = some scheduler) :
    scheduler.log.executed.filterMap Work.connection =
        handled.map Prod.fst ++ s.scheduler.log.executed.filterMap Work.connection ∧
      ∀ entry ∈ handled, ∃ request, (entry.1, request) ∈ s.handed ∧
        (Server.handleRequest endpoints comesBack request).map Prod.snd = .ok entry.2 := by
  rcases (Scheduler.step_cases hstep).executed with ⟨w, job, rfl, hw, hexecuted⟩ | ⟨hne, hexecuted⟩
  · rw [hexecuted]
    simp only [ServerThreads.ends, hw] at hends
    cases job with
    | request connection =>
        have hjob : (s.scheduler.workers w).job = some (.request connection) := by rw [hw]; rfl
        have hmem := (h.mem_handed_iff connection).mpr (h.valid.accepted_of_job h.pushed hjob)
        dsimp only at hends
        cases hresult : Server.handleRequest endpoints comesBack (s.request connection) with
        | error fault =>
            rw [hresult] at hends
            cases hends
        | ok result =>
            rw [hresult] at hends
            cases hends
            refine ⟨rfl, fun entry hentry => ?_⟩
            rw [List.mem_singleton.mp hentry]
            exact ⟨_, request_mem hmem, by rw [hresult]; rfl⟩
    | resume awaiter =>
        cases hends
        exact ⟨rfl, nofun⟩
  · have hnil : s.ends endpoints comesBack b = .ok [] := by
      cases b with
      | finish w => exact absurd rfl (hne w)
      | _ => rfl
    rw [hnil] at hends
    cases hends
    exact ⟨by rw [hexecuted]; rfl, nofun⟩

theorem Inv.own (h : Inv endpoints comesBack s) {action : Running.Action} {loop : Running}
    (hown : action.own = true) (hfree : (s.scheduler.producers 0).inside = false)
    (hloop : s.loop.step action = some loop) : Inv endpoints comesBack (s.setLoop loop) := by
  have hhanded : loop.handed = s.handed := (own_frame hown hloop).2.1
  refine { valid := h.valid, pushed := h.pushed, foreign := h.foreign, executed := h.executed,
           locked := fun priority job hp => ?_, accepted := ?_, answers := ?_ }
  · change s.scheduler.producers 0 = _ at hp
    rw [hp] at hfree
    cases hfree
  · show s.scheduler.log.accepted.filterMap _ = loop.handed.map _
    rw [hhanded]
    exact h.accepted
  · show ∀ connection handled, _ → ∃ request, _ ∈ loop.handed ∧ _
    rw [hhanded]
    exact h.answers

/-- A guard is constructed. -/
theorem Inv.offer (h : Inv endpoints comesBack s) {p : Nat} {priority : JobPriority} {job : Work Nat}
    {scheduler : Scheduler (Work Nat)} (hstep : s.scheduler.step (.offer p priority job) = some scheduler)
    (hforeign : ∀ connection, job = .request connection → p = 0)
    (hzero : p = 0 → priority = .eMedium ∧
      ∃ connection request, s.point = .serving connection (.handling request) ∧ job = .request connection) :
    Inv endpoints comesBack { s with scheduler := scheduler } := by
  have hcases := Scheduler.step_cases hstep
  have haccepted : scheduler.log.accepted = s.scheduler.log.accepted := hcases.accepted
  have hexecuted : scheduler.log.executed = s.scheduler.log.executed := by
    rcases hcases.executed with ⟨w, job, heq, -⟩ | ⟨-, hexecuted⟩
    · cases heq
    · exact hexecuted
  have hforeign' := h.foreign_step hstep fun p' priority' connection heq => by
    obtain ⟨rfl, -, rfl⟩ := Scheduler.Action.offer.inj heq
    exact hforeign connection rfl
  refine { valid := Scheduler.valid_step h.valid hstep, pushed := hcases.pushed h.pushed,
           foreign := hforeign', locked := fun priority' job' hp => ?_, accepted := ?_, executed := ?_,
           answers := h.answers }
  · rcases hcases.locked hp with heq | hp
    · obtain ⟨rfl, rfl, rfl⟩ := Scheduler.Action.offer.inj heq
      exact hzero rfl
    · exact h.locked priority' job' hp
  · rw [haccepted]
    exact h.accepted
  · rw [hexecuted]
    exact h.executed

/-- `m_handleRequest` pushes the job. -/
theorem Inv.push (h : Inv endpoints comesBack s) {connection : Nat} {request : Str}
    {scheduler : Scheduler (Work Nat)} (hpoint : s.point = .serving connection (.handling request))
    (hstep : s.scheduler.step (.push 0) = some scheduler) :
    s.scheduler.producers 0 = .locked .eMedium (.request connection) ∧
      Inv endpoints comesBack { s.setLoop (s.loop.handle connection request) with scheduler := scheduler } := by
  have hcases := Scheduler.step_cases hstep
  obtain ⟨priority, job, hp⟩ : ∃ priority job, s.scheduler.producers 0 = .locked priority job := by
    cases hcases with
    | push hp => exact ⟨_, _, hp⟩
  obtain ⟨rfl, connection', request', hpoint', rfl⟩ := h.locked priority job hp
  rw [hpoint] at hpoint'
  obtain ⟨rfl, hrequest⟩ := RunPoint.serving.inj hpoint'
  obtain rfl := Serving.handling.inj hrequest
  have hexecuted : scheduler.log.executed = s.scheduler.log.executed := by
    rcases hcases.executed with ⟨w, job, heq, -⟩ | ⟨-, hexecuted⟩
    · cases heq
    · exact hexecuted
  have haccepted := hcases.accepted
  have hhanded : (s.loop.handle connection request).handed =
      if (s.scheduler.queue.push .eMedium (.request connection)).1 = .eSuccess then
        (connection, request) :: s.handed else s.handed := by
    rw [Running.handle_eq]
    dsimp only [loop]
    split_ifs <;> rfl
  simp only [Scheduler.effect, hp] at haccepted
  have hforeign := h.foreign_step hstep fun p priority connection heq => by cases heq
  refine ⟨hp, { valid := Scheduler.valid_step h.valid hstep, pushed := hcases.pushed h.pushed,
                foreign := hforeign, locked := fun priority job hp' => ?_,
                accepted := ?_, executed := ?_, answers := fun connection' handled hmem => ?_ }⟩
  · -- the push has been made
    cases hcases with
    | push hp =>
        change Function.update s.scheduler.producers 0 .pushed 0 = _ at hp'
        rw [Function.update_self] at hp'
        cases hp'
  · show scheduler.log.accepted.filterMap _ = (s.loop.handle connection request).handed.map _
    rw [haccepted, hhanded]
    split_ifs
    · exact congrArg (connection :: ·) h.accepted
    · exact h.accepted
  · show scheduler.log.executed.filterMap _ = _
    rw [hexecuted]
    exact h.executed
  · obtain ⟨request', hmem', hanswer⟩ := h.answers connection' handled hmem
    refine ⟨request', ?_, hanswer⟩
    show _ ∈ (s.loop.handle connection request).handed
    rw [hhanded]
    split_ifs
    · exact List.mem_cons_of_mem _ hmem'
    · exact hmem'

theorem Inv.thread (h : Inv endpoints comesBack s) {action : Scheduler.Action (Work Nat)}
    {scheduler : Scheduler (Work Nat)} {handled : List (Nat × Handled)} (hother : action.elsewhere = true)
    (hends : s.ends endpoints comesBack action = .ok handled) (hstep : s.scheduler.step action = some scheduler) :
    Inv endpoints comesBack { s with scheduler := scheduler, handled := handled ++ s.handled } := by
  have hcases := Scheduler.step_cases hstep
  obtain ⟨hexecuted, hanswers⟩ := h.ends hends hstep
  have hforeign := h.foreign_step hstep fun p priority connection heq => by
    rw [heq] at hother
    cases hother
  refine { valid := Scheduler.valid_step h.valid hstep, pushed := hcases.pushed h.pushed,
           foreign := hforeign, locked := fun priority job hp => ?_, accepted := ?_, executed := ?_,
           answers := fun connection result hmem => ?_ }
  · rcases hcases.locked hp with rfl | hp
    · cases hother
    · exact h.locked priority job hp
  · show scheduler.log.accepted.filterMap _ = _
    rw [hcases.accepted, List.filterMap_append, h.enters_elsewhere hother]
    exact h.accepted
  · show scheduler.log.executed.filterMap _ = (handled ++ s.handled).map _
    rw [hexecuted, h.executed, List.map_append]
  · rcases List.mem_append.mp hmem with hmem | hmem
    · exact hanswers _ hmem
    · exact h.answers connection result hmem

theorem inv_step (h : Inv endpoints comesBack s) (hstep : step endpoints comesBack s a = some t) :
    Inv endpoints comesBack t := by
  cases step_cases hstep with
  | own hown hfree hloop => exact h.own hown hfree hloop
  | signal => exact { h with }
  | guard hpoint hscheduler =>
      exact h.offer hscheduler (fun _ _ => rfl) fun _ => ⟨rfl, _, _, hpoint, rfl⟩
  | push hpoint hscheduler => exact (h.push hpoint hscheduler).2
  | offer hne hscheduler => exact h.offer hscheduler nofun fun hzero => absurd hzero hne
  | thread hother hends hscheduler => exact h.thread hother hends hscheduler

theorem inv_run {as : List Action} (h : run (step endpoints comesBack) start as = some s) :
    Inv endpoints comesBack s :=
  run_invariant (fun _ _ _ hs hstep => inv_step hs hstep) inv_start h

/-! ## The accept loop sees pushes as one step -/

/-- The steps of `Running` behind a step of the server. -/
def toRunning (s : ServerThreads) : Action → List Running.Action
  | .own action => [action]
  | .signal => [.signal]
  | .push => [.handleRequest]
  | .thread (.push p) =>
      match s.scheduler.producers p with
      | .locked priority job => [.push priority job]
      | _ => []
  | .thread (.pop _) => [.pop]
  | _ => []

theorem loop_step (hs : Inv endpoints comesBack s) (hstep : step endpoints comesBack s a = some t) :
    run Running.step s.loop (toRunning s a) = some t.loop := by
  cases step_cases hstep with
  | @own action loop hown hfree hloop =>
      have hview : (s.setLoop loop).loop = loop := by
        obtain ⟨hqueue, hhanded, hsignal⟩ := own_frame hown hloop
        unfold ServerThreads.loop setLoop
        dsimp only
        have hqueue : s.scheduler.queue = loop.queue := hqueue.symm
        have hsignal : s.endSignal = loop.endSignal := hsignal.symm
        rw [hqueue, hsignal]
      rw [toRunning, run_cons, hloop, Option.bind_some, run_nil, hview]
  | signal => rfl
  | @guard connection request scheduler hpoint hscheduler =>
      have hqueue : scheduler.queue = s.scheduler.queue := by
        cases Scheduler.step_cases hscheduler
        rfl
      show some s.loop = some { s.loop with queue := scheduler.queue }
      rw [hqueue]
      rfl
  | @push connection request scheduler hpoint hscheduler =>
      obtain ⟨hp, -⟩ := hs.push hpoint hscheduler
      have hqueue : scheduler.queue = (s.scheduler.queue.push .eMedium (.request connection)).2 := by
        rcases (Scheduler.step_cases hscheduler).queue with
          ⟨p, priority, job, heq, hp', hqueue⟩ | ⟨w, heq, -⟩ | ⟨hne, -⟩
        · obtain rfl := Scheduler.Action.push.inj heq
          rw [hp] at hp'
          obtain ⟨rfl, rfl⟩ := ProducerPoint.locked.inj hp'
          exact hqueue
        · cases heq
        · exact absurd rfl (hne 0)
      have hhandle : s.loop.step .handleRequest = some (s.loop.handle connection request) := by
        simp only [Running.step, loop, hpoint]
      rw [toRunning, run_cons, hhandle, Option.bind_some, run_nil, Running.handle_eq]
      unfold ServerThreads.loop setLoop
      dsimp only
      rw [hqueue]
      split_ifs
      · rfl
      · rfl
  | @offer p priority awaiter scheduler hne hscheduler =>
      have hqueue : scheduler.queue = s.scheduler.queue := by
        cases Scheduler.step_cases hscheduler
        rfl
      show some s.loop = some { s.loop with queue := scheduler.queue }
      rw [hqueue]
      rfl
  | @thread action scheduler handled hother hends hscheduler =>
      show run Running.step s.loop (toRunning s (.thread action)) =
        some { s.loop with queue := scheduler.queue }
      rcases (Scheduler.step_cases hscheduler).queue with
        ⟨p, priority, job, rfl, hp, hqueue⟩ | ⟨w, rfl, hqueue⟩ | ⟨hpush, hpop, hqueue⟩
      · rw [hqueue]
        simp only [toRunning, hp]
        rfl
      · rw [hqueue]
        rfl
      · rw [hqueue]
        cases action with
        | push p => exact absurd rfl (hpush p)
        | pop w => exact absurd rfl (hpop w)
        | _ => rfl

/-- **For the accept loop, a push under the guard is one step.** Whatever the threads do between the
construction of a guard and its end, the accept loop and the job queue go through a run of `Running`. -/
theorem loop_refines {as : List Action} (h : run (step endpoints comesBack) start as = some s) :
    run Running.step Running.start (observed (step endpoints comesBack) toRunning start as).flatten =
      some s.loop := by
  have hstep : ∀ s a t, Inv endpoints comesBack s → step endpoints comesBack s a = some t →
      Inv endpoints comesBack t ∧ run Running.step s.loop (toRunning s a) = some t.loop :=
    fun s a t hs hstep => ⟨inv_step hs hstep, loop_step hs hstep⟩
  exact @run_view _ _ _ _ (step endpoints comesBack) Running.step loop _ toRunning hstep as start s inv_start h

/-- A request for the root. -/
def getRoot : Str := "GET / HTTP/1.1".toList

/-- A client sends a request, and a worker takes it. -/
def accepting (request : Str) : List Action :=
  [.own (.listen true), .own .check, .own (.accept Running.dataThere true),
    .own (.call (.poll Running.dataThere)), .own (.call (.poll Running.dataThere)),
    .own (.call (.recv (some request))), .own (.call (.poll Running.nothingThere)), .guard,
    .push, .thread (.release 0), .thread (.enter 0), .thread (.acquire 0), .thread (.check 0), .thread (.pop 0)]

/-- Guard, push and release are one `handleRequest`. -/
theorem loop_refines_accepting : ∃ s, run (step (build [root]) true) start (accepting getRoot) = some s ∧
    run Running.step Running.start [.listen true, .check, .accept Running.dataThere true,
      .call (.poll Running.dataThere), .call (.poll Running.dataThere),
      .call (.recv (some getRoot)), .call (.poll Running.nothingThere), .handleRequest, .pop] =
        some s.loop := by
  have hsome : (run (step (build [root]) true) start (accepting getRoot)).isSome = true := rfl
  obtain ⟨s, hrun⟩ := Option.isSome_iff_exists.mp hsome
  exact ⟨s, hrun, loop_refines hrun⟩

/-! ## Every connection is in one place -/

/-- Where a connection is. -/
inductive Whereabouts
  | serving
  | silent
  | lost
  /-- Its job is in a ring. -/
  | waiting
  /-- A worker has its job. -/
  | held
  /-- Its job has ended with a message. -/
  | answered
  /-- Its job has ended with the coroutine of its endpoint suspended. -/
  | driving
  deriving DecidableEq, Repr

/-- Where the accept loop has it. -/
def Whereabouts.custody : Whereabouts → Running.Custody
  | serving => .serving
  | silent => .silent
  | lost => .lost
  | waiting | held | answered | driving => .handed

def At (s : ServerThreads) : Whereabouts → Nat → Prop
  | .serving, connection => s.loop.Has .serving connection
  | .silent, connection => s.loop.Has .silent connection
  | .lost, connection => s.loop.Has .lost connection
  | .waiting, connection => s.scheduler.Queued (.request connection)
  | .held, connection => s.scheduler.Held (.request connection)
  | .answered, connection => ∃ message, (connection, .sent message) ∈ s.handled
  | .driving, connection => (connection, .driving) ∈ s.handled

theorem Inv.executed_iff (h : Inv endpoints comesBack s) (connection : Nat) :
    s.scheduler.Executed (.request connection) ↔ .request connection ∈ s.scheduler.log.executed := by
  constructor
  · intro hexecuted
    apply List.count_pos_iff.mp
    rw [hexecuted.2.2]
    exact Nat.one_pos
  · intro hmem
    rcases h.valid.conserved (h.valid.accepted_of_executed h.pushed hmem) with hqueued | hheld | hexecuted
    · exact absurd hmem (List.count_eq_zero.mp hqueued.2.2)
    · exact absurd hmem (List.count_eq_zero.mp hheld.2.2)
    · exact hexecuted

theorem Inv.mem_handled_iff (h : Inv endpoints comesBack s) (connection : Nat) :
    connection ∈ s.handled.map Prod.fst ↔ .request connection ∈ s.scheduler.log.executed := by
  rw [← h.executed, List.mem_filterMap]
  constructor
  · rintro ⟨job, hmem, hjob⟩
    cases job with
    | request n =>
        obtain rfl := Option.some.inj hjob
        exact hmem
    | resume awaiter => cases hjob
  · exact fun hmem => ⟨_, hmem, rfl⟩

theorem Inv.executed_of_handled (h : Inv endpoints comesBack s) {connection : Nat} {handled : Handled}
    (hmem : (connection, handled) ∈ s.handled) : .request connection ∈ s.scheduler.log.executed :=
  (h.mem_handled_iff connection).mp (List.mem_map_of_mem hmem)

theorem at_of_handled {connection : Nat} {handled : Handled} (hmem : (connection, handled) ∈ s.handled) :
    s.At .answered connection ∨ s.At .driving connection := by
  cases handled with
  | sent message => exact .inl ⟨message, hmem⟩
  | driving => exact .inr hmem

theorem Inv.executed_of_at (h : Inv endpoints comesBack s) {connection : Nat}
    (hat : s.At .answered connection ∨ s.At .driving connection) :
    .request connection ∈ s.scheduler.log.executed := by
  rcases hat with ⟨message, hmem⟩ | hmem
  · exact h.executed_of_handled hmem
  · exact h.executed_of_handled hmem

theorem Inv.handled_nodup (h : Inv endpoints comesBack s) : (s.handled.map Prod.fst).Nodup := by
  rw [← h.executed]
  refine h.valid.executed_nodup.filterMap fun job job' connection hjob hjob' => ?_
  cases job with
  | request n =>
      cases job' with
      | request n' =>
          obtain rfl := Option.some.inj hjob
          obtain rfl := Option.some.inj hjob'
          rfl
      | resume awaiter => cases hjob'
  | resume awaiter => cases hjob

theorem Inv.has_of_at (h : Inv endpoints comesBack s) {place : Whereabouts} {connection : Nat}
    (hat : s.At place connection) : s.loop.Has place.custody connection := by
  cases place with
  | serving => exact hat
  | silent => exact hat
  | lost => exact hat
  | waiting =>
      apply (h.mem_handed_iff connection).mpr
      exact h.valid.accepted_of_queued h.pushed hat
  | held =>
      obtain ⟨-, ⟨w, hw, -⟩, -⟩ := hat
      apply (h.mem_handed_iff connection).mpr
      exact h.valid.accepted_of_job h.pushed hw
  | answered =>
      apply (h.mem_handed_iff connection).mpr
      exact h.valid.accepted_of_executed h.pushed (h.executed_of_at (.inl hat))
  | driving =>
      apply (h.mem_handed_iff connection).mpr
      exact h.valid.accepted_of_executed h.pushed (h.executed_of_at (.inr hat))

theorem Inv.exists_at (h : Inv endpoints comesBack s) {custody : Running.Custody} {connection : Nat}
    (hhas : s.loop.Has custody connection) : ∃ place, s.At place connection := by
  cases custody with
  | serving => exact ⟨.serving, hhas⟩
  | silent => exact ⟨.silent, hhas⟩
  | lost => exact ⟨.lost, hhas⟩
  | handed =>
      rcases h.valid.conserved ((h.mem_handed_iff connection).mp hhas) with hqueued | hheld | hexecuted
      · exact ⟨.waiting, hqueued⟩
      · exact ⟨.held, hheld⟩
      · obtain ⟨⟨_, handled⟩, hmem, rfl⟩ :=
          List.mem_map.mp ((h.mem_handled_iff connection).mpr ((h.executed_iff connection).mp hexecuted))
        rcases at_of_handled hmem with hat | hat
        · exact ⟨.answered, hat⟩
        · exact ⟨.driving, hat⟩

/-- A job is in a ring, or with a worker, or it has ended in one of two ways. -/
theorem Inv.at_unique (h : Inv endpoints comesBack s) {place place' : Whereabouts} {connection : Nat}
    (hat : s.At place connection) (hat' : s.At place' connection) (hcustody : place.custody = place'.custody) :
    place = place' := by
  have hheld : s.At .held connection → ¬ s.At .waiting connection := fun ⟨_, ⟨w, hw, _⟩, _⟩ hqueued =>
    hqueued.2.1 w hw
  have hended : s.At .answered connection ∨ s.At .driving connection →
      ¬ s.At .waiting connection ∧ ¬ s.At .held connection := by
    intro hended
    have hmem := h.executed_of_at hended
    exact ⟨fun hqueued => List.count_eq_zero.mp hqueued.2.2 hmem,
      fun hheld => List.count_eq_zero.mp hheld.2.2 hmem⟩
  have hanswered : s.At .answered connection → ¬ s.At .driving connection := by
    rintro ⟨message, hmem⟩ hdriving
    cases List.inj_on_of_nodup_map h.handled_nodup hmem hdriving rfl
  cases place with
  | waiting =>
      cases place' with
      | waiting => rfl
      | held => exact absurd hat (hheld hat')
      | answered => exact absurd hat (hended (.inl hat')).1
      | driving => exact absurd hat (hended (.inr hat')).1
      | _ => cases hcustody
  | held =>
      cases place' with
      | waiting => exact absurd hat' (hheld hat)
      | held => rfl
      | answered => exact absurd hat (hended (.inl hat')).2
      | driving => exact absurd hat (hended (.inr hat')).2
      | _ => cases hcustody
  | answered =>
      cases place' with
      | waiting => exact absurd hat' (hended (.inl hat)).1
      | held => exact absurd hat' (hended (.inl hat)).2
      | answered => rfl
      | driving => exact absurd hat' (hanswered hat)
      | _ => cases hcustody
  | driving =>
      cases place' with
      | waiting => exact absurd hat' (hended (.inr hat)).1
      | held => exact absurd hat' (hended (.inr hat)).2
      | answered => exact absurd hat (hanswered hat')
      | driving => rfl
      | _ => cases hcustody
  | _ => cases place' <;> first | rfl | cases hcustody

theorem ledger_run {as : List Running.Action} {s t : Running} (hs : ∃ custody, Running.Ledger s custody)
    (h : run Running.step s as = some t) : ∃ custody, Running.Ledger t custody := by
  have hstep : ∀ (s : Running) a t, (∃ custody, Running.Ledger s custody) → s.step a = some t →
      ∃ custody, Running.Ledger t custody := by
    rintro s a t ⟨custody, hs⟩ hstep
    exact Running.ledger_step hs hstep
  exact run_invariant hstep hs h

theorem exists_ledger {as : List Action} (h : run (step endpoints comesBack) start as = some s) :
    ∃ custody, Running.Ledger s.loop custody := by
  have hstep : ∀ (s : ServerThreads) a t,
      (Inv endpoints comesBack s ∧ ∃ custody, Running.Ledger s.loop custody) →
        step endpoints comesBack s a = some t →
          Inv endpoints comesBack t ∧ ∃ custody, Running.Ledger t.loop custody :=
    fun s a t ⟨hs, hledger⟩ hstep => ⟨inv_step hs hstep, ledger_run hledger (loop_step hs hstep)⟩
  exact (run_invariant hstep ⟨inv_start, _, Running.ledger_start⟩ h).2

/-- **No connection is lost or answered twice.** After any interleaving of the accept loop, the workers and
other threads: a connection that was accepted is in one place, and no other is anywhere. What its job has left,
a message or a suspended coroutine, it has left once, and it is what `m_handleRequest` gives to the request that
was read from the connection. -/
theorem connections_kept (endpoints : List (Entry E (Callback V B R))) (comesBack : Bool) (as : List Action)
    (s : ServerThreads) (h : run (step endpoints comesBack) start as = some s) :
    (∀ connection < s.accepted, ∃! place, s.At place connection) ∧
      (∀ connection, s.accepted ≤ connection → ∀ place, ¬ s.At place connection) ∧
      (s.handled.map Prod.fst).Nodup ∧
      (∀ connection, connection ∈ s.handled.map Prod.fst ↔ s.At .answered connection ∨ s.At .driving connection) ∧
      ∀ connection handled, (connection, handled) ∈ s.handled → ∃ request, (connection, request) ∈ s.handed ∧
        (Server.handleRequest endpoints comesBack request).map Prod.snd = .ok handled := by
  have hinv := inv_run h
  obtain ⟨custody, hledger⟩ := exists_ledger h
  refine ⟨fun connection hlt => ?_, fun connection hle place hat => ?_, hinv.handled_nodup,
    fun connection => ⟨fun hmem => ?_, fun hat => ?_⟩, hinv.answers⟩
  · have hknown : custody connection ≠ none := fun hnone =>
      absurd ((hledger.unknown connection).mp hnone) (Nat.not_le_of_lt hlt)
    obtain ⟨place, hplace⟩ := Option.ne_none_iff_exists'.mp hknown
    obtain ⟨place, hat⟩ := hinv.exists_at ((hledger.has_iff place connection).mpr hplace)
    refine ⟨place, hat, fun place' hat' => hinv.at_unique hat' hat ?_⟩
    have hcustody := (hledger.has_iff _ connection).mp (hinv.has_of_at hat)
    have hcustody' := (hledger.has_iff _ connection).mp (hinv.has_of_at hat')
    exact Option.some.inj (hcustody'.symm.trans hcustody)
  · have hcustody := (hledger.has_iff _ connection).mp (hinv.has_of_at hat)
    rw [(hledger.unknown connection).mpr hle] at hcustody
    cases hcustody
  · obtain ⟨⟨key, handled⟩, hentry, rfl⟩ := List.mem_map.mp hmem
    exact at_of_handled hentry
  · exact (hinv.mem_handled_iff connection).mpr (hinv.executed_of_at hat)

/-- It answers. -/
def answering (request : Str) : List Action := accepting request ++ [.thread (.begin 0), .thread (.finish 0)]

/-- `GET /later`, whose callback is a coroutine. -/
def later : Endpoint StringExtractor (Callback Str Unit Str) :=
  ⟨.eGet, .plain ⟨"/later".toList, rfl⟩, none, fun _ => .async, some fun body => some ⟨body, .ePlain⟩, false, false⟩

/-- A second client asks for it, and the worker begins the coroutine. -/
def answeringBoth : List Action :=
  answering getRoot ++ [.own .check, .own (.accept Running.dataThere true),
    .own (.call (.poll Running.dataThere)), .own (.call (.poll Running.dataThere)),
    .own (.call (.recv (some "GET /later HTTP/1.1".toList))), .own (.call (.poll Running.nothingThere)), .guard,
    .push, .thread (.release 0), .thread (.enter 0), .thread (.acquire 0), .thread (.check 0), .thread (.pop 0),
    .thread (.begin 0), .thread (.finish 0)]

theorem connections_kept_answeringBoth :
    ∃ s, run (step (build [root, later]) true) start answeringBoth = some s ∧ s.accepted = 2 ∧
      s.At .answered 0 ∧ s.At .driving 1 ∧ ∀ connection < 2, ∃! place, s.At place connection := by
  have hview : (run (step (build [root, later]) true) start answeringBoth).map (fun s => (s.accepted, s.handled)) =
      some (2, [(1, .driving), (0, .sent (responseDataWithBody .e200 .ePlain "Hello".toList))]) := rfl
  obtain ⟨s, hrun, hview⟩ := Option.map_eq_some_iff.mp hview
  obtain ⟨haccepted, hhandled⟩ := Prod.mk.inj hview
  have hdriving : (1, .driving) ∈ s.handled := hhandled ▸ List.mem_cons_self
  have hsent : (0, .sent _) ∈ s.handled := hhandled ▸ List.mem_cons_of_mem _ List.mem_cons_self
  refine ⟨s, hrun, haccepted, ⟨_, hsent⟩, hdriving, ?_⟩
  rw [← haccepted]
  exact (connections_kept (build [root, later]) true answeringBoth s hrun).1

/-! ## What is handed over -/

/-- What a step reads, and from which connection. -/
def reads (s : ServerThreads) : Action → List (Nat × Str)
  | .own action => s.loop.reads action
  | _ => []

/-- What the steps of a run read. -/
def received (endpoints : List (Entry E (Callback V B R))) (comesBack : Bool) (as : List Action) :
    List (List (Nat × Str)) :=
  observed (step endpoints comesBack) reads start as

theorem toRunning_cases (s : ServerThreads) (a : Action) :
    (∃ b, toRunning s a = [b] ∧ s.reads a = s.loop.reads b) ∨ (toRunning s a = [] ∧ s.reads a = []) := by
  cases a with
  | own action => exact .inl ⟨action, rfl, rfl⟩
  | signal => exact .inl ⟨.signal, rfl, rfl⟩
  | guard => exact .inr ⟨rfl, rfl⟩
  | push => exact .inl ⟨.handleRequest, rfl, rfl⟩
  | offer p priority awaiter => exact .inr ⟨rfl, rfl⟩
  | thread action =>
      cases action with
      | push p =>
          cases hp : s.scheduler.producers p with
          | locked priority job => exact .inl ⟨.push priority job, by simp only [toRunning, hp], rfl⟩
          | _ => exact .inr ⟨by simp only [toRunning, hp], rfl⟩
      | pop w => exact .inl ⟨.pop, rfl, rfl⟩
      | _ => exact .inr ⟨rfl, rfl⟩

theorem heard_run {as : List Action} (h : run (step endpoints comesBack) start as = some s) :
    s.loop.Heard (received endpoints comesBack as) := by
  have hstep : ∀ (s : ServerThreads) a t log,
      (Inv endpoints comesBack s ∧ (∃ custody, Running.Ledger s.loop custody) ∧ s.loop.Heard log) →
        step endpoints comesBack s a = some t → Inv endpoints comesBack t ∧
          (∃ custody, Running.Ledger t.loop custody) ∧ t.loop.Heard (log ++ [s.reads a]) := by
    rintro s a t log ⟨hs, hledger, hheard⟩ hstep
    have hrun := loop_step hs hstep
    refine ⟨inv_step hs hstep, ledger_run hledger hrun, ?_⟩
    obtain ⟨custody, hledger⟩ := hledger
    rcases toRunning_cases s a with ⟨b, hb, hreads⟩ | ⟨hnil, hreads⟩
    · rw [hb, run_cons_eq_some] at hrun
      obtain ⟨loop, hloop, hrun⟩ := hrun
      obtain rfl : loop = t.loop := Option.some.inj hrun
      rw [hreads]
      exact Running.heard_step hheard hledger hloop
    · rw [hnil] at hrun
      rw [hreads, ← Option.some.inj hrun]
      exact hheard.silent
  have hstart : Inv endpoints comesBack start ∧ (∃ custody, Running.Ledger start.loop custody) ∧
      start.loop.Heard [] := ⟨inv_start, ⟨_, Running.ledger_start⟩, Running.heard_start⟩
  exact (run_observed hstep hstart h).2.2

/-- **A request is what its client has sent.** In any interleaving, the job of a connection gets the bytes that
were read from this connection, all of them and in order; and none were read from connections to come. -/
theorem requests_received (endpoints : List (Entry E (Callback V B R))) (comesBack : Bool) (as : List Action)
    (s : ServerThreads) (h : run (step endpoints comesBack) start as = some s) :
    (∀ connection request, (connection, request) ∈ s.handed →
        request = bytesOf (received endpoints comesBack as) connection) ∧
      (∀ connection point, s.point = .serving connection point →
        point.data = bytesOf (received endpoints comesBack as) connection) ∧
      ∀ connection, s.accepted ≤ connection → bytesOf (received endpoints comesBack as) connection = [] := by
  have hheard := heard_run h
  exact ⟨fun connection request hmem => (hheard.handed connection request hmem).symm,
    fun connection point hpoint => (hheard.serving connection point hpoint).symm, hheard.unknown⟩

/-- Two clients, whose requests are read in two parts and in one. -/
def twoClients : List Action :=
  [.own (.listen true), .own .check, .own (.accept Running.dataThere true),
    .own (.call (.poll Running.dataThere)), .own (.call (.poll Running.dataThere)),
    .own (.call (.recv (some "GET ".toList))), .own (.call (.poll Running.dataThere)),
    .own (.call (.recv (some "/".toList))), .own (.call (.poll Running.nothingThere)), .guard, .push,
    .thread (.release 0), .own .check, .own (.accept Running.dataThere true),
    .own (.call (.poll Running.dataThere)), .own (.call (.poll Running.dataThere)),
    .own (.call (.recv (some "PUT".toList))), .own (.call (.poll Running.nothingThere)), .guard, .push]

theorem requests_received_twoClients : ∃ s, run (step (build [root]) true) start twoClients = some s ∧
    (0, "GET /".toList) ∈ s.handed ∧
      "GET /".toList = bytesOf (received (build [root]) true twoClients) 0 := by
  have hview : (run (step (build [root]) true) start twoClients).map (·.handed) =
      some [(1, "PUT".toList), (0, "GET /".toList)] := rfl
  obtain ⟨s, hrun, hhanded⟩ := Option.map_eq_some_iff.mp hview
  have hmem : (0, "GET /".toList) ∈ s.handed := by
    rw [hhanded]
    decide
  exact ⟨s, hrun, hmem, (requests_received (build [root]) true twoClients s hrun).1 0 _ hmem⟩

/-! ## First come, first served -/

/-- What a step does to the rings. -/
def effect (s : ServerThreads) : Action → PriorityQueue.Effect JobPriority (Work Nat)
  | .push => s.scheduler.effect (.push 0)
  | .thread action => s.scheduler.effect action
  | _ => .nothing

/-- What the steps of a run do to the rings. -/
def effects (endpoints : List (Entry E (Callback V B R))) (comesBack : Bool) (as : List Action) :
    List (PriorityQueue.Effect JobPriority (Work Nat)) :=
  observed (step endpoints comesBack) effect start as

/-- The connections whose jobs the workers have taken, in order. -/
def taken (es : List (PriorityQueue.Effect JobPriority (Work Nat))) : List Nat :=
  (es.flatMap PriorityQueue.Effect.leaves).filterMap Work.connection

theorem Step.moves (h : Step endpoints comesBack s a t) {lists : JobPriority → List (Work Nat)}
    (hq : s.scheduler.queue.Represents lists) :
    ∃ lists', PriorityQueue.Moves lists (s.effect a) lists' ∧ t.scheduler.queue.Represents lists' := by
  cases h with
  | own => exact ⟨lists, .nothing, hq⟩
  | signal => exact ⟨lists, .nothing, hq⟩
  | guard hpoint hscheduler => exact (Scheduler.step_cases hscheduler).moves hq
  | push hpoint hscheduler => exact (Scheduler.step_cases hscheduler).moves hq
  | offer hne hscheduler => exact (Scheduler.step_cases hscheduler).moves hq
  | thread hother hends hscheduler => exact (Scheduler.step_cases hscheduler).moves hq

theorem Step.accepted (h : Step endpoints comesBack s a t) :
    t.scheduler.log.accepted = (s.effect a).enters ++ s.scheduler.log.accepted := by
  cases h with
  | own => rfl
  | signal => rfl
  | guard hpoint hscheduler => exact (Scheduler.step_cases hscheduler).accepted
  | push hpoint hscheduler => exact (Scheduler.step_cases hscheduler).accepted
  | offer hne hscheduler => exact (Scheduler.step_cases hscheduler).accepted
  | thread hother hends hscheduler => exact (Scheduler.step_cases hscheduler).accepted

theorem Inv.entered (h : Inv endpoints comesBack s) (hstep : step endpoints comesBack s a = some t)
    {priority : JobPriority} {job : Work Nat} (heffect : s.effect a = .entered priority job)
    (hjob : job.connection ≠ none) : priority = .eMedium := by
  cases step_cases hstep with
  | push hpoint hscheduler =>
      obtain ⟨hp, -⟩ := h.push hpoint hscheduler
      simp only [effect, Scheduler.effect, hp] at heffect
      split_ifs at heffect
      cases heffect
      rfl
  | @thread action scheduler handled hother hends hscheduler =>
      have henters := h.enters_elsewhere hother
      rw [show s.scheduler.effect action = .entered priority job from heffect] at henters
      obtain ⟨connection, hconnection⟩ := Option.ne_none_iff_exists'.mp hjob
      simp [PriorityQueue.Effect.enters, hconnection] at henters
  | _ => cases heffect

/-- **First come, first served.** The connections that are handed over are so in the order in which they were
accepted, and the workers take them in this order: those that were taken are the first of them. -/
theorem served_in_order (endpoints : List (Entry E (Callback V B R))) (comesBack : Bool) (as : List Action)
    (s : ServerThreads) (h : run (step endpoints comesBack) start as = some s) :
    (s.handed.map Prod.fst).reverse.Pairwise (· < ·) ∧
      taken (effects endpoints comesBack as) <+: (s.handed.map Prod.fst).reverse := by
  obtain ⟨custody, hledger⟩ := exists_ledger h
  refine ⟨List.pairwise_reverse.mpr hledger.sorted, ?_⟩
  have hentered : ∀ e ∈ effects endpoints comesBack as, ∀ priority job, e = .entered priority job →
      job.connection ≠ none → priority = .eMedium :=
    observed_forall (fun s a t hs hstep => ⟨inv_step hs hstep, fun _ _ => Inv.entered hs hstep⟩) inv_start
  obtain ⟨lists, hpath, -⟩ : ∃ lists, PriorityQueue.Path (fun _ => []) (effects endpoints comesBack as) lists ∧
      s.scheduler.queue.Represents lists :=
    @run_path _ _ _ _ _ _ effect (fun s lists => s.scheduler.queue.Represents lists)
      (fun _ _ _ _ hq hstep => (step_cases hstep).moves hq) as _ _ _ JobQueue.represents_init h
  have hselect := PriorityQueue.path_select hpath fun priority job hmem => hentered _ hmem priority job rfl
  have haccepted : s.scheduler.log.accepted.reverse =
      (effects endpoints comesBack as).flatMap PriorityQueue.Effect.enters := by
    have hlog : ∀ (s : ServerThreads) a t, step endpoints comesBack s a = some t →
        t.scheduler.log.accepted.reverse = s.scheduler.log.accepted.reverse ++ (s.effect a).enters := by
      intro s a t hstep
      rw [(step_cases hstep).accepted, List.reverse_append]
      congr 1
      cases s.effect a <;> rfl
    exact @run_log _ _ _ (step endpoints comesBack) effect _ (fun s => s.scheduler.log.accepted.reverse)
      PriorityQueue.Effect.enters hlog as start s h
  rw [← (inv_run h).accepted, ← List.filterMap_reverse, haccepted, hselect]
  exact List.prefix_append _ _

/-- Two workers take the jobs of both. -/
def bothTaken : List Action :=
  twoClients ++ [.thread (.release 0), .thread (.enter 0), .thread (.acquire 0), .thread (.check 0),
    .thread (.pop 0), .thread (.begin 0), .thread (.enter 1), .thread (.acquire 1), .thread (.check 1),
    .thread (.pop 1)]

theorem served_in_order_bothTaken : ∃ s, run (step (build [root]) true) start bothTaken = some s ∧
    (s.handed.map Prod.fst).reverse = [0, 1] ∧ taken (effects (build [root]) true bothTaken) = [0, 1] ∧
    taken (effects (build [root]) true bothTaken) <+: (s.handed.map Prod.fst).reverse := by
  have hview : (run (step (build [root]) true) start bothTaken).map (fun s => (s.handed.map Prod.fst).reverse) =
      some [0, 1] := rfl
  obtain ⟨s, hrun, hhanded⟩ := Option.map_eq_some_iff.mp hview
  exact ⟨s, hrun, hhanded, rfl, (served_in_order (build [root]) true bothTaken s hrun).2⟩

end ServerThreads

end Fipper
