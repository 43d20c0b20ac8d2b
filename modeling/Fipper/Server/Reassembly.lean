import Fipper.Lib.Transition
import Fipper.Server.Connection

/-!
# The request and its segments

One client whose request comes in segments. They arrive one after the other, at any time; `poll` tells
whether something has arrived, and `recv` takes from the front of what has, as much as it likes and no
more than the buffer. `Serving` says which call is made.

* `Transfer.step` : the transition system of the stream and of the thread that reads it;
* `Caught` : a poll made while something of the request is left finds some of it;
* `reassembled_iff` : the runs that pass on the whole request.
-/

namespace Fipper

open Lib

/-- The bytes that have arrived and were not read, the segments to come, whether the client will close
its end after them, and whether it has. -/
structure Stream where
  arrived : Str
  coming : List Str
  closing : Bool
  closed : Bool
  deriving DecidableEq, Repr

namespace Stream

/-- What is left to read. -/
def rest (s : Stream) : Str := s.arrived ++ s.coming.flatten

/-- At the end of the stream there is something to read, too. -/
def readable (s : Stream) : Bool := !s.arrived.isEmpty || s.closed

/-- The next segment arrives, or the end of the stream. -/
def arrive (s : Stream) : Option Stream :=
  match s.coming with
  | segment :: coming => some { s with arrived := s.arrived ++ segment, coming := coming }
  | [] => if s.closing && !s.closed then some { s with closed := true } else none

/-- `recv`, which returns `n` bytes; it waits while there is nothing to return. -/
def recv (s : Stream) (n : Nat) : Option (Str × Stream) :=
  if 0 < n ∧ n ≤ s.arrived.length ∧ n ≤ Socket.bufferSize then
    some (s.arrived.take n, { s with arrived := s.arrived.drop n })
  else if n = 0 ∧ s.arrived = [] ∧ s.closed then some ([], s)
  else none

def Valid (s : Stream) : Prop := s.closed = true → s.coming = []

/-- The arrivals that are still to come. -/
def arrivals (s : Stream) : Nat := s.coming.length + (if s.closing && !s.closed then 1 else 0)

theorem arrive_spec {s t : Stream} (hs : s.Valid) (h : s.arrive = some t) :
    t.Valid ∧ t.rest = s.rest ∧ (s.readable = true → t.readable = true) ∧
      t.arrivals < s.arrivals := by
  unfold arrive at h
  split at h
  · next segment coming hcoming =>
      obtain rfl := Option.some.inj h
      refine ⟨fun hclosed => ?_, ?_, fun hreadable => ?_, ?_⟩
      · rw [hs hclosed] at hcoming
        cases hcoming
      · simp [rest, hcoming]
      · cases harrived : s.arrived with
        | nil =>
            have hclosed : s.closed = true := by simpa [readable, harrived] using hreadable
            rw [hs hclosed] at hcoming
            cases hcoming
        | cons byte bytes => rfl
      · simp [arrivals, hcoming]
  · next hcoming =>
      obtain ⟨hclosing, h⟩ := Option.ite_none_right_eq_some.mp h
      obtain rfl := Option.some.inj h
      refine ⟨fun _ => hcoming, rfl, fun _ => by simp [readable], ?_⟩
      rw [arrivals, arrivals, if_pos hclosing]
      simp

theorem recv_spec {s t : Stream} {n : Nat} {bytes : Str} (h : s.recv n = some (bytes, t)) :
    bytes ++ t.rest = s.rest ∧ bytes.length = n ∧ t.coming = s.coming ∧ t.closed = s.closed ∧
      t.closing = s.closing ∧ (n = 0 → s.arrived = [] ∧ s.closed = true ∧ t = s) := by
  unfold recv at h
  split at h
  · next hn =>
      obtain ⟨rfl, rfl⟩ := Prod.mk.inj (Option.some.inj h)
      refine ⟨?_, ?_, rfl, rfl, rfl, fun hzero => ?_⟩
      · rw [rest, rest, ← List.append_assoc, List.take_append_drop]
      · rw [List.length_take]
        omega
      · omega
  · obtain ⟨hn, h⟩ := Option.ite_none_right_eq_some.mp h
    obtain ⟨rfl, rfl⟩ := Prod.mk.inj (Option.some.inj h)
    exact ⟨rfl, hn.1.symm, rfl, rfl, rfl, fun _ => ⟨hn.2.1, hn.2.2, rfl⟩⟩

theorem recv_of_readable {s : Stream} (h : s.readable = true) :
    ∃ n bytes t, s.recv n = some (bytes, t) := by
  cases harrived : s.arrived with
  | nil =>
      have hclosed : s.closed = true := by simpa [readable, harrived] using h
      exact ⟨0, [], s, by simp [recv, harrived, hclosed]⟩
  | cons byte bytes =>
      refine ⟨1, s.arrived.take 1, { s with arrived := s.arrived.drop 1 },
        if_pos ⟨Nat.one_pos, ?_, ?_⟩⟩
      · rw [harrived, List.length_cons]
        omega
      · decide

end Stream

structure Transfer where
  serving : Except Errors (Option Serving)
  stream : Stream

namespace Transfer

inductive Action
  | arrive
  | poll
  | recv (n : Nat)
  deriving DecidableEq, Repr

/-- The client has connected; nothing of its request has arrived. -/
def start (segments : List Str) (closing : Bool) : Transfer :=
  ⟨.ok (some .polling), [], segments, closing, false⟩

/-- The thread makes a call, if it is its turn. -/
def call (s : Transfer) (call : Call) (stream : Stream) : Option Transfer :=
  match s.serving with
  | .ok (some point) => (point.next call).map fun serving => ⟨serving, stream⟩
  | _ => none

def step (s : Transfer) : Action → Option Transfer
  | .arrive => s.stream.arrive.map fun stream => { s with stream := stream }
  | .poll => s.call (.poll (.revents s.stream.readable false false false)) s.stream
  | .recv n => (s.stream.recv n).bind fun (bytes, stream) => s.call (.recv (some bytes)) stream

/-- Neither of the two polls with a timeout passes in silence, and none of the others falls between two
segments. -/
def caught (s : Transfer) : Action → Bool
  | .poll =>
      match s.serving with
      | .ok (some .polling) => s.stream.readable
      | .ok (some .recieving) => s.stream.readable
      | .ok (some (.more _ _)) => s.stream.readable || s.stream.rest = []
      | _ => true
  | _ => true

/-- `m_handleRequest` gets this request. -/
def Passed (s : Transfer) (request : Str) : Prop := s.serving = .ok (some (.handling request))

/-! ## What is read and what is left -/

/-- What was read, followed by what is left, is the request. -/
def Point (request : Str) (stream : Stream) : Serving → Prop
  | .polling | .recieving => stream.rest = request
  | .recv data => data ++ stream.rest = request ∧ stream.readable = true
  | .more data written => data ++ stream.rest = request ∧ (written = 0 → stream.rest = [])
  | .handling passed => passed = request

def OnTrack (request : Str) (s : Transfer) : Prop :=
  ∃ point, s.serving = .ok (some point) ∧ Point request s.stream point

/-- The client was dropped, or something else was passed on than its request. -/
def Cut (request : Str) (s : Transfer) : Prop :=
  ∀ point, s.serving = .ok (some point) → ∃ passed, point = .handling passed ∧ passed ≠ request

/-! ## One step -/

inductive Step (s : Transfer) : Action → Transfer → Prop
  | arrived (stream : Stream) (arrive : s.stream.arrive = some stream) :
      Step s .arrive { s with stream := stream }
  | polled (serving : s.serving = .ok (some .polling)) :
      Step s .poll ⟨.ok (if s.stream.readable then some .recieving else none), s.stream⟩
  | recieving (serving : s.serving = .ok (some .recieving)) :
      Step s .poll
        ⟨if s.stream.readable then .ok (some (.recv [])) else Serving.cantRead [], s.stream⟩
  | recieved (data : Str) (n : Nat) (bytes : Str) (stream : Stream)
      (serving : s.serving = .ok (some (.recv data))) (recv : s.stream.recv n = some (bytes, stream)) :
      Step s (.recv n) ⟨.ok (some (.more (data ++ bytes) bytes.length)), stream⟩
  | more (data : Str) (written : Nat) (serving : s.serving = .ok (some (.more data written))) :
      Step s .poll ⟨.ok (some (if s.stream.readable && written ≠ 0 then .recv data
        else .handling data)), s.stream⟩

theorem call_eq_some {s t : Transfer} {c : Call} {stream : Stream}
    (h : s.call c stream = some t) :
    ∃ point serving, s.serving = .ok (some point) ∧ point.next c = some serving ∧
      t = ⟨serving, stream⟩ := by
  unfold call at h
  split at h
  · next point hserving =>
      obtain ⟨serving, hnext, rfl⟩ := Option.map_eq_some_iff.mp h
      exact ⟨point, serving, hserving, hnext, rfl⟩
  · cases h

theorem step_cases {s t : Transfer} {a : Action} (h : s.step a = some t) : Step s a t := by
  cases a with
  | arrive =>
      obtain ⟨stream, harrive, rfl⟩ := Option.map_eq_some_iff.mp h
      exact .arrived stream harrive
  | poll =>
      obtain ⟨point, serving, hserving, hnext, rfl⟩ := call_eq_some h
      cases point with
      | polling =>
          obtain rfl := Option.some.inj hnext
          have hpolled := Step.polled hserving
          cases hreadable : s.stream.readable <;> rw [hreadable] at hpolled <;> exact hpolled
      | recieving =>
          obtain rfl := Option.some.inj hnext
          have hpolled := Step.recieving hserving
          cases hreadable : s.stream.readable <;> rw [hreadable] at hpolled <;> exact hpolled
      | recv data => cases hnext
      | more data written =>
          obtain rfl := Option.some.inj hnext
          exact .more data written hserving
      | handling request => cases hnext
  | recv n =>
      obtain ⟨⟨bytes, stream⟩, hrecv, h⟩ := Option.bind_eq_some_iff.mp h
      obtain ⟨point, serving, hserving, hnext, rfl⟩ := call_eq_some h
      cases point with
      | recv data =>
          obtain rfl := Option.some.inj hnext
          exact .recieved data n bytes stream hserving hrecv
      | _ => cases hnext

/-- Steps that are still to come. -/
def remaining (s : Transfer) : Nat :=
  s.stream.arrivals +
    match s.serving with
    | .ok (some .polling) => 2 * s.stream.rest.length + 6
    | .ok (some .recieving) => 2 * s.stream.rest.length + 5
    | .ok (some (.recv _)) => 2 * s.stream.rest.length + 4
    | .ok (some (.more _ written)) => 2 * s.stream.rest.length + (if written = 0 then 1 else 5)
    | _ => 0

variable {request : Str}

theorem valid_step {s t : Transfer} {a : Action} (h : s.stream.Valid) (hstep : s.step a = some t) :
    t.stream.Valid := by
  cases step_cases hstep with
  | arrived stream arrive => exact (Stream.arrive_spec h arrive).1
  | recieved data n bytes stream serving recv =>
      obtain ⟨-, -, hcoming, hclosed, -, -⟩ := Stream.recv_spec recv
      exact fun hc => hcoming.trans (h (hclosed.symm.trans hc))
  | _ => exact h

theorem remaining_step {s t : Transfer} {a : Action} (h : s.stream.Valid)
    (hstep : s.step a = some t) : remaining t < remaining s := by
  cases step_cases hstep with
  | arrived stream arrive =>
      obtain ⟨-, hrest, -, hlt⟩ := Stream.arrive_spec h arrive
      unfold remaining
      rw [hrest]
      exact Nat.add_lt_add_right hlt _
  | polled serving =>
      unfold remaining
      rw [serving]
      cases s.stream.readable with
      | true => simp
      | false => simp
  | recieving serving =>
      unfold remaining
      rw [serving]
      cases s.stream.readable with
      | true => simp
      | false => simp [Serving.cantRead]
  | recieved data n bytes stream serving recv =>
      obtain ⟨hrest, hlen, hcoming, hclosed, hclosing, -⟩ := Stream.recv_spec recv
      have hrest := congrArg List.length hrest
      rw [List.length_append] at hrest
      have harrivals : stream.arrivals = s.stream.arrivals := by
        rw [Stream.arrivals, Stream.arrivals, hcoming, hclosed, hclosing]
      unfold remaining
      rw [serving, harrivals]
      dsimp only
      split
      · omega
      · omega
  | more data written serving =>
      unfold remaining
      rw [serving]
      by_cases hwritten : written = 0
      · simp [hwritten]
      · cases s.stream.readable with
        | true => simp [hwritten]
        | false => simp [hwritten]

theorem point_eq {s : Transfer} {p q : Serving} (hp : s.serving = .ok (some p))
    (hq : s.serving = .ok (some q)) : q = p :=
  Option.some.inj (Except.ok.inj (hq.symm.trans hp))

theorem onTrack_step {s t : Transfer} {a : Action} (h : s.stream.Valid) (hs : OnTrack request s)
    (hok : s.caught a = true) (hstep : s.step a = some t) : OnTrack request t := by
  obtain ⟨point, hpoint, hs⟩ := hs
  cases step_cases hstep with
  | arrived stream arrive =>
      obtain ⟨-, hrest, hreadable, -⟩ := Stream.arrive_spec h arrive
      refine ⟨point, hpoint, ?_⟩
      cases point with
      | polling => exact hrest.trans hs
      | recieving => exact hrest.trans hs
      | recv data => exact ⟨hrest ▸ hs.1, hreadable hs.2⟩
      | more data written => exact ⟨hrest ▸ hs.1, fun hw => hrest.trans (hs.2 hw)⟩
      | handling passed => exact hs
  | polled serving =>
      obtain rfl := point_eq hpoint serving
      simp only [caught, serving] at hok
      rw [hok]
      exact ⟨.recieving, rfl, hs⟩
  | recieving serving =>
      obtain rfl := point_eq hpoint serving
      simp only [caught, serving] at hok
      rw [hok]
      exact ⟨.recv [], rfl, hs, hok⟩
  | recieved data n bytes stream serving recv =>
      obtain rfl := point_eq hpoint serving
      obtain ⟨hrest, hlen, -, -, -, hzero⟩ := Stream.recv_spec recv
      refine ⟨_, rfl, ?_, fun hwritten => ?_⟩
      · rw [List.append_assoc, hrest]
        exact hs.1
      · obtain ⟨harrived, hclosed, rfl⟩ := hzero (hlen.symm.trans hwritten)
        rw [Stream.rest, harrived, h hclosed]
        rfl
  | more data written serving =>
      obtain rfl := point_eq hpoint serving
      simp only [caught, serving, Bool.or_eq_true, decide_eq_true_eq] at hok
      by_cases hgo : s.stream.readable = true ∧ written ≠ 0
      · rw [hgo.1, decide_eq_true hgo.2]
        exact ⟨.recv data, rfl, hs.1, hgo.1⟩
      · have hrest : s.stream.rest = [] := by
          by_cases hwritten : written = 0
          · exact hs.2 hwritten
          · exact hok.resolve_left fun hreadable => hgo ⟨hreadable, hwritten⟩
        have hdata : data ++ s.stream.rest = request := hs.1
        rw [hrest, List.append_nil] at hdata
        refine ⟨.handling data, ?_, hdata⟩
        rw [if_neg (by simpa using hgo)]

theorem cut_step {s t : Transfer} {a : Action} (hs : OnTrack request s)
    (hok : s.caught a ≠ true) (hstep : s.step a = some t) : Cut request t := by
  obtain ⟨point, hpoint, hs⟩ := hs
  cases step_cases hstep with
  | arrived stream arrive => exact absurd rfl hok
  | polled serving =>
      simp only [caught, serving, Bool.not_eq_true] at hok
      rw [hok]
      nofun
  | recieving serving =>
      simp only [caught, serving, Bool.not_eq_true] at hok
      rw [hok]
      nofun
  | recieved data n bytes stream serving recv => exact absurd rfl hok
  | more data written serving =>
      obtain rfl := point_eq hpoint serving
      simp only [caught, serving, ne_eq, Bool.or_eq_true, decide_eq_true_eq, not_or] at hok
      rw [Bool.eq_false_iff.mpr hok.1]
      rintro _ ⟨⟩
      refine ⟨data, rfl, fun hdata => hok.2 ?_⟩
      exact List.append_right_eq_self.mp (hs.1.trans hdata.symm)

theorem cut_stays {s t : Transfer} {a : Action} (hs : Cut request s) (hstep : s.step a = some t) :
    Cut request t := by
  cases step_cases hstep with
  | arrived stream arrive => exact hs
  | polled serving => obtain ⟨_, h, -⟩ := hs _ serving; cases h
  | recieving serving => obtain ⟨_, h, -⟩ := hs _ serving; cases h
  | recieved data n bytes stream serving recv => obtain ⟨_, h, -⟩ := hs _ serving; cases h
  | more data written serving => obtain ⟨_, h, -⟩ := hs _ serving; cases h

theorem cut_not_onTrack {s : Transfer} (hs : Cut request s) : ¬ OnTrack request s := by
  rintro ⟨point, hpoint, htrack⟩
  obtain ⟨passed, rfl, hne⟩ := hs point hpoint
  exact hne htrack

/-! ## Whole runs -/

/-- On its track a run is over when the request was passed on. -/
theorem passed_of_stuck {s : Transfer} (hs : OnTrack request s) (hstuck : ∀ a, s.step a = none) :
    s.Passed request := by
  obtain ⟨point, hpoint, hs⟩ := hs
  cases point with
  | polling => exact absurd (hstuck .poll) (by simp [step, call, hpoint, Serving.next])
  | recieving => exact absurd (hstuck .poll) (by simp [step, call, hpoint, Serving.next])
  | recv data =>
      obtain ⟨n, bytes, stream, hrecv⟩ := Stream.recv_of_readable hs.2
      exact absurd (hstuck (.recv n)) (by simp [step, call, hpoint, hrecv, Serving.next])
  | more data written => exact absurd (hstuck .poll) (by simp [step, call, hpoint, Serving.next])
  | handling passed =>
      obtain rfl : passed = request := hs
      exact hpoint

/-- **When the request is passed on whole.** Every run ends, whatever the segments, and it ends with the
whole request at `m_handleRequest` exactly when neither of the first two polls passes in silence and
every other poll made while something is left to read finds some of it. -/
theorem reassembled_iff (segments : List Str) (closing : Bool) {actions : List Action} {t : Transfer}
    (h : run step (start segments closing) actions = some t) :
    actions.length ≤ 2 * segments.flatten.length + segments.length + 7 ∧
      ((∀ a, t.step a = none) →
        (t.Passed segments.flatten ↔ Along step (caught · ·) (start segments closing) actions)) := by
  have hvalid : (start segments closing).stream.Valid := nofun
  refine ⟨?_, fun hstuck => ?_⟩
  · have hlen := @run_length_le _ _ step (·.stream.Valid) remaining
      (fun _ _ _ hv hstep => ⟨valid_step hv hstep, remaining_step hv hstep⟩) _ _ _ hvalid h
    have hstart : remaining (start segments closing) ≤
        2 * segments.flatten.length + segments.length + 7 := by
      cases closing <;> simp [remaining, start, Stream.arrivals, Stream.rest] <;> omega
    omega
  · have htrack : OnTrack segments.flatten (start segments closing) := ⟨.polling, rfl, rfl⟩
    rw [← good_iff_along (fun _ _ _ => valid_step) (fun _ _ _ => onTrack_step)
      (fun _ _ _ _ => cut_step) (fun _ _ _ => cut_stays) (fun _ => cut_not_onTrack) hvalid htrack h]
    exact ⟨fun hpassed => ⟨_, hpassed, rfl⟩, fun hs => passed_of_stuck hs hstuck⟩

def twoSegments : List Str := ["GET ".toList, "/ ".toList]

/-- The second segment arrives in time for `recv`. -/
theorem reassembled_twoSegments :
    ∃ t, run step (start twoSegments false) [.arrive, .poll, .poll, .arrive, .recv 6, .poll] =
      some t ∧ t.Passed twoSegments.flatten := by
  have hrun : run step (start twoSegments false) [.arrive, .poll, .poll, .arrive, .recv 6, .poll] =
      some ⟨.ok (some (.handling "GET / ".toList)), [], [], false, false⟩ := rfl
  refine ⟨_, hrun, ((reassembled_iff twoSegments false hrun).2 fun a => ?_).mpr (by decide)⟩
  cases a with
  | arrive => rfl
  | poll => rfl
  | recv n =>
      have hrecv : Stream.recv ⟨[], [], false, false⟩ n = none := by
        simp only [Stream.recv, List.length_nil]
        rw [if_neg (by omega), if_neg (by simp)]
      rw [step, hrecv]
      rfl

/-- The second segment arrives after the poll: what is passed on is the first. -/
theorem cut_twoSegments :
    ∃ t, run step (start twoSegments false) [.arrive, .poll, .poll, .recv 4, .poll, .arrive] =
      some t ∧ t.Passed "GET ".toList ∧ ¬ t.Passed twoSegments.flatten := by
  refine ⟨_, rfl, rfl, fun h => ?_⟩
  have hrequest : "GET ".toList = twoSegments.flatten :=
    Serving.handling.inj (Option.some.inj (Except.ok.inj h))
  exact absurd hrequest (by decide)

end Transfer

end Fipper
