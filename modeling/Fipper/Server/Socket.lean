import Fipper.Basic
import Fipper.Lib.Transition
import Mathlib.Logic.Function.Basic

/-!
# The descriptors of the sockets

The `Socket` objects of a program, each under a number, and the descriptors that are open in its
process. The system may hand out any descriptor that is not open.

* `destruct`, `moveConstruct`, `moveAssign`, `create`, `accept` : the members that touch `m_socket`;
* `Owned` : no descriptor has two owners, all that are owned are open, and no other was closed;
* `Harmless` : an object isn't left with what its storage held, if that is a descriptor;
* `owned_iff` : the runs in which the sockets own their descriptors throughout.
-/

namespace Fipper

open Lib

/-- A call of `close`, and whether the descriptor was open. -/
structure Close where
  descriptor : Int
  wasOpen : Bool
  deriving DecidableEq, Repr

/-- `m_socket` of every object, which objects live, which descriptors are open, and the calls of `close`
so far, the latest first. -/
structure Sockets where
  live : Nat → Bool
  socket : Nat → Int
  isOpen : Int → Bool
  closes : List Close

/-- What the system answers in `Socket::create`: the descriptor of `socket`, `none` for -1, and whether
`setsockopt` and `bind` succeed. -/
structure Creation where
  socket : Option Int
  reusable : Bool
  bound : Bool
  deriving DecidableEq, Repr

/-- What the system answers in `Socket::accept`: the result of `hasDataToRecieve`, and the descriptor of
`::accept`, `none` for -1. -/
structure Acceptance where
  dataToRecieve : Option Bool
  accepted : Option Int
  deriving DecidableEq, Repr

namespace Sockets

/-- No object lives yet; any descriptors may be open. -/
def start (isOpen : Int → Bool) : Sockets := ⟨fun _ => false, fun _ => 0, isOpen, []⟩

/-- `m_socket = descriptor` in object `i`. -/
def set (s : Sockets) (i : Nat) (descriptor : Int) : Sockets :=
  { s with socket := Function.update s.socket i descriptor }

/-- The system opens a descriptor. -/
def opened (s : Sockets) (descriptor : Int) : Sockets :=
  { s with isOpen := Function.update s.isOpen descriptor true }

def close (s : Sockets) (descriptor : Int) : Sockets :=
  { s with
    isOpen := Function.update s.isOpen descriptor false
    closes := ⟨descriptor, s.isOpen descriptor⟩ :: s.closes }

/-- The default constructor, which is defaulted; `m_socket` has no initialiser. `found` is 0 when the
object is value-initialised, else what its storage held. -/
def construct (s : Sockets) (i : Nat) (found : Int) : Sockets :=
  { s.set i found with live := Function.update s.live i true }

/-- The body of `~Socket`. -/
def destruct (s : Sockets) (i : Nat) : Sockets := if s.socket i > 0 then s.close (s.socket i) else s

/-- The end of an object. -/
def destroy (s : Sockets) (i : Nat) : Sockets :=
  { s.destruct i with live := Function.update s.live i false }

/-- `m_socket = socket.m_socket; socket.m_socket = 0;` in `i`, with `j` for `socket`. -/
def takeFrom (s : Sockets) (i j : Nat) : Sockets := (s.set i (s.socket j)).set j 0

def moveConstruct (s : Sockets) (i j : Nat) : Sockets :=
  { s.takeFrom i j with live := Function.update s.live i true }

/-- `operator=`: `this->~Socket()` first. -/
def moveAssign (s : Sockets) (i j : Nat) : Sockets := (s.destruct i).takeFrom i j

def create (s : Sockets) (i : Nat) (creation : Creation) : Result × Sockets :=
  match creation.socket with
  | none => (.eFailure, s.set i (-1))
  | some descriptor =>
      let s := (s.opened descriptor).set i descriptor
      if !creation.reusable then (.eFailure, s)
      else if !creation.bound then (.eFailure, s)
      else (.eSuccess, s)

/-- `accept`. The local variable is the object `socket`, what is returned is the object `result`. -/
def accept (s : Sockets) (socket result : Nat) (acceptance : Acceptance) : Except Result Nat × Sockets :=
  match acceptance.dataToRecieve with
  | none => (.error .eFailure, s)
  | some false => (.error .eNothingToAccept, s)
  | some true =>
      let s := s.construct socket 0
      match acceptance.accepted with
      | none => (.error .eFailure, (s.set socket (-1)).destroy socket)
      | some descriptor =>
          let s := (s.opened descriptor).set socket descriptor
          (.ok result, (s.moveConstruct result socket).destroy socket)

inductive Action
  | construct (i : Nat) (found : Int)
  | create (i : Nat) (creation : Creation)
  | accept (i socket result : Nat) (acceptance : Acceptance)
  | moveConstruct (i j : Nat)
  | moveAssign (i j : Nat)
  | destroy (i : Nat)
  deriving DecidableEq, Repr

/-- The system hands out a descriptor that isn't open. -/
def HandsOut (s : Sockets) (descriptor : Option Int) : Prop :=
  ∀ fd ∈ descriptor, 0 ≤ fd ∧ s.isOpen fd = false

instance (s : Sockets) (descriptor : Option Int) : Decidable (s.HandsOut descriptor) :=
  inferInstanceAs (Decidable (∀ fd ∈ descriptor, _))

def step (s : Sockets) : Action → Option Sockets
  | .construct i found => if s.live i = false then some (s.construct i found) else none
  | .create i creation =>
      if s.live i = true ∧ s.HandsOut creation.socket then some (s.create i creation).2 else none
  | .accept i socket result acceptance =>
      if s.live i = true ∧ s.live socket = false ∧ s.live result = false ∧ result ≠ socket ∧
          s.HandsOut acceptance.accepted then
        some (s.accept socket result acceptance).2
      else none
  | .moveConstruct i j =>
      if s.live i = false ∧ s.live j = true then some (s.moveConstruct i j) else none
  | .moveAssign i j =>
      if s.live i = true ∧ s.live j = true then some (s.moveAssign i j) else none
  | .destroy i => if s.live i = true then some (s.destroy i) else none

/-! ## Ownership -/

/-- The objects of a set own the descriptors they hold, and only open ones were closed. -/
structure OwnedBy (s : Sockets) (objects : Nat → Prop) : Prop where
  apart : ∀ i j, objects i → objects j → 0 < s.socket i → s.socket i = s.socket j → i = j
  isOpen : ∀ i, objects i → 0 < s.socket i → s.isOpen (s.socket i) = true
  closes : ∀ c ∈ s.closes, c.wasOpen = true

/-- The live objects own the descriptors they hold. -/
def Owned (s : Sockets) : Prop := s.OwnedBy fun i => s.live i = true

/-- An object may come to hold the descriptor: it is open, and no object of the set holds it. -/
def Vacant (s : Sockets) (objects : Nat → Prop) (descriptor : Int) : Prop :=
  0 < descriptor → s.isOpen descriptor = true ∧ ∀ i, objects i → s.socket i ≠ descriptor

/-- A default-constructed object doesn't hold a descriptor, or one that is open and in no other object. -/
def Harmless (s : Sockets) : Action → Prop
  | .construct _ found => s.Vacant (fun i => s.live i = true) found
  | _ => True

variable {s t : Sockets} {objects objects' : Nat → Prop} {i j : Nat} {descriptor : Int}

theorem OwnedBy.mono (h : s.OwnedBy objects) (hsub : ∀ k, objects' k → objects k) : s.OwnedBy objects' :=
  ⟨fun i j hi hj => h.apart i j (hsub i hi) (hsub j hj), fun i hi => h.isOpen i (hsub i hi), h.closes⟩

theorem vacant_of_nonpos (h : descriptor ≤ 0) : s.Vacant objects descriptor :=
  fun hpos => absurd hpos (by omega)

theorem OwnedBy.set (h : s.OwnedBy fun k => objects k ∧ k ≠ i)
    (hvacant : s.Vacant (fun k => objects k ∧ k ≠ i) descriptor) :
    (s.set i descriptor).OwnedBy objects := by
  have hself : (s.set i descriptor).socket i = descriptor := Function.update_self i _ _
  have hother : ∀ {k}, k ≠ i → (s.set i descriptor).socket k = s.socket k :=
    fun hk => Function.update_of_ne hk _ _
  refine ⟨fun k l hk hl hpos heq => ?_, fun k hk hpos => ?_, h.closes⟩
  · by_cases hki : k = i
    · by_cases hli : l = i
      · rw [hki, hli]
      · rw [hki, hself] at hpos heq
        rw [hother hli] at heq
        exact absurd heq.symm ((hvacant hpos).2 l ⟨hl, hli⟩)
    · rw [hother hki] at hpos heq
      by_cases hli : l = i
      · rw [hli, hself] at heq
        exact absurd heq ((hvacant (heq ▸ hpos)).2 k ⟨hk, hki⟩)
      · rw [hother hli] at heq
        exact h.apart k l ⟨hk, hki⟩ ⟨hl, hli⟩ hpos heq
  · by_cases hki : k = i
    · rw [hki, hself] at hpos ⊢
      exact (hvacant hpos).1
    · rw [hother hki] at hpos ⊢
      exact h.isOpen k ⟨hk, hki⟩ hpos

/-- The destructor closes what its object owns, and no other object. -/
theorem OwnedBy.destruct (h : s.OwnedBy objects) (hi : objects i) :
    (s.destruct i).OwnedBy fun k => objects k ∧ k ≠ i := by
  unfold Sockets.destruct
  split
  · next hpos =>
      refine ⟨fun k l hk hl => h.apart k l hk.1 hl.1, fun k hk hposk => ?_, fun c hc => ?_⟩
      · have hne : s.socket k ≠ s.socket i := fun heq => hk.2 (h.apart k i hk.1 hi hposk heq)
        show Function.update s.isOpen (s.socket i) false (s.socket k) = true
        rw [Function.update_of_ne hne]
        exact h.isOpen k hk.1 hposk
      · rcases List.mem_cons.mp hc with rfl | hc
        · exact h.isOpen i hi hpos
        · exact h.closes c hc
  · exact h.mono fun k hk => hk.1

/-- A new descriptor is in no object. -/
theorem OwnedBy.opened (h : s.OwnedBy objects) (hnew : s.isOpen descriptor = false) :
    (s.opened descriptor).OwnedBy objects ∧ (s.opened descriptor).Vacant objects descriptor := by
  have hne : ∀ k, objects k → 0 < s.socket k → s.socket k ≠ descriptor := by
    intro k hk hpos heq
    have hopen := h.isOpen k hk hpos
    rw [heq, hnew] at hopen
    cases hopen
  refine ⟨⟨h.apart, fun k hk hpos => ?_, h.closes⟩, fun hpos => ⟨Function.update_self _ _ _, ?_⟩⟩
  · show Function.update s.isOpen descriptor true (s.socket k) = true
    rw [Function.update_of_ne (hne k hk hpos)]
    exact h.isOpen k hk hpos
  · intro k hk heq
    have heq : s.socket k = descriptor := heq
    exact hne k hk (heq ▸ hpos) heq

/-- A descriptor goes from one object to another. -/
theorem OwnedBy.takeFrom (h : s.OwnedBy fun k => objects k ∧ k ≠ i) (hj : objects j) (hij : j ≠ i) :
    (s.takeFrom i j).OwnedBy objects := by
  have hrest : s.OwnedBy fun k => (objects k ∧ k ≠ j) ∧ k ≠ i := h.mono fun k hk => ⟨hk.1.1, hk.2⟩
  have hvacant : s.Vacant (fun k => (objects k ∧ k ≠ j) ∧ k ≠ i) (s.socket j) := fun hpos =>
    ⟨h.isOpen j ⟨hj, hij⟩ hpos, fun k hk heq =>
      hk.1.2 (h.apart j k ⟨hj, hij⟩ ⟨hk.1.1, hk.2⟩ hpos heq.symm).symm⟩
  exact (hrest.set hvacant).set (vacant_of_nonpos le_rfl)

/-! ## One step -/

theorem Owned.construct (h : s.Owned)
    (hvacant : s.Vacant (fun k => s.live k = true) descriptor) : (s.construct i descriptor).Owned := by
  have hlive : ∀ k, Function.update s.live i true k = true ∧ k ≠ i → s.live k = true := by
    rintro k ⟨hk, hne⟩
    rwa [Function.update_of_ne hne] at hk
  have hset : (s.set i descriptor).OwnedBy fun k => Function.update s.live i true k = true :=
    (h.mono hlive).set fun hpos => ⟨(hvacant hpos).1, fun k hk => (hvacant hpos).2 k (hlive k hk)⟩
  exact ⟨hset.apart, hset.isOpen, hset.closes⟩

theorem Owned.set (h : s.Owned) (hdescriptor : descriptor ≤ 0) : (s.set i descriptor).Owned := by
  have hrest : s.OwnedBy fun k => s.live k = true ∧ k ≠ i := OwnedBy.mono h fun _ hk => hk.1
  exact OwnedBy.set hrest (vacant_of_nonpos hdescriptor)

/-- A new descriptor is stored; what the object held before is forgotten, not closed. -/
theorem Owned.adopt (h : s.Owned) (hnew : s.isOpen descriptor = false) :
    ((s.opened descriptor).set i descriptor).Owned := by
  have hrest : s.OwnedBy fun k => s.live k = true ∧ k ≠ i := OwnedBy.mono h fun _ hk => hk.1
  obtain ⟨howned, hvacant⟩ := hrest.opened hnew
  exact OwnedBy.set howned hvacant

theorem Owned.create (h : s.Owned) {creation : Creation} (hsystem : s.HandsOut creation.socket) :
    (s.create i creation).2.Owned := by
  unfold Sockets.create
  split
  · exact h.set (by decide)
  · next fd hfd =>
      have hadopt : ((s.opened fd).set i fd).Owned := h.adopt (hsystem fd hfd).2
      dsimp only
      split
      · exact hadopt
      · split
        · exact hadopt
        · exact hadopt

theorem Owned.moveConstruct (h : s.Owned) (hi : s.live i = false) (hj : s.live j = true) :
    (s.moveConstruct i j).Owned := by
  have hij : j ≠ i := by
    rintro rfl
    rw [hi] at hj
    cases hj
  have hrest : s.OwnedBy fun k => Function.update s.live i true k = true ∧ k ≠ i := by
    refine h.mono ?_
    rintro k ⟨hk, hne⟩
    rwa [Function.update_of_ne hne] at hk
  have htake := hrest.takeFrom (by rwa [Function.update_of_ne hij]) hij
  exact ⟨htake.apart, htake.isOpen, htake.closes⟩

theorem Owned.moveAssign (h : s.Owned) (hi : s.live i = true) (hj : s.live j = true) :
    (s.moveAssign i j).Owned := by
  have hlive : (s.destruct i).live = s.live := by
    unfold Sockets.destruct
    split <;> rfl
  have hrest : (s.destruct i).OwnedBy fun k => (s.destruct i).live k = true ∧ k ≠ i := by
    rw [hlive]
    exact OwnedBy.destruct h hi
  by_cases hij : j = i
  · -- the object is left with 0
    have hself : (s.destruct i).takeFrom i i = (s.destruct i).set i 0 := by
      unfold takeFrom Sockets.set
      rw [Function.update_idem]
    rw [hij, Sockets.moveAssign, hself]
    exact OwnedBy.set hrest (vacant_of_nonpos le_rfl)
  · have hj : (s.destruct i).live j = true := by rwa [hlive]
    exact OwnedBy.takeFrom hrest hj hij

theorem Owned.destroy (h : s.Owned) (hi : s.live i = true) : (s.destroy i).Owned := by
  have hrest := OwnedBy.destruct h hi
  have hlive : ∀ k, Function.update s.live i false k = true → s.live k = true ∧ k ≠ i := by
    intro k hk
    have hne : k ≠ i := by
      rintro rfl
      rw [Function.update_self] at hk
      cases hk
    rw [Function.update_of_ne hne] at hk
    exact ⟨hk, hne⟩
  have hmono := hrest.mono hlive
  exact ⟨hmono.apart, hmono.isOpen, hmono.closes⟩

theorem Owned.accept (h : s.Owned) {socket result : Nat} {acceptance : Acceptance}
    (hresult : s.live result = false) (hne : result ≠ socket)
    (hsystem : s.HandsOut acceptance.accepted) : (s.accept socket result acceptance).2.Owned := by
  unfold Sockets.accept
  have hlocal : (s.construct socket 0).Owned := h.construct (vacant_of_nonpos le_rfl)
  split
  · exact h
  · exact h
  · dsimp only
    split
    · exact (hlocal.set (by decide)).destroy (Function.update_self _ _ _)
    · next fd hfd =>
        have hadopt := hlocal.adopt (i := socket) (hsystem fd hfd).2
        have hmove := hadopt.moveConstruct (i := result) (j := socket)
          ((Function.update_of_ne hne _ _).trans hresult) (Function.update_self _ _ _)
        exact hmove.destroy ((Function.update_of_ne hne.symm _ _).trans (Function.update_self _ _ _))

/-- An object that is default-constructed holds what its storage held. -/
theorem owned_construct_iff (h : s.Owned) (hi : s.live i = false) :
    (s.construct i descriptor).Owned ↔ s.Vacant (fun k => s.live k = true) descriptor := by
  refine ⟨fun howned hpos => ?_, h.construct⟩
  have hself : (s.construct i descriptor).live i = true ∧ (s.construct i descriptor).socket i = descriptor :=
    ⟨Function.update_self _ _ _, Function.update_self _ _ _⟩
  refine ⟨?_, fun k hk heq => ?_⟩
  · have hopen := howned.isOpen i hself.1 (by rwa [hself.2])
    rwa [hself.2] at hopen
  · have hk : s.live k = true := hk
    have hne : k ≠ i := by
      rintro rfl
      rw [hi] at hk
      cases hk
    have hk : (s.construct i descriptor).live k = true := (Function.update_of_ne hne _ _).trans hk
    have heq : (s.construct i descriptor).socket k = descriptor := (Function.update_of_ne hne _ _).trans heq
    exact hne (howned.apart i k hself.1 hk (by rwa [hself.2]) (hself.2.trans heq.symm)).symm

theorem owned_step {action : Action} (h : s.Owned) (hstep : s.step action = some t) :
    t.Owned ↔ s.Harmless action := by
  cases action with
  | construct i found =>
      obtain ⟨hi, heq⟩ := Option.ite_none_right_eq_some.mp hstep
      obtain rfl := Option.some.inj heq
      exact owned_construct_iff h hi
  | create i creation =>
      obtain ⟨hguard, heq⟩ := Option.ite_none_right_eq_some.mp hstep
      obtain rfl := Option.some.inj heq
      exact iff_of_true (h.create hguard.2) trivial
  | accept i socket result acceptance =>
      obtain ⟨⟨-, -, hresult, hne, hsystem⟩, heq⟩ := Option.ite_none_right_eq_some.mp hstep
      obtain rfl := Option.some.inj heq
      exact iff_of_true (h.accept hresult hne hsystem) trivial
  | moveConstruct i j =>
      obtain ⟨⟨hi, hj⟩, heq⟩ := Option.ite_none_right_eq_some.mp hstep
      obtain rfl := Option.some.inj heq
      exact iff_of_true (h.moveConstruct hi hj) trivial
  | moveAssign i j =>
      obtain ⟨⟨hi, hj⟩, heq⟩ := Option.ite_none_right_eq_some.mp hstep
      obtain rfl := Option.some.inj heq
      exact iff_of_true (h.moveAssign hi hj) trivial
  | destroy i =>
      obtain ⟨hi, heq⟩ := Option.ite_none_right_eq_some.mp hstep
      obtain rfl := Option.some.inj heq
      exact iff_of_true (h.destroy hi) trivial

/-! ## Runs -/

/-- **When the sockets own their descriptors.** Whatever descriptors are open at first, a run passes
only through states in which no descriptor is in two live objects, all of them are open, and only open
ones were closed, exactly if no object is default-constructed over storage that holds the number of a
descriptor, unless that one is open and in no live object. -/
theorem owned_iff (isOpen : Int → Bool) {actions : List Action} (h : run step (start isOpen) actions = some t) :
    (∀ before s, before <+: actions → run step (start isOpen) before = some s → s.Owned) ↔
      Along step Harmless (start isOpen) actions := by
  have hstart : (start isOpen).Owned := by
    refine ⟨fun i j hi => ?_, fun i hi => ?_, fun c hc => ?_⟩
    · exact Bool.noConfusion hi
    · exact Bool.noConfusion hi
    · cases hc
  exact good_throughout_iff (fun _ _ _ _ _ => trivial) (fun _ _ _ _ hs hstep => owned_step hs hstep)
    trivial hstart h

/-- A server socket accepts a connection, which is moved and assigned to itself. -/
def served : List Action :=
  [.construct 0 0, .create 0 ⟨some 3, true, true⟩, .accept 0 1 2 ⟨some true, some 4⟩, .moveConstruct 5 2,
    .moveAssign 5 5, .destroy 5, .destroy 2, .destroy 0]

theorem owned_served : ∃ t, run step (start fun _ => false) served = some t ∧ t.Owned := by
  obtain ⟨t, hrun⟩ : ∃ t, run step (start fun _ => false) served = some t := ⟨_, rfl⟩
  have hharmless : Along step Harmless (start fun _ => false) served :=
    ⟨vacant_of_nonpos le_rfl, fun _ _ => ⟨trivial, fun _ _ => ⟨trivial, fun _ _ => ⟨trivial, fun _ _ =>
      ⟨trivial, fun _ _ => ⟨trivial, fun _ _ => ⟨trivial, fun _ _ => ⟨trivial, fun _ _ => trivial⟩⟩⟩⟩⟩⟩⟩⟩
  exact ⟨t, hrun, (owned_iff _ hrun).mpr hharmless served t List.prefix_rfl hrun⟩

/-- `Socket socket;` over storage that holds 3, while another object holds the descriptor 3. -/
def stray : List Action :=
  [.construct 0 0, .create 0 ⟨some 3, true, true⟩, .construct 1 3, .destroy 1, .destroy 0]

/-- The descriptor is closed under its owner, which then closes it once more. -/
theorem not_owned_stray : ∃ t, run step (start fun _ => false) stray = some t ∧
    t.closes = [⟨3, false⟩, ⟨3, true⟩] ∧ ¬ t.Owned := by
  refine ⟨_, rfl, by decide, fun h => ?_⟩
  have hopen := h.closes ⟨3, false⟩ (by decide)
  cases hopen

end Sockets

end Fipper
