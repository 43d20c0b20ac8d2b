import Fipper.Lib.Observation
import Fipper.Lib.Sequence
import Fipper.Server.Exchange
import Mathlib.Data.Fin.VecNotation
import Mathlib.Data.List.FinRange

/-!
# The parameters of a request, by name

The `Request` objects of one type `Request<Body, Params...>` in a program, each under its address, which another
may get when it is destroyed. `markRuntimeReady` stores the addresses of the parameters, which a copy of the
request takes over as they are; what is read through them is in whatever request is there by then.

* `setParamNames`, `markRuntimeReady`, `setParams`, `getParam` : the members that touch the parameters;
* `read` : what is read by name, through the address;
* `origins` : where the parameters are that a request has the addresses of, by the actions that made it;
* `read_origin` : what is read in any state reached;
* `selfContained_iff` : the runs in which no request has the addresses of another's parameters;
* `read_handed` : what a callback reads is what the parameters were extracted to.
-/

namespace Fipper

open Lib

variable {n : Nat} {V T B : Type}

/-- `const void *` : the address of a request, and the place of a parameter in its `m_params`. -/
structure ParamAddress (n : Nat) where
  request : Nat
  index : Fin n
  deriving DecidableEq, Repr

/-- `fp::Request<Body, Params...>`, what concerns its `n` parameters. -/
structure RequestObject (n : Nat) (V : Type) where
  namesOfParams : Fin n → Str × Option (ParamAddress n)
  params : Fin n → V

namespace RequestObject

/-- `Request request {};` -/
def init (defaults : Fin n → V) : RequestObject n V := ⟨fun _ => ([], none), defaults⟩

def setParamNames (request : RequestObject n V) (names : Fin n → Str) : RequestObject n V :=
  { request with namesOfParams := fun index => (names index, (request.namesOfParams index).2) }

/-- `this` is the address of the request. -/
def markRuntimeReady (request : RequestObject n V) (this : Nat) : RequestObject n V :=
  { request with namesOfParams := fun index => ((request.namesOfParams index).1, some ⟨this, index⟩) }

def setParams (request : RequestObject n V) (params : Fin n → V) : RequestObject n V :=
  { request with params := params }

/-- The first parameter of that name. -/
def place (request : RequestObject n V) (name : Str) : Option (Fin n) :=
  (List.finRange n).find? fun index => (request.namesOfParams index).1 == name

/-- `getParam<T> (name)` : `none` stands for `std::nullopt`, and `some none` for the null pointer. -/
def getParam (request : RequestObject n V) (name : Str) : Option (Option (ParamAddress n)) :=
  (request.place name).map fun index => (request.namesOfParams index).2

/-- The addresses are those of the parameters of `origin`, or all null. -/
def AddressesOf (request : RequestObject n V) (origin : Option Nat) : Prop :=
  ∀ index, (request.namesOfParams index).2 = origin.map fun j => ⟨j, index⟩

/-- The addresses are those of the parameters of `this`, or null. -/
def OwnedBy (request : RequestObject n V) (this : Nat) : Prop :=
  ∀ index, ∀ address ∈ (request.namesOfParams index).2, address = ⟨this, index⟩

/-- No address is set. -/
def Unmarked (request : RequestObject n V) : Prop := ∀ index, (request.namesOfParams index).2 = none

end RequestObject

/-- The requests that live, by their addresses. -/
structure Requests (n : Nat) (V : Type) where
  request : Nat → Option (RequestObject n V)

/-- What is done with the requests. A copy, into a new request or by assignment, may be a move; `left` is
then what it leaves in the parameters of the other. `write` is an assignment to the reference that
`getParam<index> ()` returns. -/
inductive RequestAction (n : Nat) (V : Type)
  | construct (i : Nat)
  | setParamNames (i : Nat) (names : Fin n → Str)
  | markRuntimeReady (i : Nat)
  | setParams (i : Nat) (params : Fin n → V)
  | write (i : Nat) (index : Fin n) (param : V)
  | copy (i j : Nat) (left : Option (Fin n → V))
  | assign (i j : Nat) (left : Option (Fin n → V))
  | destroy (i : Nat)

/-- The action may change request `i`. -/
def RequestAction.changes (i : Nat) : RequestAction n V → Bool
  | .construct j => i = j
  | .setParamNames j _ => i = j
  | .markRuntimeReady j => i = j
  | .setParams j _ => i = j
  | .write j _ _ => i = j
  | .copy j k left => i = j || (i = k && left.isSome)
  | .assign j k left => i = j || (i = k && left.isSome)
  | .destroy j => i = j

namespace Requests

def start : Requests n V := ⟨fun _ => none⟩

def set (s : Requests n V) (i : Nat) (request : RequestObject n V) : Requests n V :=
  ⟨Function.update s.request i (some request)⟩

def remove (s : Requests n V) (i : Nat) : Requests n V := ⟨Function.update s.request i none⟩

/-- Request `i` becomes what request `j` is, of which a move leaves `left`. -/
def takeFrom (s : Requests n V) (i j : Nat) (request : RequestObject n V) (left : Option (Fin n → V)) :
    Requests n V :=
  match left with
  | none => s.set i request
  | some left => (s.set i request).set j (request.setParams left)

def step (defaults : Fin n → V) (s : Requests n V) : RequestAction n V → Option (Requests n V)
  | .construct i => if s.request i = none then some (s.set i (.init defaults)) else none
  | .setParamNames i names => (s.request i).map fun request => s.set i (request.setParamNames names)
  | .markRuntimeReady i => (s.request i).map fun request => s.set i (request.markRuntimeReady i)
  | .setParams i params => (s.request i).map fun request => s.set i (request.setParams params)
  | .write i index param =>
      (s.request i).map fun request => s.set i (request.setParams (Function.update request.params index param))
  | .copy i j left =>
      if s.request i = none then (s.request j).map fun request => s.takeFrom i j request left else none
  | .assign i j left =>
      if (s.request i).isSome then (s.request j).map fun request => s.takeFrom i j request left else none
  | .destroy i => if (s.request i).isSome then some (s.remove i) else none

/-- `*getParam<T> (name)` of request `i`, with `type` for `T`: a request has to be where `T const *` points to,
and the parameter of that type. It need not be the request that was there when the address was stored. -/
def read [DecidableEq T] (s : Requests n V) (types : Fin n → T) (i : Nat) (type : T) (name : Str) :
    Except Fault (Option V) :=
  match s.request i with
  | none => .error .undefined
  | some request =>
      match request.getParam name with
      | none => .ok none
      | some none => .error .undefined
      | some (some address) =>
          match s.request address.request with
          | none => .error .undefined
          | some pointed =>
              if types address.index = type then .ok (some (pointed.params address.index))
              else .error .undefined

/-- What `Endpoint::handleRequest` does with its request before the body and the callback. -/
def gotReady (i : Nat) (names : Fin n → Str) (params : Fin n → V) : List (RequestAction n V) :=
  [.construct i, .setParamNames i names, .markRuntimeReady i, .setParams i params]

/-! ## Whose parameters -/

/-- Where the parameters are that a request has the addresses of, if they are set. -/
def originStep (origins : Nat → Option Nat) : RequestAction n V → Nat → Option Nat
  | .construct i => Function.update origins i none
  | .markRuntimeReady i => Function.update origins i (some i)
  | .copy i j _ => Function.update origins i (origins j)
  | .assign i j _ => Function.update origins i (origins j)
  | _ => origins

def origins (actions : List (RequestAction n V)) : Nat → Option Nat :=
  actions.foldl originStep fun _ => none

/-- Every request has the addresses that its origin says. -/
def Traced (s : Requests n V) (origins : Nat → Option Nat) : Prop :=
  ∀ i request, s.request i = some request → request.AddressesOf (origins i)

variable {s t : Requests n V} {i j : Nat} {request : RequestObject n V} {origins' : Nat → Option Nat}
  {defaults : Fin n → V} {left : Option (Fin n → V)}

@[simp] theorem request_set_self (s : Requests n V) (i : Nat) (request : RequestObject n V) :
    (s.set i request).request i = some request := Function.update_self _ _ _

theorem request_set_of_ne (s : Requests n V) (request : RequestObject n V) (h : j ≠ i) :
    (s.set i request).request j = s.request j := Function.update_of_ne h _ _

theorem request_set_cases {other : RequestObject n V} (h : (s.set i request).request j = some other) :
    j = i ∧ other = request ∨ j ≠ i ∧ s.request j = some other := by
  by_cases hji : j = i
  · rw [hji, request_set_self] at h
    exact .inl ⟨hji, (Option.some.inj h).symm⟩
  · rw [request_set_of_ne s request hji] at h
    exact .inr ⟨hji, h⟩

theorem request_of_remove {other : RequestObject n V} (h : (s.remove i).request j = some other) :
    j ≠ i ∧ s.request j = some other := by
  have h : Function.update s.request i none j = some other := h
  by_cases hji : j = i
  · rw [hji, Function.update_self] at h
    cases h
  · rw [Function.update_of_ne hji] at h
    exact ⟨hji, h⟩

theorem Traced.set {origin : Option Nat} (h : s.Traced origins') (horigin : request.AddressesOf origin) :
    (s.set i request).Traced (Function.update origins' i origin) := by
  intro k other hother
  rcases request_set_cases hother with ⟨rfl, rfl⟩ | ⟨hne, hother⟩
  · rwa [Function.update_self]
  · rw [Function.update_of_ne hne]
    exact h k other hother

theorem Traced.takeFrom (h : s.Traced origins') (hj : s.request j = some request) :
    (s.takeFrom i j request left).Traced (Function.update origins' i (origins' j)) := by
  have hset : (s.set i request).Traced (Function.update origins' i (origins' j)) := h.set (h j request hj)
  unfold Requests.takeFrom
  split
  · exact hset
  · next left =>
      -- what is moved from keeps its addresses
      have hself : Function.update origins' i (origins' j) j = origins' j := by
        by_cases hji : j = i
        · rw [hji, Function.update_self]
        · rw [Function.update_of_ne hji]
      have hleft : (request.setParams left).AddressesOf (Function.update origins' i (origins' j) j) := by
        rw [hself]
        exact h j request hj
      have hmoved := hset.set (i := j) hleft
      rwa [Function.update_eq_self] at hmoved

theorem Traced.keep (h : s.Traced origins') {changed : RequestObject n V} (hi : s.request i = some request)
    (hsame : ∀ index, (changed.namesOfParams index).2 = (request.namesOfParams index).2) :
    (s.set i changed).Traced origins' := by
  have hchanged : changed.AddressesOf (origins' i) := fun index => (hsame index).trans (h i request hi index)
  have hset := h.set (i := i) hchanged
  rwa [Function.update_eq_self] at hset

theorem traced_step {action : RequestAction n V} (h : s.Traced origins')
    (hstep : s.step defaults action = some t) : t.Traced (originStep origins' action) := by
  cases action with
  | construct i =>
      obtain ⟨-, heq⟩ := Option.ite_none_right_eq_some.mp hstep
      obtain rfl := Option.some.inj heq
      exact h.set fun _ => rfl
  | setParamNames i names =>
      obtain ⟨request, hi, rfl⟩ := Option.map_eq_some_iff.mp hstep
      exact h.keep hi fun _ => rfl
  | markRuntimeReady i =>
      obtain ⟨request, hi, rfl⟩ := Option.map_eq_some_iff.mp hstep
      exact h.set fun _ => rfl
  | setParams i params =>
      obtain ⟨request, hi, rfl⟩ := Option.map_eq_some_iff.mp hstep
      exact h.keep hi fun _ => rfl
  | write i index param =>
      obtain ⟨request, hi, rfl⟩ := Option.map_eq_some_iff.mp hstep
      exact h.keep hi fun _ => rfl
  | copy i j left =>
      obtain ⟨-, hmap⟩ := Option.ite_none_right_eq_some.mp hstep
      obtain ⟨request, hj, rfl⟩ := Option.map_eq_some_iff.mp hmap
      exact h.takeFrom hj
  | assign i j left =>
      obtain ⟨-, hmap⟩ := Option.ite_none_right_eq_some.mp hstep
      obtain ⟨request, hj, rfl⟩ := Option.map_eq_some_iff.mp hmap
      exact h.takeFrom hj
  | destroy i =>
      obtain ⟨-, heq⟩ := Option.ite_none_right_eq_some.mp hstep
      obtain rfl := Option.some.inj heq
      exact fun k other hother => h k other (request_of_remove hother).2

/-! ## What is read by name -/

theorem getParam_of_addressesOf {origin : Option Nat} (h : request.AddressesOf origin) (name : Str) :
    request.getParam name = (request.place name).map fun index => origin.map fun j => ⟨j, index⟩ := by
  unfold RequestObject.getParam
  cases request.place name with
  | none => rfl
  | some index => exact congrArg some (h index)

theorem read_of_traced [DecidableEq T] (h : s.Traced origins') (hi : s.request i = some request)
    (types : Fin n → T) (type : T) (name : Str) :
    s.read types i type name =
      match request.place name, (origins' i).bind s.request with
      | none, _ => .ok none
      | some _, none => .error .undefined
      | some index, some origin =>
          if types index = type then .ok (some (origin.params index)) else .error .undefined := by
  unfold Requests.read
  rw [hi]
  dsimp only
  rw [getParam_of_addressesOf (h i request hi) name]
  cases request.place name with
  | none => rfl
  | some index =>
      cases origins' i with
      | none => rfl
      | some j =>
          rw [Option.bind_some]
          dsimp only [Option.map_some]
          cases s.request j with
          | none => rfl
          | some origin => rfl

/-- **Read by name, read from the origin.** After any run of constructions, copies, moves, assignments and
destructions of requests, a name leads to the parameter at the first place where the request itself has
that name, in the request that is now at the address where `markRuntimeReady` set the addresses that were copied
from one request to the next since. What is read is the value the parameter has there now; nothing can be read if
it is of another type, if no request is at that address, or if none was ever set. -/
theorem read_origin [DecidableEq T] (types : Fin n → T) {actions : List (RequestAction n V)}
    (h : run (step defaults) start actions = some t) (hi : t.request i = some request) (type : T) (name : Str) :
    t.read types i type name =
      match request.place name, (origins actions i).bind t.request with
      | none, _ => .ok none
      | some _, none => .error .undefined
      | some index, some origin =>
          if types index = type then .ok (some (origin.params index)) else .error .undefined := by
  have hstart : (start : Requests n V).Traced fun _ => none := by
    intro k other hother
    cases hother
  have htraced : t.Traced (origins actions) :=
    run_foldl (fun _ _ _ _ hs hstep => traced_step hs hstep) hstart h
  exact read_of_traced htraced hi types type name

/-- The parameters of a route "/\x7bid:int\x7d/\x7bname\x7d". -/
def idAndName : Fin 2 → Str := !["id".toList, "name".toList]

def intAndString : Fin 2 → Str := !["int".toList, "std::string".toList]

def zeroAndEmpty : Fin 2 → Int ⊕ Str := ![.inl 0, .inr []]

def sevenAndAda : Fin 2 → Int ⊕ Str := ![.inl 7, .inr "Ada".toList]

/-- A request is copied, and the first is changed. -/
def copied : List (RequestAction 2 (Int ⊕ Str)) :=
  gotReady 0 idAndName sevenAndAda ++ [.copy 1 0 none, .write 0 1 (.inr "Eve".toList)]

/-- The first is destroyed, and another request gets its address. -/
def replaced : List (RequestAction 2 (Int ⊕ Str)) :=
  copied ++ .destroy 0 :: gotReady 0 idAndName ![.inl 9, .inr "Bob".toList]

/-- The copy reads what the first request was changed to, nothing when that is destroyed, and then what the other
has in its place. -/
theorem read_origin_copied :
    (∃ t, run (step zeroAndEmpty) start copied = some t ∧
      t.read intAndString 1 "std::string".toList "name".toList = .ok (some (.inr "Eve".toList))) ∧
    (∃ t, run (step zeroAndEmpty) start (copied ++ [.destroy 0]) = some t ∧
      t.read intAndString 1 "std::string".toList "name".toList = .error .undefined) ∧
    ∃ t, run (step zeroAndEmpty) start replaced = some t ∧
      t.read intAndString 1 "std::string".toList "name".toList = .ok (some (.inr "Bob".toList)) := by
  have hcopied : run (step zeroAndEmpty) start copied = some _ := rfl
  have hdestroyed : run (step zeroAndEmpty) start (copied ++ [.destroy 0]) = some _ := rfl
  have hreplaced : run (step zeroAndEmpty) start replaced = some _ := rfl
  exact ⟨⟨_, hcopied, (read_origin intAndString hcopied rfl _ _).trans rfl⟩,
    ⟨_, hdestroyed, (read_origin intAndString hdestroyed rfl _ _).trans rfl⟩,
    ⟨_, hreplaced, (read_origin intAndString hreplaced rfl _ _).trans rfl⟩⟩

/-! ## Requests that have their own addresses -/

/-- No request has the address of a parameter of another. -/
def SelfContained (s : Requests n V) : Prop := ∀ i request, s.request i = some request → request.OwnedBy i

/-- No addresses are copied into another request. -/
def Harmless (s : Requests n V) : RequestAction n V → Prop
  | .copy _ j _ => ∀ request ∈ s.request j, request.Unmarked
  | .assign i j _ => i ≠ j → ∀ request ∈ s.request j, request.Unmarked
  | _ => True

theorem ownedBy_iff_unmarked (h : request.OwnedBy j) (hij : i ≠ j) : request.OwnedBy i ↔ request.Unmarked := by
  constructor
  · intro howned index
    cases haddress : (request.namesOfParams index).2 with
    | none => rfl
    | some address =>
        have hi : address = ⟨i, index⟩ := howned index address haddress
        have hj : address = ⟨j, index⟩ := h index address haddress
        exact absurd (congrArg ParamAddress.request (hi.symm.trans hj)) hij
  · intro hunmarked index address haddress
    rw [hunmarked index] at haddress
    cases haddress

theorem selfContained_set_iff (h : s.SelfContained) : (s.set i request).SelfContained ↔ request.OwnedBy i := by
  constructor
  · exact fun hset => hset i request (request_set_self s i request)
  · intro howned k other hother
    rcases request_set_cases hother with ⟨rfl, rfl⟩ | ⟨-, hother⟩
    · exact howned
    · exact h k other hother

theorem selfContained_takeFrom_iff (h : s.SelfContained) (hj : s.request j = some request) :
    (s.takeFrom i j request left).SelfContained ↔ request.OwnedBy i := by
  rw [← selfContained_set_iff h]
  unfold Requests.takeFrom
  split
  · rfl
  · next left =>
      have hown : (request.setParams left).OwnedBy j := h j request hj
      constructor
      · intro hmoved
        rw [selfContained_set_iff h]
        by_cases hij : i = j
        · exact hij ▸ h j request hj
        · exact hmoved i request ((request_set_of_ne _ _ hij).trans (request_set_self s i request))
      · exact fun hset => (selfContained_set_iff hset).mpr hown

theorem selfContained_step {action : RequestAction n V} (h : s.SelfContained)
    (hstep : s.step defaults action = some t) : t.SelfContained ↔ s.Harmless action := by
  cases action with
  | construct i =>
      obtain ⟨-, heq⟩ := Option.ite_none_right_eq_some.mp hstep
      obtain rfl := Option.some.inj heq
      refine iff_of_true ((selfContained_set_iff h).mpr fun index address haddress => ?_) trivial
      cases haddress
  | setParamNames i names =>
      obtain ⟨request, hi, rfl⟩ := Option.map_eq_some_iff.mp hstep
      exact iff_of_true ((selfContained_set_iff h).mpr (h i request hi)) trivial
  | markRuntimeReady i =>
      obtain ⟨request, hi, rfl⟩ := Option.map_eq_some_iff.mp hstep
      refine iff_of_true ((selfContained_set_iff h).mpr fun index address haddress => ?_) trivial
      exact (Option.some.inj haddress).symm
  | setParams i params =>
      obtain ⟨request, hi, rfl⟩ := Option.map_eq_some_iff.mp hstep
      exact iff_of_true ((selfContained_set_iff h).mpr (h i request hi)) trivial
  | write i index param =>
      obtain ⟨request, hi, rfl⟩ := Option.map_eq_some_iff.mp hstep
      exact iff_of_true ((selfContained_set_iff h).mpr (h i request hi)) trivial
  | copy i j left =>
      obtain ⟨hi, hmap⟩ := Option.ite_none_right_eq_some.mp hstep
      obtain ⟨request, hj, rfl⟩ := Option.map_eq_some_iff.mp hmap
      have hij : i ≠ j := by
        rintro rfl
        rw [hi] at hj
        cases hj
      show _ ↔ ∀ other ∈ s.request j, other.Unmarked
      rw [selfContained_takeFrom_iff h hj, ownedBy_iff_unmarked (h j request hj) hij, hj]
      exact ⟨fun hunmarked other hother => Option.some.inj hother ▸ hunmarked, fun hall => hall request rfl⟩
  | assign i j left =>
      obtain ⟨-, hmap⟩ := Option.ite_none_right_eq_some.mp hstep
      obtain ⟨request, hj, rfl⟩ := Option.map_eq_some_iff.mp hmap
      show _ ↔ (i ≠ j → ∀ other ∈ s.request j, other.Unmarked)
      rw [selfContained_takeFrom_iff h hj, hj]
      by_cases hij : i = j
      · exact iff_of_true (hij ▸ h j request hj) fun hne => absurd hij hne
      · rw [ownedBy_iff_unmarked (h j request hj) hij]
        exact ⟨fun hunmarked _ other hother => Option.some.inj hother ▸ hunmarked,
          fun hall => hall hij request rfl⟩
  | destroy i =>
      obtain ⟨-, heq⟩ := Option.ite_none_right_eq_some.mp hstep
      obtain rfl := Option.some.inj heq
      exact iff_of_true (fun k other hother => h k other (request_of_remove hother).2) trivial

/-- **When a request has only its own addresses.** A run passes only through states in which no request
has the address of a parameter of another exactly if nothing is copied, moved or assigned to another
request from one whose addresses are set. -/
theorem selfContained_iff (defaults : Fin n → V) {actions : List (RequestAction n V)}
    (h : run (step defaults) start actions = some t) :
    (∀ before s, before <+: actions → run (step defaults) start before = some s → s.SelfContained) ↔
      Along (step defaults) Harmless start actions := by
  have hstart : (start : Requests n V).SelfContained := by
    intro i request hi
    cases hi
  exact good_throughout_iff (fun _ _ _ _ _ => trivial) (fun _ _ _ _ hs hstep => selfContained_step hs hstep)
    trivial hstart h

/-- A request is copied before it is marked. -/
def copiedUnmarked : List (RequestAction 2 (Int ⊕ Str)) :=
  [.construct 0, .setParamNames 0 idAndName, .copy 1 0 none, .markRuntimeReady 1]

theorem selfContained_copiedUnmarked :
    ∃ t, run (step zeroAndEmpty) start copiedUnmarked = some t ∧ t.SelfContained := by
  have hrun : run (step zeroAndEmpty) start copiedUnmarked = some _ := rfl
  refine ⟨_, hrun, (selfContained_iff zeroAndEmpty hrun).mpr ?_ copiedUnmarked _ List.prefix_rfl hrun⟩
  refine ⟨trivial, fun s hs => ⟨trivial, fun t ht => ⟨?_, fun _ _ => ⟨trivial, fun _ _ => trivial⟩⟩⟩⟩
  obtain rfl := Option.some.inj hs
  obtain rfl := Option.some.inj ht
  intro request hrequest index
  obtain rfl := Option.some.inj hrequest
  rfl

/-! ## What a callback reads -/

theorem takeFrom_of_not_changes {k : Nat} (hk : (k = i || (k = j && left.isSome)) = false) :
    (s.takeFrom i j request left).request k = s.request k := by
  rw [Bool.or_eq_false_iff] at hk
  have hki : k ≠ i := of_decide_eq_false hk.1
  unfold Requests.takeFrom
  split
  · exact request_set_of_ne s request hki
  · next left =>
      have hkj : k ≠ j := by simpa using hk.2
      rw [request_set_of_ne _ _ hkj, request_set_of_ne s request hki]

theorem request_of_not_changes {action : RequestAction n V} (hi : action.changes i = false)
    (hstep : s.step defaults action = some t) : t.request i = s.request i := by
  cases action with
  | construct j =>
      obtain ⟨-, heq⟩ := Option.ite_none_right_eq_some.mp hstep
      obtain rfl := Option.some.inj heq
      exact request_set_of_ne s _ (of_decide_eq_false hi)
  | setParamNames j names =>
      obtain ⟨request, -, rfl⟩ := Option.map_eq_some_iff.mp hstep
      exact request_set_of_ne s _ (of_decide_eq_false hi)
  | markRuntimeReady j =>
      obtain ⟨request, -, rfl⟩ := Option.map_eq_some_iff.mp hstep
      exact request_set_of_ne s _ (of_decide_eq_false hi)
  | setParams j params =>
      obtain ⟨request, -, rfl⟩ := Option.map_eq_some_iff.mp hstep
      exact request_set_of_ne s _ (of_decide_eq_false hi)
  | write j index param =>
      obtain ⟨request, -, rfl⟩ := Option.map_eq_some_iff.mp hstep
      exact request_set_of_ne s _ (of_decide_eq_false hi)
  | copy j k left =>
      obtain ⟨-, hmap⟩ := Option.ite_none_right_eq_some.mp hstep
      obtain ⟨request, -, rfl⟩ := Option.map_eq_some_iff.mp hmap
      exact takeFrom_of_not_changes hi
  | assign j k left =>
      obtain ⟨-, hmap⟩ := Option.ite_none_right_eq_some.mp hstep
      obtain ⟨request, -, rfl⟩ := Option.map_eq_some_iff.mp hmap
      exact takeFrom_of_not_changes hi
  | destroy j =>
      obtain ⟨-, heq⟩ := Option.ite_none_right_eq_some.mp hstep
      obtain rfl := Option.some.inj heq
      exact Function.update_of_ne (of_decide_eq_false hi) _ _

theorem request_of_run {actions : List (RequestAction n V)}
    (hi : ∀ action ∈ actions, action.changes i = false)
    (h : run (step defaults) s actions = some t) : t.request i = s.request i := by
  induction actions generalizing s with
  | nil =>
      rw [run_nil, Option.some.injEq] at h
      rw [h]
  | cons action actions ih =>
      obtain ⟨u, hu, h⟩ := run_cons_eq_some.mp h
      have hrest := ih (fun other hother => hi other (List.mem_cons_of_mem _ hother)) h
      rw [hrest, request_of_not_changes (hi action List.mem_cons_self) hu]

/-- The request after `gotReady`. -/
def handed (i : Nat) (names : Fin n → Str) (params : Fin n → V) : RequestObject n V :=
  ⟨fun index => (names index, some ⟨i, index⟩), params⟩

theorem run_gotReady {names : Fin n → Str} {params : Fin n → V}
    (h : run (step defaults) s (gotReady i names params) = some t) :
    t.request i = some (handed i names params) := by
  obtain ⟨u, hu, h⟩ := run_cons_eq_some.mp h
  obtain ⟨-, heq⟩ := Option.ite_none_right_eq_some.mp hu
  obtain rfl := Option.some.inj heq
  simp only [run_cons, run_nil, step, request_set_self, Option.map_some, Option.bind_some, Option.some.injEq] at h
  rw [← h, request_set_self]
  rfl

/-- The first place of a name, in what was zipped with the names. -/
theorem lookup_zip_ofFn {α : Type} (names : Fin n → Str) (f : Fin n → α) (name : Str) :
    ((List.ofFn names).zip (List.ofFn f)).lookup name =
      ((List.finRange n).find? fun index => names index == name).map f := by
  rw [List.ofFn_eq_map, List.ofFn_eq_map, List.zip_map', lookup_map]

theorem length_extractParam {E : Type} [RouteStringExtractor E V] {b : Buffers}
    {beginTemplate endTemplate beginInstance endInstance : Iterator} {extractors : List E} {values : List V}
    (h : extractParam b beginTemplate endTemplate beginInstance endInstance extractors = .ok (some values)) :
    values.length = extractors.length := by
  by_cases hone : extractors.length = 1
  swap
  · rw [extractParam_illFormed _ _ _ _ _ hone] at h
    cases h
  obtain ⟨extractor, rfl⟩ := List.length_eq_one_iff.mp hone
  rw [extractParam_single] at h
  obtain ⟨⟨it, str⟩, -, h⟩ := exists_of_bind_eq_ok h
  dsimp only at h
  split at h
  · cases h
  · next result _ =>
      obtain ⟨template, -, h⟩ := exists_of_bind_eq_ok h
      cases h
      rfl

/-- One name and one value for each parameter. -/
theorem length_params {E R : Type} [RouteStringExtractor E V] {endpoint : Endpoint E (Callback V B R)}
    {comesBack : Bool} {requestRoute : Str} {names : List Str} {values : List V}
    (h : endpoint.params comesBack requestRoute = .ok (some (some (names, values)))) :
    names.length = values.length := by
  unfold Endpoint.params at h
  split at h
  · cases h
  · next routeString _ =>
      obtain ⟨params, hparams, h⟩ := exists_of_bind_eq_ok h
      split at h
      · cases h
      · next params =>
          cases h
          obtain ⟨initial, -, hgenerated⟩ := routeString.constructed
          obtain ⟨hnames, hextractors⟩ := length_generateRouteString hgenerated
          rw [hnames, length_extractParam hparams, hextractors]

theorem read_of_handed [DecidableEq T] (types : Fin n → T) {names : Fin n → Str} {params : Fin n → V}
    (hi : s.request i = some (handed i names params)) (type : T) (name : Str) :
    s.read types i type name =
      match ((List.ofFn names).zip (List.ofFn params)).lookup name with
      | none => .ok none
      | some param =>
          if ((List.ofFn names).zip (List.ofFn types)).lookup name = some type then .ok (some param)
          else .error .undefined := by
  have haddresses : (handed i names params).AddressesOf (some i) := fun _ => rfl
  rw [lookup_zip_ofFn, lookup_zip_ofFn]
  unfold Requests.read
  rw [hi]
  dsimp only
  rw [getParam_of_addressesOf haddresses name]
  show _ = match ((handed i names params).place name).map params with
    | none => _
    | some param => if ((handed i names params).place name).map types = some type then _ else _
  cases (handed i names params).place name with
  | none => rfl
  | some index =>
      simp only [Option.map_some, hi, Option.some.injEq]
      rfl

/-- **What a callback reads.** `Endpoint::handleRequest` gets a request ready in a new object with what was
extracted from the route, whatever other requests there are. As long as nothing is done to that object but
reading and copying it, however other requests are made, copied, changed and destroyed meanwhile,
`getParam<T>` gives by each name the first value that was extracted under that name, if `T` is the type the
route has there, and `std::nullopt` for the names the route does not have. -/
theorem read_handed {E R : Type} [RouteStringExtractor E V] [DecidableEq T]
    {endpoint : Endpoint E (Callback V B R)} {comesBack : Bool} {requestRoute : Str} {names : List Str}
    {values : List V} (hparams : endpoint.params comesBack requestRoute = .ok (some (some (names, values))))
    (types : Fin values.length → T) {defaults : Fin values.length → V} {s t u : Requests values.length V}
    (hready : run (step defaults) s (gotReady i (fun index => names.getD index []) values.get) = some t)
    {later : List (RequestAction values.length V)} (hlater : ∀ action ∈ later, action.changes i = false)
    (hrun : run (step defaults) t later = some u) (type : T) (name : Str) :
    u.read types i type name =
      match (names.zip values).lookup name with
      | none => .ok none
      | some value =>
          if (names.zip (List.ofFn types)).lookup name = some type then .ok (some value)
          else .error .undefined := by
  have hnames : List.ofFn (fun index : Fin values.length => names.getD index []) = names := by
    apply List.ext_getElem
    · rw [List.length_ofFn, length_params hparams]
    · intro k hk hk'
      simp [hk']
  have hread := read_of_handed types ((request_of_run hlater hrun).trans (run_gotReady hready)) type name
  rwa [hnames, List.ofFn_get] at hread

/-- `/hello/Ada`; the callback copies the request, and the copy is destroyed. -/
theorem read_handed_hello : ∃ t u, run (step fun _ => []) start
      (gotReady 0 (fun index : Fin 1 => ["name".toList].getD index []) ["Ada".toList].get) = some t ∧
    run (step fun _ => []) t [.copy 1 0 none, .destroy 1] = some u ∧
    u.read (fun _ => "std::string".toList) 0 "std::string".toList "name".toList = .ok (some "Ada".toList) := by
  let t := (run (step fun _ => []) start
    (gotReady 0 (fun index : Fin 1 => ["name".toList].getD index []) ["Ada".toList].get)).getD start
  have hparams : sayHelloTo.params true "/hello/Ada".toList =
      .ok (some (some (["name".toList], ["Ada".toList]))) := by decide +kernel
  have hready : run (step fun _ => []) start
      (gotReady 0 (fun index : Fin 1 => ["name".toList].getD index []) ["Ada".toList].get) = some t := rfl
  have hrun : run (step fun _ => []) t [.copy 1 0 none, .destroy 1] = some _ := rfl
  exact ⟨t, _, hready, hrun, (read_handed hparams _ hready (by decide) hrun _ _).trans rfl⟩

end Requests

end Fipper
