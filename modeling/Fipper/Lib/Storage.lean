import Mathlib.Logic.Function.Basic
import Mathlib.Data.List.Basic

/-!
# Raw storage with object lifetimes, and circular indices

* `Storage T` : slots that hold a live object or nothing, with the log of every access and whether a
  live object was there; `construct`, `destroy`, `read`;
* `Storage.Clean n` : every access so far stayed inside the first `n` slots, read and destroyed only
  live objects and constructed only where none was live;
* `Storage.Defined inert` : every access so far has a defined effect: where no object lives, nothing was read,
  and a destructor was run only if it is `inert`, that is, does nothing there;
* `wrap n i` : an index that has run past the end of `n` slots once, brought back by one subtraction.
-/

namespace Fipper.Lib

inductive Access
  | construct
  | destroy
  | read
  deriving DecidableEq, Repr

/-- One access to a slot; `live` tells whether the slot held an object just before. -/
structure Event where
  access : Access
  slot : Nat
  live : Bool
  deriving DecidableEq, Repr

/-- What the lifetime rules ask of one access to storage of `n` slots. -/
def Event.Legal (n : Nat) (e : Event) : Prop :=
  e.slot < n ∧ (e.live = false ↔ e.access = .construct)

/-- The effect of the access is defined. To construct an object over another ends that one without its destructor,
which is allowed; `inert` says that a destructor does nothing where no object lives. -/
def Event.Defined (inert : Bool) (e : Event) : Prop :=
  e.live = true ∨ e.access = .construct ∨ (e.access = .destroy ∧ inert = true)

/-- Slots of raw memory, and the accesses made so far, the latest first. -/
structure Storage (T : Type*) where
  slots : Nat → Option T
  log : List Event

namespace Storage
variable {T : Type*}

/-- Memory in which no object lives. -/
def empty : Storage T := ⟨fun _ => none, []⟩

def construct (s : Storage T) (i : Nat) (value : T) : Storage T :=
  ⟨Function.update s.slots i (some value), ⟨.construct, i, (s.slots i).isSome⟩ :: s.log⟩

def destroy (s : Storage T) (i : Nat) : Storage T :=
  ⟨Function.update s.slots i none, ⟨.destroy, i, (s.slots i).isSome⟩ :: s.log⟩

/-- The effect of reading slot `i`; the value read is `s.slots i`. -/
def read (s : Storage T) (i : Nat) : Storage T :=
  ⟨s.slots, ⟨.read, i, (s.slots i).isSome⟩ :: s.log⟩

/-- New bytes in the place of the old: no object lives in them. -/
def raw (s : Storage T) : Storage T := ⟨fun _ => none, s.log⟩

def Clean (n : Nat) (s : Storage T) : Prop := ∀ e ∈ s.log, e.Legal n

def Defined (inert : Bool) (s : Storage T) : Prop := ∀ e ∈ s.log, e.Defined inert

@[simp] theorem slots_read (s : Storage T) (i : Nat) : (s.read i).slots = s.slots := rfl

@[simp] theorem slots_construct (s : Storage T) (i : Nat) (value : T) :
    (s.construct i value).slots = Function.update s.slots i (some value) := rfl

@[simp] theorem slots_destroy (s : Storage T) (i : Nat) :
    (s.destroy i).slots = Function.update s.slots i none := rfl

theorem suffix_construct (s : Storage T) (i : Nat) (value : T) : s.log <:+ (s.construct i value).log :=
  List.suffix_cons _ _

theorem suffix_destroy (s : Storage T) (i : Nat) : s.log <:+ (s.destroy i).log := List.suffix_cons _ _

theorem suffix_read (s : Storage T) (i : Nat) : s.log <:+ (s.read i).log := List.suffix_cons _ _

theorem clean_empty (n : Nat) : Clean n (empty : Storage T) := fun _ he => by simp [empty] at he

theorem Clean.construct {n : Nat} {s : Storage T} (h : s.Clean n) {i : Nat} (hi : i < n)
    (hdead : s.slots i = none) (value : T) : (s.construct i value).Clean n := by
  intro e he
  rcases List.mem_cons.mp he with rfl | he
  · exact ⟨hi, by simp [hdead]⟩
  · exact h e he

theorem Clean.destroy {n : Nat} {s : Storage T} (h : s.Clean n) {i : Nat} (hi : i < n)
    (hlive : (s.slots i).isSome) : (s.destroy i).Clean n := by
  intro e he
  rcases List.mem_cons.mp he with rfl | he
  · exact ⟨hi, by simp [hlive]⟩
  · exact h e he

theorem Clean.read {n : Nat} {s : Storage T} (h : s.Clean n) {i : Nat} (hi : i < n)
    (hlive : (s.slots i).isSome) : (s.read i).Clean n := by
  intro e he
  rcases List.mem_cons.mp he with rfl | he
  · exact ⟨hi, by simp [hlive]⟩
  · exact h e he

variable {inert : Bool} {s : Storage T} {i : Nat}

theorem defined_empty (inert : Bool) : Defined inert (empty : Storage T) := fun _ he => by simp [empty] at he

theorem Defined.construct (h : s.Defined inert) (i : Nat) (value : T) : (s.construct i value).Defined inert :=
  List.forall_mem_cons.mpr ⟨.inr (.inl rfl), h⟩

theorem Defined.destroy (h : s.Defined inert) (hi : (s.slots i).isSome ∨ inert = true) :
    (s.destroy i).Defined inert :=
  List.forall_mem_cons.mpr ⟨hi.imp id fun hinert => .inr ⟨rfl, hinert⟩, h⟩

theorem Defined.read (h : s.Defined inert) (hi : (s.slots i).isSome) : (s.read i).Defined inert :=
  List.forall_mem_cons.mpr ⟨.inl hi, h⟩

end Storage

/-! ## Circular indices -/

/-- An index that may have run past the end of `n` slots once, brought back by one subtraction. -/
def wrap (n i : Nat) : Nat := if i ≥ n then i - n else i

theorem wrap_lt {n i : Nat} (h : i < n + n) : wrap n i < n := by
  unfold wrap
  split <;> omega

theorem wrap_of_lt {n i : Nat} (h : i < n) : wrap n i = i := by
  rw [wrap, if_neg (by omega)]

/-- Within two rounds, wrapping is the remainder. -/
theorem wrap_eq_mod {n i : Nat} (h : i < n + n) : wrap n i = i % n := by
  unfold wrap
  split
  · rw [Nat.mod_eq_sub_mod ‹_›, Nat.mod_eq_of_lt (by omega)]
  · rw [Nat.mod_eq_of_lt (by omega)]

/-- Walking one step and taking the remainder, then `k` more, is walking `k + 1` steps. -/
theorem mod_succ_add_mod (n s k : Nat) : (s % n + 1 + k) % n = (s + (k + 1)) % n := by
  rw [Nat.add_assoc, Nat.mod_add_mod, Nat.add_comm 1 k]

/-- Walking one step and wrapping, then `i` more, is walking `i + 1` steps and wrapping once. -/
theorem wrap_wrap_succ_add {n s i : Nat} (hs : s < n) (hi : i + 1 < n) :
    wrap n (wrap n (s + 1) + i) = wrap n (s + (i + 1)) := by
  unfold wrap
  split_ifs <;> omega

theorem wrap_wrap_add_succ {n s i : Nat} (hs : s < n) (hi : i < n) :
    wrap n (wrap n (s + i) + 1) = wrap n (s + (i + 1)) := by
  unfold wrap
  split_ifs <;> omega

/-- The walk from `s` never meets a slot twice within `n` steps. -/
theorem wrap_add_inj {n s i j : Nat} (hi : i < n) (hj : j < n) :
    wrap n (s + i) = wrap n (s + j) ↔ i = j := by
  unfold wrap
  constructor
  · intro h
    split_ifs at h <;> omega
  · rintro rfl
    rfl

/-- The walk from `s` meets every slot within `n` steps. -/
theorem exists_wrap_add {n s i : Nat} (hs : s < n) (hi : i < n) : ∃ k < n, wrap n (s + k) = i := by
  by_cases h : s ≤ i
  · exact ⟨i - s, by omega, by rw [wrap_of_lt (by omega)]; omega⟩
  · exact ⟨i + n - s, by omega, by rw [wrap, if_pos (by omega)]; omega⟩

end Fipper.Lib
