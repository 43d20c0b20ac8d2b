import Mathlib.Data.Finset.Max
import Mathlib.Data.Fintype.Basic
import Mathlib.Data.Fintype.Card
import Mathlib.Algebra.Order.BigOperators.Group.Finset

/-!
# A bounded stable priority queue, abstractly

The state is one list for each priority, the oldest element first.

* `highest s` : the highest priority with an element waiting, `⊥` if there is none;
* `push cap s p x` : append to the list of `p`, unless it already holds `cap` elements;
* `pop s` : take the oldest element of the highest priority that has one;
* `total s` : how many elements are held (`total_update`, `total_le`).
-/

namespace Fipper.Lib.PriorityQueue

open Finset

variable {P T : Type*} [LinearOrder P] [Fintype P]

/-- The highest priority with an element waiting. -/
def highest (s : P → List T) : WithBot P := (univ.filter fun p => (s p).isEmpty = false).max

/-- Whether the element was taken, and the lists after it. -/
def push (cap : Nat) (s : P → List T) (p : P) (x : T) : Bool × (P → List T) :=
  if (s p).length = cap then (false, s) else (true, Function.update s p (s p ++ [x]))

def pop (s : P → List T) : Option T × (P → List T) :=
  match highest s with
  | ⊥ => (none, s)
  | (p : P) => ((s p).head?, Function.update s p (s p).tail)

def total (s : P → List T) : Nat := ∑ p, (s p).length

theorem highest_eq_bot_iff {s : P → List T} : highest s = ⊥ ↔ ∀ p, s p = [] := by
  simp [highest, Finset.max_eq_bot, Finset.filter_eq_empty_iff]

theorem highest_eq_coe_iff {s : P → List T} {p : P} :
    highest s = p ↔ s p ≠ [] ∧ ∀ p', p < p' → s p' = [] := by
  constructor
  · intro h
    have hmem : p ∈ univ.filter fun p => (s p).isEmpty = false := Finset.mem_of_max h
    refine ⟨by simpa using hmem, fun p' hlt => ?_⟩
    by_contra hne
    have hle : p' ≤ p := Finset.le_max_of_eq (by simpa using hne) h
    exact absurd hlt (not_lt.mpr hle)
  · rintro ⟨hne, hall⟩
    refine le_antisymm (Finset.max_le fun p' hp' => ?_) (Finset.le_max (by simpa using hne))
    by_contra hlt
    have := hall p' (by simpa using hlt)
    simp [this] at hp'

theorem pop_of_highest {s : P → List T} {p : P} (h : highest s = p) :
    pop s = ((s p).head?, Function.update s p (s p).tail) := by
  rw [pop, h]

theorem pop_of_bot {s : P → List T} (h : highest s = ⊥) : pop s = (none, s) := by
  rw [pop, h]

/-- Nothing comes out exactly when all lists are empty. -/
theorem pop_eq_none_iff {s : P → List T} : (pop s).1 = none ↔ ∀ p, s p = [] := by
  cases h : highest s with
  | bot => simp [pop_of_bot h, highest_eq_bot_iff.mp h]
  | coe p =>
      have hne := (highest_eq_coe_iff.mp h).1
      rw [pop_of_highest h]
      exact ⟨fun hnone => absurd (List.head?_eq_none_iff.mp hnone) hne, fun hall => absurd (hall p) hne⟩

omit [Fintype P] in
/-- What a change of one list does to the sum of the lengths. -/
theorem sum_length_update {A : Finset P} {p : P} (hp : p ∈ A) (s : P → List T) (xs : List T) :
    (∑ p' ∈ A, (Function.update s p xs p').length) + (s p).length =
      (∑ p' ∈ A, (s p').length) + xs.length := by
  have hsplit : ∀ t : P → List T, ∑ p' ∈ A, (t p').length =
      (∑ p' ∈ A.erase p, (t p').length) + (t p).length := fun t => (Finset.sum_erase_add _ _ hp).symm
  have hrest : (∑ p' ∈ A.erase p, (Function.update s p xs p').length) =
      ∑ p' ∈ A.erase p, (s p').length :=
    Finset.sum_congr rfl fun p' hp' => by rw [Function.update_of_ne (Finset.ne_of_mem_erase hp')]
  rw [hsplit (Function.update s p xs), hsplit s, hrest, Function.update_self]
  omega

theorem total_update (s : P → List T) (p : P) (xs : List T) :
    total (Function.update s p xs) + (s p).length = total s + xs.length :=
  sum_length_update (mem_univ p) s xs

omit [LinearOrder P] in
/-- Room for `cap` elements at each priority bounds the total. -/
theorem total_le {s : P → List T} {cap : Nat} (h : ∀ p, (s p).length ≤ cap) :
    total s ≤ Fintype.card P * cap := by
  have := Finset.sum_le_card_nsmul univ (fun p => (s p).length) cap fun p _ => h p
  simpa [total] using this

end Fipper.Lib.PriorityQueue
