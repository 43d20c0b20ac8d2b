import Fipper.Lib.Observation
import Fipper.Lib.PriorityQueue

/-!
# The order in which a stable priority queue gives its elements back

An operation on the lists has one `Effect`: an element enters the list of a priority, or it leaves it,
or nothing happens.

* `Moves s e t`, `Path s es t` : one effect, and the effects `es`, lead from the lists `s` to `t`;
* `path_order` : at each priority the elements leave in the order in which they entered;
* `path_select` : so do elements of a kind that enters at one priority only;
* `path_waits` : it waits for as many departures as there are elements ahead of it, and one more for
  every element that enters at a higher priority; `path_leaves` : then it leaves.
-/

namespace Fipper.Lib.PriorityQueue

open Finset

variable {P T : Type*} [LinearOrder P] [Fintype P]

inductive Effect (P T : Type*)
  | nothing
  | entered (p : P) (x : T)
  | left (p : P) (x : T)
  deriving DecidableEq, Repr

namespace Effect

/-- What enters at a priority. -/
def entry (p : P) : Effect P T → Option T
  | entered p' x => if p' = p then some x else none
  | _ => none

/-- What enters at any priority. -/
def enters : Effect P T → List T
  | entered _ x => [x]
  | _ => []

/-- What leaves from any priority. -/
def leaves : Effect P T → List T
  | left _ x => [x]
  | _ => []

/-- What leaves from a priority. -/
def departure (p : P) : Effect P T → Option T
  | left p' x => if p' = p then some x else none
  | _ => none

def departs : Effect P T → Bool
  | left _ _ => true
  | _ => false

/-- An element enters ahead of those of the priority. -/
def overtakes (p : P) : Effect P T → Bool
  | entered p' _ => p < p'
  | _ => false

end Effect

/-- What entered at a priority, the oldest first. -/
def entries (p : P) (es : List (Effect P T)) : List T := es.filterMap (Effect.entry p)

/-- What left from a priority, the oldest first. -/
def departures (p : P) (es : List (Effect P T)) : List T := es.filterMap (Effect.departure p)

/-- An element leaves from the front of the highest priority that has one. -/
inductive Moves (s : P → List T) : Effect P T → (P → List T) → Prop
  | nothing : Moves s .nothing s
  | entered (p : P) (x : T) : Moves s (.entered p x) (Function.update s p (s p ++ [x]))
  | left (p : P) (x : T) (xs : List T) (htop : highest s = p) (hp : s p = x :: xs) :
      Moves s (.left p x) (Function.update s p xs)

/-- The effects `es` lead from the lists `s` to the lists `t`. -/
abbrev Path : (P → List T) → List (Effect P T) → (P → List T) → Prop := Lib.Path Moves

variable {s t : P → List T} {e : Effect P T} {es : List (Effect P T)} {p : P}

/-- The highest priority with an element is the first such one on a list of all, in descending order. -/
theorem find_highest {priorities : List P} (hsorted : priorities.Pairwise (· > ·))
    (hall : ∀ p, p ∈ priorities) (s : P → List T) :
    priorities.find? (fun p => !(s p).isEmpty) = highest s := by
  cases htop : highest s with
  | bot =>
      have hnil := highest_eq_bot_iff.mp htop
      exact List.find?_eq_none.mpr fun p _ => by simp [hnil p]
  | coe p =>
      obtain ⟨hne, habove⟩ := highest_eq_coe_iff.mp htop
      obtain ⟨before, after, heq⟩ := List.append_of_mem (hall p)
      refine List.find?_eq_some_iff_append.mpr ⟨by simpa using hne, before, after, heq, fun p' hp' => ?_⟩
      rw [heq, List.pairwise_append] at hsorted
      have hlt : p < p' := hsorted.2.2 p' hp' p List.mem_cons_self
      simp [habove p' hlt]

/-! ## Order -/

theorem Moves.order (h : Moves s e t) (p : P) :
    s p ++ (e.entry p).toList = (e.departure p).toList ++ t p := by
  cases h with
  | nothing => simp [Effect.entry, Effect.departure]
  | entered p' x =>
      by_cases hp : p' = p
      · subst hp
        simp [Effect.entry, Effect.departure]
      · simp [Effect.entry, Effect.departure, hp, Ne.symm hp]
  | left p' x xs htop hxs =>
      by_cases hp : p' = p
      · subst hp
        simp [Effect.entry, Effect.departure, hxs]
      · simp [Effect.entry, Effect.departure, hp, Ne.symm hp]

omit [Fintype P] in
theorem entries_cons (p : P) (e : Effect P T) (es : List (Effect P T)) :
    entries p (e :: es) = (e.entry p).toList ++ entries p es := by
  unfold entries
  rw [List.filterMap_cons]
  cases e.entry p <;> rfl

omit [Fintype P] in
theorem departures_cons (p : P) (e : Effect P T) (es : List (Effect P T)) :
    departures p (e :: es) = (e.departure p).toList ++ departures p es := by
  unfold departures
  rw [List.filterMap_cons]
  cases e.departure p <;> rfl

/-- **First in, first out, at each priority.** -/
theorem path_order (h : Path s es t) (p : P) : s p ++ entries p es = departures p es ++ t p := by
  induction h with
  | nil s => simp [entries, departures]
  | cons hmove _ ih =>
      rw [entries_cons, departures_cons, ← List.append_assoc, hmove.order p, List.append_assoc, ih,
        List.append_assoc]

section Select
variable {U : Type*} {f : T → Option U}

omit [Fintype P] in
/-- Elements of a kind enter at one priority only. -/
theorem enters_select (hentered : ∀ p' x, .entered p' x ∈ es → f x ≠ none → p' = p) :
    (es.flatMap Effect.enters).filterMap f = (entries p es).filterMap f := by
  induction es with
  | nil => rfl
  | cons e es ih =>
      rw [List.flatMap_cons, entries_cons, List.filterMap_append, List.filterMap_append,
        ih fun p' x hmem => hentered p' x (List.mem_cons_of_mem _ hmem)]
      congr 1
      cases e with
      | entered p' x =>
          by_cases hp : p' = p
          · simp [Effect.enters, Effect.entry, hp]
          · have hnone : f x = none := by
              by_contra hsome
              exact hp (hentered p' x List.mem_cons_self hsome)
            simp [Effect.enters, Effect.entry, hp, hnone]
      | _ => rfl

omit [Fintype P] in
/-- And leave from there. -/
theorem leaves_select (hleft : ∀ p' x, .left p' x ∈ es → f x ≠ none → p' = p) :
    (es.flatMap Effect.leaves).filterMap f = (departures p es).filterMap f := by
  induction es with
  | nil => rfl
  | cons e es ih =>
      rw [List.flatMap_cons, departures_cons, List.filterMap_append, List.filterMap_append,
        ih fun p' x hmem => hleft p' x (List.mem_cons_of_mem _ hmem)]
      congr 1
      cases e with
      | left p' x =>
          by_cases hp : p' = p
          · simp [Effect.leaves, Effect.departure, hp]
          · have hnone : f x = none := by
              by_contra hsome
              exact hp (hleft p' x List.mem_cons_self hsome)
            simp [Effect.leaves, Effect.departure, hp, hnone]
      | _ => rfl

/-- What leaves an empty queue has entered it, at the same priority. -/
theorem entered_of_left (h : Path (fun _ => []) es t) {x : T} (hleft : .left p x ∈ es) :
    .entered p x ∈ es := by
  have hdeparted : x ∈ departures p es :=
    List.mem_filterMap.mpr ⟨_, hleft, if_pos rfl⟩
  have hentered : x ∈ entries p es := by
    have horder : entries p es = departures p es ++ t p := path_order h p
    rw [horder]
    exact List.mem_append_left _ hdeparted
  obtain ⟨e, he, hentry⟩ := List.mem_filterMap.mp hentered
  cases e with
  | entered p' y =>
      obtain ⟨rfl, hy⟩ := Option.ite_none_right_eq_some.mp hentry
      rwa [Option.some.inj hy] at he
  | _ => cases hentry

/-- **Elements of a kind leave in the order in which they entered**, whatever else enters and leaves, if they
enter at one priority only. -/
theorem path_select (h : Path (fun _ => []) es t)
    (hentered : ∀ p' x, .entered p' x ∈ es → f x ≠ none → p' = p) :
    (es.flatMap Effect.enters).filterMap f =
      (es.flatMap Effect.leaves).filterMap f ++ (t p).filterMap f := by
  have horder : entries p es = departures p es ++ t p := path_order h p
  rw [enters_select hentered, leaves_select fun p' x hleft => hentered p' x (entered_of_left h hleft), horder,
    List.filterMap_append]

end Select

/-- Nothing of a higher priority is waiting when an element leaves. -/
theorem Moves.highest {x : T} (h : Moves s (.left p x) t) {p' : P} (hlt : p < p') : s p' = [] := by
  cases h with
  | left _ _ xs htop hp => exact (highest_eq_coe_iff.mp htop).2 p' hlt

/-! ## Waiting -/

/-- How many elements wait at a higher priority. -/
def above (s : P → List T) (p : P) : Nat := ∑ p' ∈ univ.filter (p < ·), (s p').length

/-- How many elements are ahead of the one at the index `i` of its list. -/
def ahead (s : P → List T) (p : P) (i : Nat) : Nat := above s p + i

theorem above_update_of_lt {p' : P} (hlt : p < p') (s : P → List T) (xs : List T) :
    above (Function.update s p' xs) p + (s p').length = above s p + xs.length :=
  sum_length_update (by simpa using hlt) s xs

theorem above_update_of_not_lt {p' : P} (hlt : ¬ p < p') (s : P → List T) (xs : List T) :
    above (Function.update s p' xs) p = above s p := by
  apply Finset.sum_congr rfl
  intro q hq
  have hne : q ≠ p' := by
    rintro rfl
    exact hlt (by simpa using hq)
  rw [Function.update_of_ne hne]

theorem Moves.ahead (h : Moves s e t) {i : Nat} (hi : i < (s p).length)
    (hleft : (e.departure p).toList.length ≤ i) :
    (if e.departs then 1 else 0) + ahead t p (i - (e.departure p).toList.length) =
      ahead s p i + if e.overtakes p then 1 else 0 := by
  unfold PriorityQueue.ahead
  cases h with
  | nothing => simp [Effect.departs, Effect.departure, Effect.overtakes]
  | entered p' x =>
      by_cases hlt : p < p'
      · have habove := above_update_of_lt hlt s (s p' ++ [x])
        rw [List.length_append, List.length_singleton] at habove
        simp only [Effect.departs, Effect.departure, Effect.overtakes, Option.toList_none,
          List.length_nil, decide_eq_true_eq, if_pos hlt, Bool.false_eq_true, if_false]
        omega
      · simp [Effect.departs, Effect.departure, Effect.overtakes, hlt, above_update_of_not_lt hlt]
  | left p' x xs htop hp =>
      obtain ⟨-, hempty⟩ := highest_eq_coe_iff.mp htop
      rcases lt_trichotomy p p' with hlt | rfl | hgt
      · have habove := above_update_of_lt hlt s xs
        rw [hp, List.length_cons] at habove
        simp only [Effect.departs, Effect.departure, Effect.overtakes, hlt.ne', if_false, if_true,
          Option.toList_none, List.length_nil, Bool.false_eq_true]
        omega
      · have habove := above_update_of_not_lt (lt_irrefl p) s xs
        simp only [Effect.departure, if_true, Option.toList_some, List.length_singleton] at hleft
        simp only [Effect.departs, Effect.departure, Effect.overtakes, if_true, Option.toList_some,
          List.length_singleton, Bool.false_eq_true, if_false, habove]
        omega
      · -- the element itself would have a higher priority than the one that leaves
        rw [hempty p hgt] at hi
        exact absurd hi (Nat.not_lt_zero i)

/-- **How long an element waits.** As long as the element at index `i` has not left, the departures are
the elements that were ahead of it and are no more, and those that have overtaken it. -/
theorem path_waits (h : Path s es t) {i : Nat} (hi : i < (s p).length)
    (hleft : (departures p es).length ≤ i) :
    es.countP Effect.departs + PriorityQueue.ahead t p (i - (departures p es).length) =
      PriorityQueue.ahead s p i + es.countP (Effect.overtakes p) := by
  induction h generalizing i with
  | nil s => simp [departures]
  | @cons s t u e es hmove hes ih =>
      rw [departures_cons, List.length_append] at hleft ⊢
      have hfirst : (e.departure p).toList.length ≤ i := by omega
      have horder := congrArg List.length (hmove.order p)
      rw [List.length_append, List.length_append] at horder
      have hstep := hmove.ahead hi hfirst
      have hrest := ih (i := i - (e.departure p).toList.length) (by omega) (by omega)
      rw [List.countP_cons, List.countP_cons, ← Nat.sub_sub]
      omega

/-- It leaves at the latest with the departure after those. -/
theorem path_leaves (h : Path s es t) {i : Nat} {x : T} (hx : (s p)[i]? = some x)
    (hlate : PriorityQueue.ahead s p i + es.countP (Effect.overtakes p) < es.countP Effect.departs) :
    x ∈ departures p es := by
  obtain ⟨hi, -⟩ := List.getElem?_eq_some_iff.mp hx
  by_cases hleft : (departures p es).length ≤ i
  · have hwaits := path_waits h hi hleft
    omega
  · have horder := congrArg (·[i]?) (path_order h p)
    simp only [List.getElem?_append_left hi, List.getElem?_append_left (Nat.lt_of_not_le hleft)] at horder
    exact List.mem_of_getElem? (horder.symm.trans hx)

/-- With room for `cap` elements at each priority, few elements are ahead of another one. -/
theorem ahead_lt {cap : Nat} (hcap : ∀ p, (s p).length ≤ cap) {i : Nat} (hi : i < (s p).length) :
    PriorityQueue.ahead s p i < cap * (univ.filter (p ≤ ·)).card := by
  have hsplit : univ.filter (p ≤ ·) = insert p (univ.filter (p < ·)) := by
    ext q
    simp [le_iff_eq_or_lt, eq_comm]
  have habove : above s p ≤ (univ.filter (p < ·)).card * cap := by
    simpa [above] using Finset.sum_le_card_nsmul (univ.filter (p < ·)) (fun q => (s q).length) cap fun q _ => hcap q
  have hlen := hcap p
  rw [hsplit, Finset.card_insert_of_notMem (by simp), Nat.mul_add_one, Nat.mul_comm]
  unfold PriorityQueue.ahead
  omega

end Fipper.Lib.PriorityQueue
