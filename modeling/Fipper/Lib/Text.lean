import Mathlib.Data.List.Basic
import Mathlib.Data.List.Infix
import Mathlib.Data.List.TakeWhile

/-!
# Searching a text

`find s i c` is `std::find` from position `i` of `s`: the position of the first `c`, or the length of
`s`. A search cuts what is left of the text in two: `upTo c s` before the first `c`, `onward c s` from
it (`drop_find`, `slice_find`). `split c s` are the pieces between the `c`s, as `std::views::split` gives
them; `findText` looks for a text.
-/

namespace Fipper.Lib

variable {α : Type*} [DecidableEq α]

/-- `std::find` over the positions from `i` to the end. -/
def find (s : List α) (i : Nat) (c : α) : Nat := i + (s.drop i).idxOf c

/-- The text between two positions. -/
def slice (s : List α) (i j : Nat) : List α := (s.drop i).take (j - i)

def upTo (c : α) (s : List α) : List α := s.takeWhile (· != c)

def onward (c : α) (s : List α) : List α := s.dropWhile (· != c)

/-! ## Cutting at the first occurrence -/

@[simp] theorem upTo_nil (c : α) : upTo c [] = [] := rfl

@[simp] theorem onward_nil (c : α) : onward c [] = [] := rfl

@[simp] theorem upTo_cons_self (c : α) (s : List α) : upTo c (c :: s) = [] := by simp [upTo]

@[simp] theorem onward_cons_self (c : α) (s : List α) : onward c (c :: s) = c :: s := by simp [onward]

theorem upTo_cons_of_ne {a c : α} (h : a ≠ c) (s : List α) : upTo c (a :: s) = a :: upTo c s := by
  simp [upTo, h]

@[simp] theorem upTo_append_onward (c : α) (s : List α) : upTo c s ++ onward c s = s :=
  List.takeWhile_append_dropWhile

theorem notMem_upTo (c : α) (s : List α) : c ∉ upTo c s := fun h => by
  simpa using List.mem_takeWhile_imp h

theorem bne_of_notMem {c : α} {u : List α} (h : c ∉ u) : ∀ a ∈ u, (a != c) = true := by
  intro a ha
  rw [bne_iff_ne]
  rintro rfl
  exact h ha

theorem upTo_append {c : α} {u : List α} (h : c ∉ u) (v : List α) : upTo c (u ++ v) = u ++ upTo c v :=
  List.takeWhile_append_of_pos (bne_of_notMem h)

theorem onward_append {c : α} {u : List α} (h : c ∉ u) (v : List α) : onward c (u ++ v) = onward c v :=
  List.dropWhile_append_of_pos (bne_of_notMem h)

theorem upTo_eq_self {c : α} {s : List α} (h : c ∉ s) : upTo c s = s := by
  simpa using upTo_append h []

theorem onward_eq_nil_iff {c : α} {s : List α} : onward c s = [] ↔ c ∉ s := by
  rw [onward, List.dropWhile_eq_nil_iff]
  refine ⟨fun h hc => ?_, bne_of_notMem⟩
  simpa using h c hc

/-- What is left after a search is nothing, or begins with what was looked for. -/
theorem onward_eq_cons {c : α} {s : List α} (h : onward c s ≠ []) : ∃ v, onward c s = c :: v := by
  have hc : c ∈ s := by
    by_contra hc
    exact h (onward_eq_nil_iff.mpr hc)
  obtain ⟨u, v, rfl, hu⟩ := List.eq_append_cons_of_mem hc
  exact ⟨v, by rw [onward_append hu, onward_cons_self]⟩

theorem length_upTo (c : α) (s : List α) : (upTo c s).length = s.idxOf c := by
  induction s with
  | nil => rfl
  | cons a s ih =>
      by_cases h : a = c
      · simp [h]
      · rw [upTo_cons_of_ne h, List.length_cons, ih, List.idxOf_cons_ne _ h]

theorem drop_length_upTo (c : α) (s : List α) : s.drop (upTo c s).length = onward c s := by
  have h : (upTo c s ++ onward c s).drop (upTo c s).length = onward c s := List.drop_left
  rwa [upTo_append_onward] at h

/-- Two texts that are equal are cut at the same place. -/
theorem append_cons_inj {c : α} {u u' v v' : List α} (hu : c ∉ u) (hu' : c ∉ u') :
    u ++ c :: v = u' ++ c :: v' ↔ u = u' ∧ v = v' := by
  refine ⟨fun h => ?_, fun ⟨h, h'⟩ => h ▸ h' ▸ rfl⟩
  have hupTo := congrArg (upTo c) h
  have honward := congrArg (onward c) h
  rw [upTo_append hu, upTo_append hu', upTo_cons_self, upTo_cons_self, List.append_nil,
    List.append_nil] at hupTo
  rw [onward_append hu, onward_append hu', onward_cons_self, onward_cons_self] at honward
  exact ⟨hupTo, (List.cons.inj honward).2⟩

/-- The text behind the last `c`, or all of it. -/
def afterLast (c : α) (s : List α) : List α := (upTo c s.reverse).reverse

theorem afterLast_append {c : α} {v : List α} (h : c ∉ v) (u : List α) : afterLast c (u ++ c :: v) = v := by
  have hreverse : (u ++ c :: v).reverse = v.reverse ++ c :: u.reverse := by simp
  rw [afterLast, hreverse, upTo_append (mt List.mem_reverse.mp h), upTo_cons_self, List.append_nil,
    List.reverse_reverse]

/-! ## Positions -/

theorem le_find (s : List α) (i : Nat) (c : α) : i ≤ find s i c := Nat.le_add_right _ _

theorem find_le {s : List α} {i : Nat} (h : i ≤ s.length) (c : α) : find s i c ≤ s.length := by
  have : (s.drop i).idxOf c ≤ (s.drop i).length := List.idxOf_le_length
  rw [List.length_drop] at this
  unfold find
  omega

theorem drop_find (s : List α) (i : Nat) (c : α) : s.drop (find s i c) = onward c (s.drop i) := by
  rw [find, ← List.drop_drop, ← length_upTo, drop_length_upTo]

theorem slice_find (s : List α) (i : Nat) (c : α) : slice s i (find s i c) = upTo c (s.drop i) := by
  have hhere : upTo c (s.drop i) <+: s.drop i := List.takeWhile_prefix _
  rw [slice, find, Nat.add_sub_cancel_left, ← length_upTo, ← List.prefix_iff_eq_take.mp hhere]

/-- A search that starts anywhere in `u` finds what follows `u`. -/
theorem find_between {pre u v : List α} {c : α} {i : Nat} (hc : c ∉ u) (hlo : pre.length ≤ i)
    (hhi : i ≤ pre.length + u.length) : find (pre ++ (u ++ c :: v)) i c = pre.length + u.length := by
  have hdrop : (pre ++ (u ++ c :: v)).drop i = u.drop (i - pre.length) ++ c :: v := by
    rw [List.drop_append, List.drop_of_length_le hlo, List.nil_append,
      List.drop_append_of_le_length (by omega)]
  have hnot : c ∉ u.drop (i - pre.length) := fun h => hc (List.mem_of_mem_drop h)
  rw [find, hdrop, List.idxOf_append_of_notMem hnot, List.idxOf_cons_self, List.length_drop]
  omega

omit [DecidableEq α] in
theorem slice_eq {s pre u v : List α} {i j : Nat} (hs : s = pre ++ (u ++ v)) (hi : i = pre.length)
    (hj : j = i + u.length) : slice s i j = u := by
  rw [slice, hs, hj, hi, List.drop_left, Nat.add_sub_cancel_left, List.take_left]

omit [DecidableEq α] in
theorem drop_eq_nil {s : List α} {i : Nat} (h : i ≤ s.length) : s.drop i = [] ↔ i = s.length := by
  rw [List.drop_eq_nil_iff]
  omega

/-! ## Pieces -/

/-- `std::views::split`: an empty text has no piece. -/
def split (c : α) (s : List α) : List (List α) := if s = [] then [] else s.splitOn c

theorem split_of_notMem {c : α} {s : List α} (hs : s ≠ []) (hc : c ∉ s) : split c s = [s] := by
  rw [split, if_neg hs, List.splitOn_eq_singleton hc]

theorem split_of_mem {c : α} {s : List α} (hc : c ∈ s) :
    ∃ first second rest, split c s = first :: second :: rest := by
  obtain ⟨u, v, rfl, hu⟩ := List.eq_append_cons_of_mem hc
  obtain ⟨second, rest, hv⟩ := List.exists_cons_of_ne_nil (List.splitOn_ne_nil c v)
  exact ⟨u, second, rest, by
    rw [split, if_neg (by simp), List.splitOn_append_cons_self_of_not_mem hu, hv]⟩

/-- The first position where `text` stands in `s`. -/
def findText (s text : List α) : Option Nat := s.tails.findIdx? fun rest => text.isPrefixOf rest

section FindText
variable {c : α} {s t text : List α} {i : Nat}

theorem findText_eq_some_iff :
    findText s text = some i ↔
      i ≤ s.length ∧ text <+: s.drop i ∧ ∀ j < i, ¬ text <+: s.drop j := by
  unfold findText
  rw [List.findIdx?_eq_some_iff_getElem]
  simp only [List.length_tails, List.getElem_tails, List.isPrefixOf_iff_prefix, Nat.lt_succ_iff]
  constructor
  · rintro ⟨hi, hhere, hfirst⟩
    exact ⟨hi, hhere, hfirst⟩
  · rintro ⟨hi, hhere, hfirst⟩
    exact ⟨hi, hhere, hfirst⟩

theorem le_of_findText (h : findText s text = some i) : i + text.length ≤ s.length := by
  obtain ⟨hi, hhere, -⟩ := findText_eq_some_iff.mp h
  have hle := hhere.length_le
  rw [List.length_drop] at hle
  omega

theorem findText_of_prefix (h : text <+: s) : findText s text = some 0 :=
  findText_eq_some_iff.mpr ⟨Nat.zero_le _, h, fun j hj => absurd hj (Nat.not_lt_zero j)⟩

/-- What follows the first occurrence makes no difference. -/
theorem findText_append_right (h : findText s text = some i) (t : List α) : findText (s ++ t) text = some i := by
  have hroom := le_of_findText h
  obtain ⟨hi, hhere, hfirst⟩ := findText_eq_some_iff.mp h
  refine findText_eq_some_iff.mpr ⟨?_, ?_, fun j hj => ?_⟩
  · rw [List.length_append]
    omega
  · rw [List.drop_append_of_le_length hi]
    exact hhere.trans (List.prefix_append _ _)
  · rw [List.drop_append_of_le_length (by omega)]
    intro hprefix
    apply hfirst j hj
    apply List.prefix_of_prefix_length_le hprefix (List.prefix_append _ _)
    rw [List.length_drop]
    omega

/-- A front in which the text does not begin is skipped. -/
theorem findText_append (hfront : ∀ j < s.length, ¬ text <+: s.drop j ++ t)
    (h : findText t text = some i) : findText (s ++ t) text = some (s.length + i) := by
  obtain ⟨hi, hhere, hfirst⟩ := findText_eq_some_iff.mp h
  refine findText_eq_some_iff.mpr ⟨?_, ?_, fun j hj => ?_⟩
  · rw [List.length_append]
    omega
  · rwa [List.drop_append, List.drop_of_length_le (by omega), List.nil_append, Nat.add_sub_cancel_left]
  · rcases Nat.lt_or_ge j s.length with hlo | hhi
    · rw [List.drop_append_of_le_length (Nat.le_of_lt hlo)]
      exact hfront j hlo
    · rw [List.drop_append, List.drop_of_length_le hhi, List.nil_append]
      exact hfirst _ (by omega)

theorem findText_cons {a : α} (hfront : ¬ text <+: a :: t) (h : findText t text = some i) :
    findText (a :: t) text = some (i + 1) := by
  have hskip : findText ([a] ++ t) text = some ([a].length + i) := by
    apply findText_append _ h
    intro j hj
    rw [List.length_singleton, Nat.lt_one_iff] at hj
    rwa [hj]
  rw [Nat.add_comm]
  exact hskip

/-- A front without the first character of the text is skipped. -/
theorem findText_append_of_notMem (hc : c ∉ s) (h : findText t (c :: text) = some i) :
    findText (s ++ t) (c :: text) = some (s.length + i) := by
  apply findText_append _ h
  intro j hj hhere
  rw [← List.getElem_cons_drop hj, List.cons_append, List.cons_prefix_cons] at hhere
  exact hc (hhere.1 ▸ List.getElem_mem hj)

end FindText

end Fipper.Lib
