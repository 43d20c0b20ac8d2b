import Mathlib.Data.List.TakeWhile
import Mathlib.Data.Int.Basic

/-!
# Decimal numerals

* `number s` : the number that a text of digits denotes;
* `Denotes s z` : `s` is white space, a sign or none, and digits, and denotes `z`;
* `Begins s z rest` : such a text at the front of `s` with all the digits it has there, and the rest;
* `scan s` : the search for it, as in the conversions of the C library (`scan_eq_some_iff`);
* `numeral z` : the canonical numeral (`scan_numeral`).
-/

namespace Fipper.Lib

/-- `isspace` in the locale "C". -/
def isSpace (c : Char) : Bool :=
  c == ' ' || c == '\t' || c == '\n' || c == '\x0b' || c == '\x0c' || c == '\r'

/-- The number that a text of digits denotes. -/
def number (s : List Char) : Option Nat :=
  if s ≠ [] ∧ s.all Char.isDigit then some (Nat.ofDigitChars 10 s 0) else none

inductive Sign
  | none
  | plus
  | minus
  deriving DecidableEq, Repr

def Sign.text : Sign → List Char
  | none => []
  | plus => ['+']
  | minus => ['-']

def Sign.apply (n : Nat) : Sign → Int
  | none => n
  | plus => n
  | minus => -n

/-- White space, at most one sign, and digits. -/
def Denotes (s : List Char) (z : Int) : Prop :=
  ∃ (space : List Char) (sign : Sign) (digits : List Char) (n : Nat),
    s = space ++ (sign.text ++ digits) ∧ space.all isSpace ∧ number digits = some n ∧ sign.apply n = z

/-- A numeral at the front of a text, with all the digits that stand there. -/
def Begins (s : List Char) (z : Int) (rest : List Char) : Prop :=
  ∃ text, s = text ++ rest ∧ Denotes text z ∧ ∀ c ∈ rest.head?, c.isDigit = false

def scanSign : List Char → Sign × List Char
  | '+' :: s => (.plus, s)
  | '-' :: s => (.minus, s)
  | s => (.none, s)

/-- The numeral at the front of a text, as a number, and what follows it. -/
def scan (s : List Char) : Option (Int × List Char) :=
  let signed := scanSign (s.dropWhile isSpace)
  (number (signed.2.takeWhile Char.isDigit)).map fun n =>
    (signed.1.apply n, signed.2.dropWhile Char.isDigit)

/-- The numeral of a number, without a sign unless it is negative and without leading zeros. -/
def numeral : Int → List Char
  | .ofNat n => n.repr.toList
  | .negSucc n => '-' :: (n + 1).repr.toList

/-! ## Digits -/

theorem number_eq_some_iff {s : List Char} {n : Nat} :
    number s = some n ↔ s ≠ [] ∧ (∀ c ∈ s, c.isDigit) ∧ Nat.ofDigitChars 10 s 0 = n := by
  unfold number
  rw [Option.ite_none_right_eq_some, List.all_eq_true, Option.some.injEq, and_assoc]

theorem isDigit_of_mem_repr {n : Nat} {c : Char} (h : c ∈ n.repr.toList) : c.isDigit = true := by
  unfold Nat.repr at h
  rw [String.toList_ofList] at h
  exact Nat.isDigit_of_mem_toDigits (by decide) (by decide) h

theorem number_repr (n : Nat) : number n.repr.toList = some n := by
  have hdigits : n.repr.toList = Nat.toDigits 10 n := String.toList_ofList
  refine number_eq_some_iff.mpr ⟨?_, fun c hc => isDigit_of_mem_repr hc, ?_⟩
  · rw [hdigits]
    exact Nat.toDigits_ne_nil
  · rw [hdigits]
    exact Nat.ofDigitChars_ten_toDigits

theorem isSpace_of_isDigit {c : Char} (h : c.isDigit = true) : isSpace c = false := by
  by_contra hspace
  simp only [isSpace, Bool.not_eq_false, Bool.or_eq_true, beq_iff_eq] at hspace
  rcases hspace with ((((rfl | rfl) | rfl) | rfl) | rfl) | rfl <;> revert h <;> decide

/-! ## Scanning -/

theorem scanSign_text (s : List Char) : (scanSign s).1.text ++ (scanSign s).2 = s := by
  unfold scanSign
  split <;> rfl

/-- A sign is found where it stands, and none where a digit does. -/
theorem scanSign_append {sign : Sign} {digits : List Char} (rest : List Char) {n : Nat}
    (h : number digits = some n) :
    scanSign (sign.text ++ digits ++ rest) = (sign, digits ++ rest) := by
  obtain ⟨hne, hdigits, -⟩ := number_eq_some_iff.mp h
  obtain ⟨d, ds, rfl⟩ := List.exists_cons_of_ne_nil hne
  have hd : d.isDigit = true := hdigits d List.mem_cons_self
  cases sign with
  | none =>
      show scanSign (d :: (ds ++ rest)) = (.none, d :: (ds ++ rest))
      unfold scanSign
      split
      · next heq =>
          rw [(List.cons.inj heq).1] at hd
          exact absurd hd (by decide)
      · next heq =>
          rw [(List.cons.inj heq).1] at hd
          exact absurd hd (by decide)
      · rfl
  | plus => rfl
  | minus => rfl

/-- No white space stands before the sign and the digits. -/
theorem dropWhile_isSpace_append {sign : Sign} {digits : List Char} (rest : List Char) {n : Nat}
    (h : number digits = some n) :
    (sign.text ++ digits ++ rest).dropWhile isSpace = sign.text ++ digits ++ rest := by
  obtain ⟨hne, hdigits, -⟩ := number_eq_some_iff.mp h
  obtain ⟨d, ds, rfl⟩ := List.exists_cons_of_ne_nil hne
  have hd : isSpace d = false := isSpace_of_isDigit (hdigits d List.mem_cons_self)
  cases sign with
  | none => exact List.dropWhile_cons_of_neg (by rw [hd]; exact Bool.false_ne_true)
  | plus => rfl
  | minus => rfl

theorem scan_eq_some_iff {s rest : List Char} {z : Int} : scan s = some (z, rest) ↔ Begins s z rest := by
  constructor
  · intro h
    rw [scan, Option.map_eq_some_iff] at h
    obtain ⟨n, hn, heq⟩ := h
    obtain ⟨hz, hrest⟩ := Prod.mk.inj heq
    generalize hsigned : s.dropWhile isSpace = signed at hn hz hrest
    refine ⟨s.takeWhile isSpace ++ ((scanSign signed).1.text ++ (scanSign signed).2.takeWhile Char.isDigit),
      ?_, ⟨_, _, _, n, rfl, List.all_takeWhile, hn, hz⟩, ?_⟩
    · rw [← hrest, List.append_assoc, List.append_assoc, List.takeWhile_append_dropWhile, scanSign_text,
        ← hsigned, List.takeWhile_append_dropWhile]
    · intro c hc
      rw [← hrest] at hc
      have hnot := List.head?_dropWhile_not Char.isDigit (scanSign signed).2
      rw [Option.mem_def.mp hc] at hnot
      simpa using hnot
  · rintro ⟨text, rfl, ⟨space, sign, digits, n, rfl, hspace, hn, rfl⟩, hrest⟩
    have hdigits : ∀ c ∈ digits, c.isDigit = true := (number_eq_some_iff.mp hn).2.1
    have hdrop : (space ++ (sign.text ++ digits) ++ rest).dropWhile isSpace =
        sign.text ++ digits ++ rest := by
      rw [List.append_assoc, List.dropWhile_append_of_pos (List.all_eq_true.mp hspace),
        dropWhile_isSpace_append rest hn]
    have hnone : rest.takeWhile Char.isDigit = [] ∧ rest.dropWhile Char.isDigit = rest := by
      cases rest with
      | nil => exact ⟨rfl, rfl⟩
      | cons c rest =>
          have hc : c.isDigit = false := hrest c rfl
          exact ⟨List.takeWhile_cons_of_neg (by simp [hc]), List.dropWhile_cons_of_neg (by simp [hc])⟩
    unfold scan
    rw [hdrop, scanSign_append rest hn]
    dsimp only
    rw [List.takeWhile_append_of_pos hdigits, List.dropWhile_append_of_pos hdigits, hnone.1, hnone.2,
      List.append_nil, hn]
    rfl

theorem begins_nil_iff {s : List Char} {z : Int} : Begins s z [] ↔ Denotes s z := by
  constructor
  · rintro ⟨text, rfl, h, -⟩
    rwa [List.append_nil]
  · intro h
    exact ⟨s, (List.append_nil s).symm, h, fun c hc => by cases hc⟩

/-- A text begins with one numeral at most. -/
theorem Begins.unique {s rest rest' : List Char} {z z' : Int} (h : Begins s z rest)
    (h' : Begins s z' rest') : z = z' ∧ rest = rest' := by
  have heq : some (z, rest) = some (z', rest') := by
    rw [← scan_eq_some_iff.mpr h, scan_eq_some_iff.mpr h']
  exact Prod.mk.inj (Option.some.inj heq)

theorem denotes_numeral (z : Int) : Denotes (numeral z) z := by
  cases z with
  | ofNat n => exact ⟨[], .none, _, n, rfl, rfl, number_repr n, rfl⟩
  | negSucc n => exact ⟨[], .minus, _, n + 1, rfl, rfl, number_repr (n + 1), rfl⟩

theorem scan_numeral (z : Int) : scan (numeral z) = some (z, []) :=
  scan_eq_some_iff.mpr (begins_nil_iff.mpr (denotes_numeral z))

end Fipper.Lib
