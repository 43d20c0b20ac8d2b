import Fipper.Lib.Text
import Fipper.Util.Enum

/-!
# The names of enumerators

`toString<Enum, value> ()` cuts the name of an enumerator out of `__PRETTY_FUNCTION__`, where the value of the
template parameter stands last: `value = fp::Result::eSuccess]`, or `value = (fp::Result)5]` for a value without
enumerator.

* `toStringOf` : how the name is cut out;
* `Spelling` : what the compiler writes; `Spelled` : the enum whose names are cut out of that;
* `lookupCorrect_iff` : for which enums every declared value has a name;
* `toString_spelled` : the names at run time.
-/

namespace Fipper

open Lib

def lookupString : Str := "value = ".toList

/-- The name in the text of a value, if that is an enumerator with a name that is longer than the tag. -/
def cutName (tag name : Str) : Except IllFormed (Option Str) :=
  match name with
  -- `name[0]`
  | [] => .error .outOfBounds
  | c :: _ =>
      if c = '(' then .ok none
      else if (afterLast ':' name).length ≤ tag.length then .ok none
      else .ok (some ((afterLast ':' name).drop tag.length))

theorem cutName_cons (tag rest : Str) (c : Char) :
    cutName tag (c :: rest) =
      if c = '(' then .ok none
      else if (afterLast ':' (c :: rest)).length ≤ tag.length then .ok none
      else .ok (some ((afterLast ':' (c :: rest)).drop tag.length)) := rfl

/-- `toString<Enum, value> ()`, from the text of `__PRETTY_FUNCTION__`. -/
def toStringOf (tag prettyFunction : Str) : Except IllFormed (Option Str) :=
  match findText prettyFunction lookupString with
  -- `name.begin() + npos`
  | none => .error .outOfBounds
  | some i =>
      if i + lookupString.length < prettyFunction.length then
        cutName tag (slice prettyFunction (i + lookupString.length) (prettyFunction.length - 1))
      else .error .outOfBounds

/-- What the compiler writes for an enum: the text up to `value = `, the scope that it gives the enumerators, and
the number behind '(' where a value has none. -/
structure Spelling (width : Nat) where
  before : Str
  scope : Str
  number : BitVec width → Str
  first : findText (before ++ lookupString) lookupString = some before.length

namespace Spelling
variable {width : Nat} (spelling : Spelling width) (enumerators : List (BitVec width × Str))

/-- The text of a value: of the enumerators with this value the first. -/
def shown (v : BitVec width) : Str :=
  match enumerators.find? fun e => e.1 = v with
  | some e => spelling.scope ++ "::".toList ++ e.2
  | none => '(' :: spelling.number v

def text (v : BitVec width) : Str :=
  spelling.before ++ (lookupString ++ (spelling.shown enumerators v ++ "]".toList))

/-- The value is what is cut out. -/
theorem toStringOf_text (tag : Str) (v : BitVec width) :
    toStringOf tag (spelling.text enumerators v) = cutName tag (spelling.shown enumerators v) := by
  have htext : spelling.text enumerators v =
      (spelling.before ++ lookupString) ++ (spelling.shown enumerators v ++ "]".toList) := by
    rw [text, List.append_assoc]
  have hfind : findText (spelling.text enumerators v) lookupString = some spelling.before.length := by
    rw [htext]
    exact findText_append_right spelling.first _
  have hlength : (spelling.text enumerators v).length =
      spelling.before.length + lookupString.length + (spelling.shown enumerators v).length + 1 := by
    rw [htext, List.length_append, List.length_append, List.length_append]
    rfl
  have hslice : slice (spelling.text enumerators v) (spelling.before.length + lookupString.length)
      ((spelling.text enumerators v).length - 1) = spelling.shown enumerators v := by
    apply slice_eq htext (List.length_append ..).symm
    omega
  unfold toStringOf
  rw [hfind]
  dsimp only
  rw [if_pos (by omega), hslice]

variable {spelling enumerators} {tag : Str} {v : BitVec width}

/-- A value without enumerator has no name. -/
theorem cutName_number (h : enumerators.find? (fun e => e.1 = v) = none) :
    cutName tag (spelling.shown enumerators v) = .ok none := by
  rw [shown, h]
  dsimp only
  rw [cutName_cons, if_pos rfl]

/-- An enumerator has the part of its name behind the tag, unless the scope begins with '('. -/
theorem cutName_enumerator {e : BitVec width × Str} (h : enumerators.find? (fun e => e.1 = v) = some e)
    (hname : ':' ∉ e.2) :
    cutName tag (spelling.shown enumerators v) =
      .ok (if spelling.scope.head? = some '(' ∨ e.2.length ≤ tag.length then none
        else some (e.2.drop tag.length)) := by
  have hshown : spelling.shown enumerators v = (spelling.scope ++ [':']) ++ ':' :: e.2 := by
    rw [shown, h]
    dsimp only
    rw [List.append_assoc, List.append_assoc]
    rfl
  have hlast : afterLast ':' (spelling.shown enumerators v) = e.2 := by
    rw [hshown]
    exact afterLast_append hname _
  obtain ⟨c, rest, hcons, hc⟩ : ∃ c rest, spelling.shown enumerators v = c :: rest ∧
      (c = '(' ↔ spelling.scope.head? = some '(') := by
    rw [hshown]
    cases spelling.scope with
    | nil => exact ⟨':', ':' :: e.2, rfl, by decide⟩
    | cons c scope => exact ⟨c, _, rfl, by simp⟩
  rw [hcons, cutName_cons, ← hcons, hlast]
  by_cases hparenthesis : c = '('
  · rw [if_pos hparenthesis, if_pos (.inl (hc.mp hparenthesis))]
  · rw [if_neg hparenthesis]
    by_cases hlength : e.2.length ≤ tag.length
    · rw [if_pos hlength, if_pos (.inr hlength)]
    · rw [if_neg hlength, if_neg (not_or.mpr ⟨mt hc.mpr hparenthesis, hlength⟩)]

end Spelling

namespace ScopedEnum

/-- The names of the enum are those that are cut out of what the compiler writes. -/
structure Spelled (E : ScopedEnum) (tag : Str) (enumerators : List (BitVec E.width × Str))
    (spelling : Spelling E.width) : Prop where
  declared : ∀ v, E.declared v = enumerators.any fun e => e.1 = v
  name : ∀ v, toStringOf tag (spelling.text enumerators v) = .ok (E.name v)
  identifier : ∀ e ∈ enumerators, ':' ∉ e.2

variable {E : ScopedEnum} {tag : Str} {enumerators : List (BitVec E.width × Str)} {spelling : Spelling E.width}
variable {v : BitVec E.width} {e : BitVec E.width × Str}

theorem Spelled.name_eq (h : E.Spelled tag enumerators spelling)
    (he : enumerators.find? (fun e => e.1 = v) = some e) :
    E.name v = if spelling.scope.head? = some '(' ∨ e.2.length ≤ tag.length then none
      else some (e.2.drop tag.length) := by
  have hname := h.name v
  rw [spelling.toStringOf_text,
    Spelling.cutName_enumerator he (h.identifier e (List.mem_of_find?_eq_some he))] at hname
  exact (Except.ok.inj hname).symm

theorem Spelled.name_none (h : E.Spelled tag enumerators spelling)
    (he : enumerators.find? (fun e => e.1 = v) = none) : E.name v = none := by
  have hname := h.name v
  rw [spelling.toStringOf_text, Spelling.cutName_number he] at hname
  exact (Except.ok.inj hname).symm

/-- **Which declared values have a name at compile time.** All of them exactly if the first enumerator of each value
has a name that is longer than the tag, and a scope that does not begin with '('. -/
theorem lookupCorrect_iff (h : E.Spelled tag enumerators spelling) :
    E.LookupCorrect ↔ ∀ v e, enumerators.find? (fun e => e.1 = v) = some e →
      spelling.scope.head? ≠ some '(' ∧ tag.length < e.2.length := by
  have hdeclared : ∀ v, E.declared v = (enumerators.find? fun e => e.1 = v).isSome := fun v => by
    rw [h.declared, List.isSome_find?]
  constructor
  · intro hlookup v e he
    have hsome := hlookup v
    rw [hdeclared, he, h.name_eq he] at hsome
    by_contra hnot
    rw [if_pos (by grind)] at hsome
    cases hsome
  · intro hall v
    rw [hdeclared]
    cases he : enumerators.find? fun e => e.1 = v with
    | none =>
        rw [h.name_none he]
        rfl
    | some e =>
        obtain ⟨hscope, hlength⟩ := hall v e he
        rw [h.name_eq he, if_neg (not_or.mpr ⟨hscope, Nat.not_le_of_lt hlength⟩)]
        rfl

/-- **The names at run time.** A listed value has the name of its enumerator without the tag, and any other is
invalid; where the enumerators begin with the tag, no two listed values have the same name. -/
theorem toString_spelled (h : E.Spelled tag enumerators spelling) (hscope : spelling.scope.head? ≠ some '(')
    (hlong : ∀ e ∈ enumerators, tag.length < e.2.length) {values : List (BitVec E.width)}
    (hvalues : E.values = .ok values) :
    (∀ v e, enumerators.find? (fun e => e.1 = v) = some e →
      E.toString v = .ok (if v ∈ values then e.2.drop tag.length else "<invalid>".toList)) ∧
      (∀ v, enumerators.find? (fun e => e.1 = v) = none → E.toString v = .ok "<invalid>".toList) ∧
      ((enumerators.map Prod.snd).Nodup → (∀ e ∈ enumerators, tag <+: e.2) →
        ∀ v ∈ values, ∀ v' ∈ values, E.toString v = E.toString v' → v = v') := by
  have hname : ∀ v e, enumerators.find? (fun e => e.1 = v) = some e → E.name v = some (e.2.drop tag.length) := by
    intro v e he
    rw [h.name_eq he, if_neg]
    exact not_or.mpr ⟨hscope, Nat.not_le_of_lt (hlong e (List.mem_of_find?_eq_some he))⟩
  have hlisted : ∀ v e, enumerators.find? (fun e => e.1 = v) = some e →
      E.toString v = .ok (if v ∈ values then e.2.drop tag.length else "<invalid>".toList) := by
    intro v e he
    rw [toString_eq hvalues, hname v e he]
    split_ifs <;> rfl
  refine ⟨hlisted, fun v he => ?_, fun hnodup htag v hv v' hv' heq => ?_⟩
  · rw [toString_eq hvalues, h.name_none he, ite_self]
    rfl
  · -- a listed value has an enumerator, whose name is the tag and what is left of it
    have hfind : ∀ v ∈ values, ∃ e ∈ enumerators, e.1 = v ∧ E.toString v = .ok (e.2.drop tag.length) := by
      intro v hv
      obtain ⟨name, hsome⟩ := exists_name_of_mem hvalues hv
      cases he : enumerators.find? fun e => e.1 = v with
      | none =>
          rw [h.name_none he] at hsome
          cases hsome
      | some e =>
          have hvalue : e.1 = v := by simpa using List.find?_some he
          refine ⟨e, List.mem_of_find?_eq_some he, hvalue, ?_⟩
          rw [hlisted v e he, if_pos hv]
    obtain ⟨e, he, rfl, hstring⟩ := hfind v hv
    obtain ⟨e', he', rfl, hstring'⟩ := hfind v' hv'
    have hdrop : e.2.drop tag.length = e'.2.drop tag.length :=
      Except.ok.inj (hstring.symm.trans (heq.trans hstring'))
    have hsame : e.2 = e'.2 := by
      obtain ⟨rest, hrest⟩ := htag e he
      obtain ⟨rest', hrest'⟩ := htag e' he'
      rw [← hrest, ← hrest', List.drop_left, List.drop_left] at hdrop
      rw [← hrest, ← hrest', hdrop]
    exact congrArg Prod.fst (List.inj_on_of_nodup_map hnodup he he' hsame)

/-- The enum whose names are those of its enumerators without the tag. -/
theorem spelled_ofEnumerators {width : Nat} (width_mem : width ∈ [8, 16, 32, 64]) (flag : Bool)
    (startIndex : BitVec 64) (tag : Str) {enumerators : List (BitVec width × Str)} {spelling : Spelling width}
    (hscope : spelling.scope.head? ≠ some '(') (hlong : ∀ e ∈ enumerators, tag.length < e.2.length)
    (hidentifier : ∀ e ∈ enumerators, ':' ∉ e.2) :
    (ofEnumerators width width_mem flag startIndex
      (enumerators.map fun e => (e.1, e.2.drop tag.length))).Spelled tag enumerators spelling := by
  have hdeclared : ∀ v : BitVec width, (enumerators.map fun e => (e.1, e.2.drop tag.length)).any (fun e => e.1 = v) =
      enumerators.any fun e => e.1 = v := fun v => List.any_map
  have hname : ∀ v : BitVec width, toStringOf tag (spelling.text enumerators v) =
      .ok (((enumerators.map fun e => (e.1, e.2.drop tag.length)).find? fun e => e.1 = v).map (·.2)) := by
    intro v
    rw [spelling.toStringOf_text, List.find?_map, Option.map_map]
    show _ = Except.ok ((enumerators.find? fun e => e.1 = v).map _)
    cases he : enumerators.find? fun e => e.1 = v with
    | none => exact Spelling.cutName_number he
    | some e =>
        have hmem := List.mem_of_find?_eq_some he
        rw [Spelling.cutName_enumerator he (hidentifier e hmem), if_neg]
        · rfl
        · exact not_or.mpr ⟨hscope, Nat.not_le_of_lt (hlong e hmem)⟩
  exact ⟨hdeclared, hname, hidentifier⟩

end ScopedEnum

/-- The enumerators of `fp::Result`. -/
def Result.enumerators : List (BitVec 32 × Str) :=
  [(0, "eSuccess".toList), (1, "eNothingToRecieve".toList), (2, "eNothingToAccept".toList),
    (-1, "eFailure".toList), (-2, "eSaturated".toList)]

/-- What GCC writes for them. -/
def Result.spelling : Spelling 32 where
  before := "consteval std::optional<std::basic_string_view<char> > fp::utils::toString() ".toList ++
    "[with Enum = fp::Result; Enum ".toList
  scope := "fp::Result".toList
  number v := "fp::Result)".toList ++ v.toInt.repr.toList
  first := by decide +kernel

theorem Result.spelled : Result.scopedEnum.Spelled "e".toList Result.enumerators Result.spelling :=
  @ScopedEnum.spelled_ofEnumerators 32 (by decide) false (-2) "e".toList Result.enumerators Result.spelling
    (by decide) (by decide) (by decide)

theorem Result.long_enumerators : ∀ e ∈ Result.enumerators, "e".toList.length < e.2.length := by decide

theorem Result.lookupCorrect : Result.scopedEnum.LookupCorrect :=
  (ScopedEnum.lookupCorrect_iff Result.spelled).mpr fun _ e he =>
    ⟨by decide, Result.long_enumerators e (List.mem_of_find?_eq_some he)⟩

theorem Result.toString_saturated : Result.scopedEnum.toString (-2) = .ok "Saturated".toList ∧
    ∀ v ∈ [-2, -1, 0, 1, 2], ∀ v' ∈ [-2, -1, 0, 1, 2],
      Result.scopedEnum.toString v = Result.scopedEnum.toString v' → v = v' := by
  have htag : ∀ e ∈ Result.enumerators, "e".toList <+: e.2 := by decide
  obtain ⟨hlisted, -, hinj⟩ := ScopedEnum.toString_spelled Result.spelled (by decide) Result.long_enumerators
    Result.values_scopedEnum
  exact ⟨hlisted (-2) (-2, "eSaturated".toList) rfl, hinj (by decide) htag⟩

end Fipper
