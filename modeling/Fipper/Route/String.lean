import Fipper.Basic
import Fipper.Lib.Text

/-!
# `RouteString`

A `std::string_view::iterator` is a position in its string. The extractors of a parameter pack are a
list, one for each parameter; `RouteStringExtractor` is what a specialisation has to provide, and
`RouteString<std::string, ...>` is the case `StringExtractor`.

* `generateRouteString` : the constructor's walk over the template, with its throws;
* `RouteString` : a template the constructor has accepted, with what it recorded;
* `isInstance` : the matcher.
-/

namespace Fipper

open Lib

/-- Why a constructor does not give a route string: it throws, or it goes past the end. -/
inductive Rejected
  | thrown (message : String)
  | pastTheEnd
  deriving DecidableEq, Repr

/-- The specialisations of `RouteStringExtractor<T>`, for values `V`. -/
class RouteStringExtractor (E : Type) (V : outParam Type) where
  instantiate : E → Str → Except Rejected E
  extract : E → Str → Option V

/-- `RouteStringExtractor<std::string>`. -/
structure StringExtractor where
  notEmpty : Bool := false
  deriving DecidableEq, Repr

namespace StringExtractor

def instantiate (extractor : StringExtractor) (str : Str) : Except Rejected StringExtractor :=
  if str = [] then .ok extractor
  else if str ≠ "not_empty".toList then
    .error (.thrown "Invalid route string parameter<std::string> specifier : the specifier must be either empty of 'not_empty'")
  else .ok { extractor with notEmpty := true }

def extract (extractor : StringExtractor) (str : Str) : Option Str :=
  if extractor.notEmpty && str.isEmpty then none else some str

instance : RouteStringExtractor StringExtractor Str := ⟨instantiate, extract⟩

end StringExtractor

/-! ## Construction -/

/-- `__checkRouteStringForNoParam` on the part of `str` from `begin`. -/
def checkRouteStringForNoParam (str : Str) (begin : Nat) : Except Rejected Unit :=
  if find str begin '{' ≠ str.length ∨ find str begin '}' ≠ str.length then
    .error (.thrown "Invalid route string : more argument than necessary provided")
  else .ok ()

section
variable {E V : Type} [RouteStringExtractor E V]

/-- `__generateRouteString` from the parameter whose extractor is the first of the list: the names
and the instantiated extractors. -/
def generateRouteString (str : Str) (begin : Nat) : List E → Except Rejected (List Str × List E)
  | [] => .ok ([], [])
  | extractor :: extractors =>
      let brace := find str begin '{'
      if brace = str.length then
        .error (.thrown "Invalid route string : it has not enough parameter")
      else if brace = begin then
        .error (.thrown "Invalid route string : it starts with the parameter specifier and not '/'")
      else if str[brace - 1]? ≠ some '/' then
        .error (.thrown "Invalid route string : it doesn't have a '/' before parameter specifier")
      else
      let it := min (find str brace ':') (find str brace '}')
      if it = str.length then .error (.thrown "Invalid route string : \x7b was never closed")
      else
      let begin := if str[it]? = some ':' then it + 1 else it
      let close := find str begin '}'
      match RouteStringExtractor.instantiate extractor (slice str begin close) with
      | .error rejected => .error rejected
      | .ok extractor =>
      -- `++it` when no '}' was found
      if close = str.length then .error .pastTheEnd
      else if close + 1 ≠ str.length ∧ str[close + 1]? ≠ some '/' then
        .error (.thrown "Invalid route string : parameter specifier is not at end of string or followed by '/'")
      else do
        let (names, instantiated) ← generateRouteString str (close + 1) extractors
        if extractors.isEmpty then checkRouteStringForNoParam str (close + 1)
        return (slice str (brace + 1) it :: names, extractor :: instantiated)

theorem of_ite_error {ε α : Type} {p : Prop} [Decidable p] {e : ε} {x : Except ε α} {a : α}
    (h : (if p then .error e else x) = .ok a) : x = .ok a := by
  split at h
  · cases h
  · exact h

theorem exists_of_bind_eq_ok {ε α β : Type} {x : Except ε α} {f : α → Except ε β} {b : β}
    (h : x >>= f = .ok b) : ∃ a, x = .ok a ∧ f a = .ok b := by
  cases x with
  | error e => cases h
  | ok a => exact ⟨a, rfl, h⟩

theorem exists_of_map_eq_ok {ε α β : Type} {x : Except ε α} {f : α → β} {b : β}
    (h : x.map f = .ok b) : ∃ a, x = .ok a ∧ b = f a := by
  cases x with
  | error e => cases h
  | ok a =>
      cases h
      exact ⟨a, rfl, rfl⟩

/-- One name and one extractor for each parameter. -/
theorem length_generateRouteString {str : Str} {begin : Nat} {initial : List E} {names : List Str}
    {extractors : List E} (h : generateRouteString str begin initial = .ok (names, extractors)) :
    names.length = initial.length ∧ extractors.length = initial.length := by
  induction initial generalizing begin names extractors with
  | nil =>
      cases h
      exact ⟨rfl, rfl⟩
  | cons extractor initial ih =>
      rw [generateRouteString] at h
      replace h := of_ite_error (of_ite_error (of_ite_error (of_ite_error h)))
      dsimp only at h
      split at h
      · cases h
      next extractor' hext =>
      obtain ⟨⟨names', extractors'⟩, hrest, h⟩ :=
        exists_of_bind_eq_ok (of_ite_error (of_ite_error h))
      obtain ⟨hnames, hextractors⟩ := ih hrest
      have hlength : names.length = names'.length + 1 ∧ extractors.length = extractors'.length + 1 := by
        split at h
        · obtain ⟨_, -, h⟩ := exists_of_bind_eq_ok h
          cases h
          exact ⟨rfl, rfl⟩
        · cases h
          exact ⟨rfl, rfl⟩
      rw [hlength.1, hlength.2, hnames, hextractors]
      exact ⟨rfl, rfl⟩

end

/-- `RouteString<Params...>`: the members, and that the constructor has accepted the text, with
`initial` the extractors of the parameters as they are value-initialised. -/
structure RouteString (E : Type) {V : Type} [RouteStringExtractor E V] where
  str : Str
  paramNames : List Str
  extractors : List E
  constructed : ∃ initial : List E, initial ≠ [] ∧
    generateRouteString str 0 initial = .ok (paramNames, extractors)

namespace RouteString
variable {E V : Type} [RouteStringExtractor E V]

/-- The constructor. -/
def construct (str : Str) (initial : List E) (h : initial ≠ []) : Except Rejected (RouteString E) :=
  match hgen : generateRouteString str 0 initial with
  | .ok (paramNames, extractors) => .ok ⟨str, paramNames, extractors, initial, h, hgen⟩
  | .error rejected => .error rejected

theorem construct_eq_ok {str : Str} {initial : List E} {h : initial ≠ []} {R : RouteString E}
    (hR : construct str initial h = .ok R) :
    R.str = str ∧ generateRouteString str 0 initial = .ok (R.paramNames, R.extractors) := by
  unfold construct at hR
  split at hR
  · next paramNames extractors hgen =>
      cases hR
      exact ⟨rfl, hgen⟩
  · cases hR

theorem construct_of_ok {str : Str} {initial : List E} (h : initial ≠ []) {paramNames : List Str}
    {extractors : List E} (hgen : generateRouteString str 0 initial = .ok (paramNames, extractors)) :
    ∃ R : RouteString E, construct str initial h = .ok R ∧ R.paramNames = paramNames ∧
      R.extractors = extractors := by
  unfold construct
  split
  · next paramNames' extractors' hgen' =>
      rw [hgen', Except.ok.injEq, Prod.mk.injEq] at hgen
      exact ⟨_, rfl, hgen.1, hgen.2⟩
  · next rejected hgen' =>
      rw [hgen'] at hgen
      cases hgen

theorem construct_eq_error_iff {str : Str} {initial : List E} (h : initial ≠ []) {rejected : Rejected} :
    construct str initial h = .error rejected ↔ generateRouteString str 0 initial = .error rejected := by
  unfold construct
  split
  · next hgen =>
      refine ⟨nofun, fun herror => ?_⟩
      rw [hgen] at herror
      cases herror
  · next hgen => rw [hgen, Except.error.injEq, Except.error.injEq]

end RouteString

/-- `RouteString<>`: the text, without any brace. -/
structure PlainRouteString where
  str : Str
  constructed : checkRouteStringForNoParam str 0 = .ok ()

theorem mem_of_find_ne {str : Str} {c : Char} (h : find str 0 c ≠ str.length) : c ∈ str := by
  by_contra hc
  exact h (by rw [find, List.drop_zero, List.idxOf_of_notMem hc, Nat.zero_add])

theorem PlainRouteString.notMem (r : PlainRouteString) : '{' ∉ r.str := by
  intro hc
  have h := r.constructed
  rw [checkRouteStringForNoParam, if_pos] at h
  · cases h
  · refine .inl ?_
    have := List.idxOf_lt_length_of_mem hc
    rw [find, List.drop_zero]
    omega

section
variable {E V : Type} [RouteStringExtractor E V]

theorem RouteString.mem (r : RouteString E) : '{' ∈ r.str := by
  obtain ⟨initial, hne, h⟩ := r.constructed
  cases initial with
  | nil => exact absurd rfl hne
  | cons extractor extractors =>
      refine mem_of_find_ne fun hnone => ?_
      rw [generateRouteString] at h
      simp only [hnone, if_true] at h
      cases h

end

/-! ## Matching -/

/-- A search that starts before the end of the text and looks for '/' from the next '{' on gets
further. -/
theorem lt_find_find {str : Str} {i : Nat} (h : i < str.length) :
    i < find str (find str i '{') '/' := by
  have hle := le_find str (find str i '{') '/'
  rcases (le_find str i '{').eq_or_lt with heq | hlt
  · -- the text goes on with '{', which is not '/'
    have hbrace : (str.drop i).idxOf '{' = 0 := by
      unfold find at heq
      omega
    have hdrop : str.drop i = str[i] :: str.drop (i + 1) := List.drop_eq_getElem_cons h
    have hi : str[i] = '{' := by
      by_contra hne
      rw [hdrop, List.idxOf_cons_ne _ hne] at hbrace
      cases hbrace
    rw [← heq, find, hdrop, hi, List.idxOf_cons_ne _ (by decide)]
    omega
  · omega

/-- The loop of `isInstance`: the cursors stay within their strings. -/
def isInstanceLoop (str route : Str) (beginStr beginRoute : Nat) (hs : beginStr ≤ str.length)
    (hr : beginRoute ≤ route.length) : Bool :=
  if h : beginStr ≠ str.length ∧ beginRoute ≠ route.length then
    let it := find str beginStr '{'
    let length := it - beginStr
    let availableLength := route.length - beginRoute
    if hlength : length > availableLength then false
    else if slice str beginStr it ≠ slice route beginRoute (beginRoute + length) then false
    else
      let nextStr := find str it '/'
      let nextRoute := find route (beginRoute + length) '/'
      if xor (nextStr == str.length) (nextRoute == route.length) then false
      else isInstanceLoop str route nextStr nextRoute (find_le (find_le hs _) _)
        (find_le (by omega) _)
  else true
termination_by str.length - beginStr
decreasing_by
  have hlt : beginStr < str.length := Nat.lt_of_le_of_ne hs h.1
  have hnext := lt_find_find hlt
  omega

namespace RouteString
variable {E V : Type} [RouteStringExtractor E V]

def isInstance (routeString : RouteString E) (route : Str) : Bool :=
  isInstanceLoop routeString.str route 0 0 (Nat.zero_le _) (Nat.zero_le _)

end RouteString

namespace PlainRouteString

def isInstance (routeString : PlainRouteString) (route : Str) : Bool := routeString.str == route

end PlainRouteString

/-- A `RouteStringBase`, of either class. -/
inductive RouteStringBase (E : Type) {V : Type} [RouteStringExtractor E V]
  | plain (routeString : PlainRouteString)
  | params (routeString : RouteString E)

namespace RouteStringBase
variable {E V : Type} [RouteStringExtractor E V]

def getString : RouteStringBase E → Str
  | plain routeString => routeString.str
  | params routeString => routeString.str

def isInstance (route : Str) : RouteStringBase E → Bool
  | plain routeString => routeString.isInstance route
  | params routeString => routeString.isInstance route

/-- `operator==`. -/
def eq (r r' : RouteStringBase E) : Bool := r.getString == r'.getString

@[simp] theorem eq_iff {r r' : RouteStringBase E} : r.eq r' = true ↔ r.getString = r'.getString :=
  beq_iff_eq

/-- Route strings with the same text accept the same routes. -/
theorem isInstance_congr {r r' : RouteStringBase E} (h : r.getString = r'.getString) (route : Str) :
    r.isInstance route = r'.isInstance route := by
  cases r with
  | plain r =>
      cases r' with
      | plain r' => exact congrArg (· == route) h
      | params r' =>
          have h : r.str = r'.str := h
          exact absurd (h ▸ r'.mem) r.notMem
  | params r =>
      cases r' with
      | plain r' =>
          have h : r.str = r'.str := h
          exact absurd (h ▸ r.mem) r'.notMem
      | params r' =>
          show isInstanceLoop r.str route 0 0 _ _ = isInstanceLoop r'.str route 0 0 _ _
          congr 1

end RouteStringBase

end Fipper
