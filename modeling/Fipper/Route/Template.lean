import Fipper.Route.String

/-!
# Route templates

What a route string is meant to say: literals with parameters between them,
`lit0 {name1[:spec1]} lit1 ... {namen[:specn]} litn`.

* `Template.render` writes a template, `Template.fill` puts values in the place of its parameters;
* `Slashed` : a parameter stands between '/' and '/' or the end;
* `slashed_of_accepted` : the constructor accepts no other template.
-/

namespace Fipper

open Lib

/-- `{name}` or `{name:spec}`. -/
structure Param where
  name : Str
  spec : Option Str
  deriving DecidableEq, Repr

/-- What stands between the braces. -/
def Param.text (p : Param) : Str :=
  match p.spec with
  | none => p.name
  | some spec => p.name ++ ':' :: spec

/-- Behind the first ':' stands the specifier. -/
theorem Param.onward_text {p : Param} (hname : ':' ∉ p.name) :
    (onward ':' p.text).tail = p.spec.getD [] := by
  unfold Param.text
  cases p.spec with
  | none => rw [onward_eq_nil_iff.mpr hname]; rfl
  | some spec => simp only [onward_append hname, onward_cons_self, List.tail_cons, Option.getD_some]

/-- The text of a literal and the parameters after it, each with the literal that follows. -/
def renderFrom (lit : Str) : List (Param × Str) → Str
  | [] => lit
  | (p, lit') :: tail => lit ++ '{' :: (p.text ++ '}' :: renderFrom lit' tail)

theorem renderFrom_cons_inj {lit lit' l l' : Str} {p p' : Param} {tail tail' : List (Param × Str)}
    (hlit : '{' ∉ lit) (hlit' : '{' ∉ lit') (hp : '}' ∉ p.text) (hp' : '}' ∉ p'.text) :
    renderFrom lit ((p, l) :: tail) = renderFrom lit' ((p', l') :: tail') ↔
      lit = lit' ∧ p.text = p'.text ∧ renderFrom l tail = renderFrom l' tail' := by
  rw [renderFrom, renderFrom, append_cons_inj hlit hlit', append_cons_inj hp hp']

/-- The same with values for the parameters. -/
def fillFrom (lit : Str) : List (Param × Str) → List Str → Str
  | (_, lit') :: tail, v :: vs => lit ++ v ++ fillFrom lit' tail vs
  | _, _ => lit

/-- The last literal. -/
def lastFrom (lit : Str) : List (Param × Str) → Str
  | [] => lit
  | (_, lit') :: tail => lastFrom lit' tail

/-- Braces and slashes are not where they would be read as part of the syntax. -/
structure PlainText (lit : Str) (tail : List (Param × Str)) : Prop where
  literal : ∀ l ∈ lit :: tail.map Prod.snd, '{' ∉ l ∧ '}' ∉ l
  param : ∀ p ∈ tail.map Prod.fst, '/' ∉ p.text ∧ '{' ∉ p.text ∧ '}' ∉ p.text

theorem PlainText.tail {lit lit' : Str} {p : Param} {tail : List (Param × Str)}
    (h : PlainText lit ((p, lit') :: tail)) : PlainText lit' tail where
  literal l hl := h.literal l (List.mem_cons_of_mem _ hl)
  param p' hp' := h.param p' (List.mem_cons_of_mem _ hp')

/-- The literal before a parameter ends with '/', the one after it is the empty end or begins with
'/'. -/
def Slashed (lit : Str) : List (Param × Str) → Prop
  | [] => True
  | (_, lit') :: tail => lit.getLast? = some '/' ∧
      ((lit' = [] ∧ tail = []) ∨ lit'.head? = some '/') ∧ Slashed lit' tail

/-- A template with at least one parameter. -/
structure Template where
  head : Str
  tail : List (Param × Str)
  tail_ne : tail ≠ []
  plainText : PlainText head tail

namespace Template

def render (T : Template) : Str := renderFrom T.head T.tail

def fill (T : Template) (vs : List Str) : Str := fillFrom T.head T.tail vs

/-- The literal after the last parameter. -/
def last (T : Template) : Str := lastFrom T.head T.tail

end Template

/-! ## The constructor's cursors

`around pre lit inner rest` is a text whose part from `pre` on begins with a literal and a parameter.
-/

def around (pre lit inner rest : Str) : Str := pre ++ (lit ++ '{' :: (inner ++ '}' :: rest))

section
variable {pre lit inner rest : Str}

theorem length_around :
    (around pre lit inner rest).length = pre.length + lit.length + 1 + inner.length + 1 + rest.length := by
  simp [around]
  omega

theorem find_opening (hlit : '{' ∉ lit) :
    find (around pre lit inner rest) pre.length '{' = pre.length + lit.length :=
  find_between hlit (le_refl _) (Nat.le_add_right _ _)

theorem find_closing (hinner : '}' ∉ inner) {i : Nat} (hlo : pre.length + lit.length ≤ i)
    (hhi : i ≤ pre.length + lit.length + 1 + inner.length) :
    find (around pre lit inner rest) i '}' = pre.length + lit.length + 1 + inner.length := by
  have hsplit : around pre lit inner rest = (pre ++ lit) ++ (('{' :: inner) ++ '}' :: rest) := by
    simp [around]
  rw [hsplit, find_between (by simpa using hinner) (by simpa using hlo) (by simp; omega)]
  simp
  omega

/-- The last character before a position. -/
theorem getElem?_last (hne : lit ≠ []) (s : Str) :
    (pre ++ (lit ++ s))[pre.length + lit.length - 1]? = lit.getLast? := by
  have hpos : 0 < lit.length := List.length_pos_of_ne_nil hne
  rw [List.getElem?_append_right (by omega), List.getElem?_append_left (by omega),
    List.getLast?_eq_getElem?]
  congr 1
  omega

theorem getElem?_before (hne : lit ≠ []) :
    (around pre lit inner rest)[pre.length + lit.length - 1]? = lit.getLast? := getElem?_last hne _

/-- A search behind the opening brace. -/
theorem find_inside {c : Char} (hc : '{' ≠ c) (s : Str) :
    find (pre ++ (lit ++ '{' :: s)) (pre.length + lit.length) c =
      pre.length + lit.length + 1 + (upTo c s).length := by
  have hdrop : (pre ++ (lit ++ '{' :: s)).drop (pre.length + lit.length) = '{' :: s := by
    rw [← List.append_assoc, ← List.length_append, List.drop_left]
  rw [find, hdrop, List.idxOf_cons_ne _ hc, length_upTo]
  omega

theorem getElem?_inside {i : Nat} (hi : i < inner.length) :
    (around pre lit inner rest)[pre.length + lit.length + 1 + i]? = inner[i]? := by
  have hsplit : around pre lit inner rest = (pre ++ lit ++ ['{']) ++ (inner ++ '}' :: rest) := by
    simp [around]
  have hlen : (pre ++ lit ++ ['{']).length = pre.length + lit.length + 1 := by simp; omega
  rw [hsplit, List.getElem?_append_right (by omega), hlen, Nat.add_sub_cancel_left,
    List.getElem?_append_left hi]

theorem getElem?_closing (k : Nat) :
    (around pre lit inner rest)[pre.length + lit.length + 1 + inner.length + k]? = ('}' :: rest)[k]? := by
  have hsplit : around pre lit inner rest = (pre ++ (lit ++ '{' :: inner)) ++ '}' :: rest := by
    simp [around]
  rw [hsplit, List.getElem?_append_right (by simp; omega)]
  congr 1
  simp
  omega

/-- The name ends at the first ':' or at the brace. -/
theorem find_name_end (hinner : '}' ∉ inner) :
    min (find (around pre lit inner rest) (pre.length + lit.length) ':')
        (find (around pre lit inner rest) (pre.length + lit.length) '}') =
      pre.length + lit.length + 1 + (upTo ':' inner).length := by
  rw [find_closing hinner (le_refl _) (by omega), around, find_inside (by decide), length_upTo,
    length_upTo]
  by_cases hcolon : ':' ∈ inner
  · have := List.idxOf_lt_length_of_mem hcolon
    rw [List.idxOf_append_of_mem hcolon]
    omega
  · rw [List.idxOf_append_of_notMem hcolon, List.idxOf_of_notMem hcolon]
    omega

theorem length_cut (c : Char) (s : Str) :
    (upTo c s).length + (onward c s).length = s.length := by
  rw [← List.length_append, upTo_append_onward]

theorem slice_name :
    slice (around pre lit inner rest) (pre.length + lit.length + 1)
      (pre.length + lit.length + 1 + (upTo ':' inner).length) = upTo ':' inner := by
  have hsplit : around pre lit inner rest =
      (pre ++ (lit ++ ['{'])) ++ (upTo ':' inner ++ (onward ':' inner ++ '}' :: rest)) := by
    rw [← List.append_assoc (upTo ':' inner), upTo_append_onward]
    simp [around]
  exact slice_eq hsplit (by simp; omega) rfl

theorem slice_spec :
    slice (around pre lit inner rest)
      (pre.length + lit.length + 1 + inner.length - (onward ':' inner).tail.length)
      (pre.length + lit.length + 1 + inner.length) = (onward ':' inner).tail := by
  have hcut := length_cut ':' inner
  by_cases hnil : onward ':' inner = []
  · rw [hnil]
    simp [slice]
  · obtain ⟨spec, hspec⟩ := onward_eq_cons hnil
    rw [hspec, List.length_cons] at hcut
    rw [hspec, List.tail_cons]
    have hsplit : around pre lit inner rest =
        (pre ++ (lit ++ '{' :: (upTo ':' inner ++ [':']))) ++ (spec ++ '}' :: rest) := by
      have hinner : upTo ':' inner ++ ':' :: spec = inner := by rw [← hspec, upTo_append_onward]
      nth_rewrite 1 [← hinner]
      simp [around]
    exact slice_eq hsplit (by simp; omega) (by omega)

/-- The specifier begins behind the ':', if there is one. -/
theorem spec_begin {it : Nat} (hit : it = pre.length + lit.length + 1 + (upTo ':' inner).length) :
    (if (around pre lit inner rest)[it]? = some ':' then it + 1 else it) =
      pre.length + lit.length + 1 + inner.length - (onward ':' inner).tail.length := by
  have hlen := length_cut ':' inner
  by_cases hnil : onward ':' inner = []
  · rw [hnil, List.length_nil] at hlen
    have hat := @getElem?_closing pre lit inner rest 0
    rw [if_neg, hnil]
    · simp
      omega
    · rw [show it = pre.length + lit.length + 1 + inner.length + 0 by omega, hat]
      simp
  · obtain ⟨spec, hspec⟩ := onward_eq_cons hnil
    rw [hspec, List.length_cons] at hlen
    rw [if_pos, hspec]
    · simp
      omega
    · rw [hit, getElem?_inside (by omega)]
      nth_rewrite 1 [← upTo_append_onward ':' inner]
      rw [hspec]
      simp

end

/-! ## The constructor on a template -/

section
variable {E V : Type} [RouteStringExtractor E V]

/-- What `generateRouteString` does after a parameter: the parameters that are left, and the check of
the text after the last. -/
def generateRest (str : Str) (begin : Nat) (extractors : List E) :
    Except Rejected (List Str × List E) := do
  let result ← generateRouteString str begin extractors
  if extractors.isEmpty then checkRouteStringForNoParam str begin
  return result

@[simp] theorem generateRest_cons (str : Str) (begin : Nat) (extractor : E) (extractors : List E) :
    generateRest str begin (extractor :: extractors) =
      generateRouteString str begin (extractor :: extractors) := by
  unfold generateRest
  cases generateRouteString str begin (extractor :: extractors) <;> rfl

/-- One parameter: '/' before it and after it, its specifier, then the rest. -/
theorem generateRouteString_around {lit inner : Str} (hlit : '{' ∉ lit) (hinner : '}' ∉ inner)
    (pre rest : Str) (extractor : E) (extractors : List E) :
    ∃ before after : String,
      generateRouteString (around pre lit inner rest) pre.length (extractor :: extractors) =
        if lit.getLast? ≠ some '/' then .error (.thrown before)
        else match RouteStringExtractor.instantiate extractor (onward ':' inner).tail with
        | .error rejected => .error rejected
        | .ok extractor' =>
            if ¬(rest = [] ∨ rest.head? = some '/') then .error (.thrown after)
            else (generateRest (around pre lit inner rest)
              (pre.length + lit.length + 1 + inner.length + 1) extractors).map
                fun result => (upTo ':' inner :: result.1, extractor' :: result.2) := by
  have hlength := @length_around pre lit inner rest
  have hcut := length_cut ':' inner
  have htail : (onward ':' inner).tail.length ≤ (onward ':' inner).length := by simp
  have hfollow : (pre.length + lit.length + 1 + inner.length + 1 ≠ (around pre lit inner rest).length ∧
      (around pre lit inner rest)[pre.length + lit.length + 1 + inner.length + 1]? ≠ some '/') ↔
      ¬(rest = [] ∨ rest.head? = some '/') := by
    rw [getElem?_closing 1, hlength]
    cases rest <;> simp
  simp only [generateRouteString, find_opening hlit, find_name_end hinner, spec_begin rfl]
  rw [find_closing hinner (by omega) (Nat.sub_le _ _), slice_spec, slice_name, if_neg (by omega)]
  by_cases hnil : lit = []
  · refine ⟨_, "", (if_pos (by simp [hnil])).trans (if_pos (by simp [hnil])).symm⟩
  · rw [if_neg (by have := List.length_pos_of_ne_nil hnil; omega), getElem?_before hnil]
    refine ⟨_, "Invalid route string : parameter specifier is not at end of string or followed by '/'",
      if_congr Iff.rfl rfl ?_⟩
    rw [if_neg (by omega)]
    cases RouteStringExtractor.instantiate extractor (onward ':' inner).tail with
    | error rejected => rfl
    | ok extractor' =>
        dsimp only
        rw [if_neg (by omega)]
        refine if_congr hfollow rfl ?_
        unfold generateRest
        cases generateRouteString (around pre lit inner rest) (pre.length + lit.length + 1 + inner.length + 1)
            extractors with
        | error rejected => rfl
        | ok result =>
            by_cases hempty : extractors.isEmpty = true
            · simp only [hempty, if_true]
              cases checkRouteStringForNoParam (around pre lit inner rest)
                (pre.length + lit.length + 1 + inner.length + 1) <;> rfl
            · simp only [hempty]
              rfl

/-- One parameter of an accepted text: what stands around it, what is recorded of it, and that the
rest is accepted too. -/
theorem generateRouteString_cons {pre lit inner rest : Str} (hlit : '{' ∉ lit) (hinner : '}' ∉ inner)
    {extractor : E} {extractors : List E} {result : List Str × List E}
    (h : generateRouteString (around pre lit inner rest) pre.length (extractor :: extractors) =
      .ok result) :
    lit.getLast? = some '/' ∧ (rest = [] ∨ rest.head? = some '/') ∧
      ∃ extractor' names instantiated,
        RouteStringExtractor.instantiate extractor (onward ':' inner).tail = .ok extractor' ∧
        result = (upTo ':' inner :: names, extractor' :: instantiated) ∧
        generateRouteString (around pre lit inner rest) (pre.length + lit.length + 1 + inner.length + 1) extractors =
          .ok (names, instantiated) := by
  obtain ⟨before, after, hstep⟩ := generateRouteString_around hlit hinner pre rest extractor extractors
  rw [hstep] at h
  split at h
  · cases h
  next hslash =>
  split at h
  · cases h
  next extractor' hext =>
  split at h
  · cases h
  next hfollow =>
  refine ⟨not_not.mp hslash, not_not.mp hfollow, extractor', ?_⟩
  obtain ⟨result', hresult, rfl⟩ := exists_of_map_eq_ok h
  obtain ⟨⟨names, instantiated⟩, hgen, hcheck⟩ := exists_of_bind_eq_ok hresult
  refine ⟨names, instantiated, hext, ?_, hgen⟩
  split at hcheck
  · obtain ⟨_, -, hcheck⟩ := exists_of_bind_eq_ok hcheck
    cases hcheck
    rfl
  · cases hcheck
    rfl

theorem renderFrom_head {lit : Str} {tail : List (Param × Str)} :
    (renderFrom lit tail = [] ∨ (renderFrom lit tail).head? = some '/') ↔
      (lit = [] ∧ tail = []) ∨ lit.head? = some '/' := by
  cases lit with
  | nil => cases tail <;> simp [renderFrom]
  | cons c lit => cases tail <;> simp [renderFrom]

theorem around_assoc (pre lit inner rest : Str) :
    around pre lit inner rest = (pre ++ (lit ++ '{' :: (inner ++ ['}']))) ++ rest := by simp [around]

theorem length_param (pre lit inner : Str) :
    pre.length + lit.length + 1 + inner.length + 1 =
      (pre ++ (lit ++ '{' :: (inner ++ ['}']))).length := by
  simp
  omega

/-- An accepted template has a slash on both sides of every parameter. -/
theorem slashed_of_accepted {pre lit : Str} {tail : List (Param × Str)} (hplain : PlainText lit tail)
    {extractors : List E} (hn : extractors.length = tail.length) {result : List Str × List E}
    (h : generateRouteString (pre ++ renderFrom lit tail) pre.length extractors = .ok result) :
    Slashed lit tail := by
  induction tail generalizing pre lit extractors result with
  | nil => trivial
  | cons part tail ih =>
      obtain ⟨p, lit'⟩ := part
      cases extractors with
      | nil => cases hn
      | cons extractor extractors =>
          have hlit := (hplain.literal lit List.mem_cons_self).1
          have hparam := (hplain.param p List.mem_cons_self).2.2
          obtain ⟨hlast, hfollow, _, _, _, -, -, h'⟩ := generateRouteString_cons hlit hparam h
          rw [around_assoc, length_param] at h'
          exact ⟨hlast, renderFrom_head.mp hfollow, ih hplain.tail (Nat.succ.inj hn) h'⟩

end

end Fipper
