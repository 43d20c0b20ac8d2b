import Fipper.Route.Template

/-!
# What the constructor accepts

The constructor of a route string with string parameters, on every text.

* `Checked` : a text with all that the constructor looks for, up to its last literal;
* `generateRest_cases` : it throws, or the text is `Checked` to its end, or the text ends within a
  parameter and the cursor goes past the end;
* `construct_render` : what it records of a template;
* `rejects_malformed_iff` : the texts for which it does what a validator should.
-/

namespace Fipper

open Lib

/-- The specifiers of a string parameter: absent, empty or `not_empty`. -/
def Specifier (spec : Option Str) : Prop :=
  spec = none ∨ spec = some [] ∨ spec = some "not_empty".toList

/-- The extractors of `n` string parameters, as they are value-initialised. -/
abbrev stringParams (n : Nat) : List StringExtractor := List.replicate n {}

/-- Literals and parameters as the constructor sees them: a literal is what stands before the next '{',
a parameter what stands before the next '}'. The last literal is in `last`. -/
def Checked (last : Str → Prop) (lit : Str) : List (Param × Str) → Prop
  | [] => last lit
  | (p, lit') :: tail => '{' ∉ lit ∧ lit.getLast? = some '/' ∧
      (':' ∉ p.name ∧ '}' ∉ p.text ∧ Specifier p.spec) ∧
      ((lit' = [] ∧ tail = []) ∨ lit'.head? = some '/') ∧ Checked last lit' tail

/-- A literal at the end of the text. -/
def EndsPlain (lit : Str) : Prop := '{' ∉ lit ∧ '}' ∉ lit

/-- The text ends within a parameter, behind a ':' and nothing or `not_empty`. -/
def EndsOpen (text : Str) : Prop :=
  ∃ lit name spec, text = lit ++ '{' :: (name ++ ':' :: spec) ∧ '{' ∉ lit ∧
    lit.getLast? = some '/' ∧ ':' ∉ name ∧ '}' ∉ name ∧ (spec = [] ∨ spec = "not_empty".toList)

/-! ## The constructor, parameter by parameter -/

theorem StringExtractor.instantiate_eq {spec : Option Str} (h : Specifier spec) :
    RouteStringExtractor.instantiate ({} : StringExtractor) (spec.getD []) =
      .ok ⟨decide (spec = some "not_empty".toList)⟩ := by
  rcases h with rfl | rfl | rfl
  · rfl
  · rfl
  · rfl

theorem StringExtractor.instantiate_cases (str : Str) :
    (∃ message, RouteStringExtractor.instantiate ({} : StringExtractor) str = .error (.thrown message)) ∨
      str = [] ∨ str = "not_empty".toList := by
  by_cases hnil : str = []
  · exact .inr (.inl hnil)
  by_cases hne : str = "not_empty".toList
  · exact .inr (.inr hne)
  · exact .inl ⟨_, (if_neg hnil).trans (if_pos hne)⟩

/-- What stands between the braces is a name and perhaps a specifier. -/
theorem exists_param (inner : Str) : ∃ p : Param, p.text = inner ∧ ':' ∉ p.name ∧
    p.spec.getD [] = (onward ':' inner).tail := by
  by_cases hnil : onward ':' inner = []
  · exact ⟨⟨inner, none⟩, rfl, onward_eq_nil_iff.mp hnil, by rw [hnil]; rfl⟩
  · obtain ⟨spec, hspec⟩ := onward_eq_cons hnil
    refine ⟨⟨upTo ':' inner, some spec⟩, ?_, notMem_upTo _ _, by rw [hspec]; rfl⟩
    show upTo ':' inner ++ ':' :: spec = inner
    rw [← hspec, upTo_append_onward]

theorem specifier_of_getD {spec : Option Str}
    (h : spec.getD [] = [] ∨ spec.getD [] = "not_empty".toList) : Specifier spec := by
  cases spec with
  | none => exact .inl rfl
  | some spec => exact .inr (h.imp (congrArg some) (congrArg some))

theorem find_absent {pre s : Str} {c : Char} (h : c ∉ s) :
    find (pre ++ s) pre.length c = (pre ++ s).length := by
  rw [find, List.drop_left, List.idxOf_of_notMem h, List.length_append]

theorem checkRouteStringForNoParam_eq (pre s : Str) :
    checkRouteStringForNoParam (pre ++ s) pre.length = .ok () ∧ EndsPlain s ∨
      (∃ message, checkRouteStringForNoParam (pre ++ s) pre.length = .error (.thrown message)) ∧
        ¬EndsPlain s := by
  have hfind : ∀ c, find (pre ++ s) pre.length c ≠ (pre ++ s).length ↔ c ∈ s := by
    intro c
    rw [find, List.drop_left, List.length_append, Ne, Nat.add_left_cancel_iff,
      List.idxOf_eq_length_iff, not_not]
  unfold checkRouteStringForNoParam
  rw [if_congr (or_congr (hfind '{') (hfind '}')) rfl rfl]
  by_cases hbrace : '{' ∈ s ∨ '}' ∈ s
  · exact .inr ⟨⟨_, if_pos hbrace⟩, fun hplain => not_or.mpr hplain hbrace⟩
  · exact .inl ⟨if_neg hbrace, not_or.mp hbrace⟩

/-- The text has no parameter left. -/
theorem generateRouteString_noBrace {s : Str} (hs : '{' ∉ s) (pre : Str)
    (extractor : StringExtractor) (extractors : List StringExtractor) :
    ∃ message, generateRouteString (pre ++ s) pre.length (extractor :: extractors) =
      .error (.thrown message) :=
  ⟨_, if_pos (find_absent hs)⟩

/-- Behind the ':' of a parameter that is not closed, the search for '}' finds the end. -/
theorem unclosed_specifier {pre lit inner spec str : Str} (hinner : '}' ∉ inner)
    (hspec : onward ':' inner = ':' :: spec) (hstr : pre ++ (lit ++ '{' :: inner) = str) {i : Nat}
    (hi : i = pre.length + lit.length + 1 + (upTo ':' inner).length) :
    str[i]? = some ':' ∧ find str (i + 1) '}' = str.length ∧ slice str (i + 1) str.length = spec := by
  have hcut : upTo ':' inner ++ ':' :: spec = inner := by rw [← hspec, upTo_append_onward]
  have hsplit : str = (pre ++ (lit ++ '{' :: upTo ':' inner)) ++ ([':'] ++ spec) := by
    rw [← hstr]
    nth_rewrite 1 [← hcut]
    simp
  have hname : i = (pre ++ (lit ++ '{' :: upTo ':' inner)).length := by
    rw [hi]
    simp
    omega
  have hbegin : i + 1 = ((pre ++ (lit ++ '{' :: upTo ':' inner)) ++ [':']).length := by
    rw [List.length_append, ← hname]
    rfl
  refine ⟨?_, ?_, ?_⟩
  · rw [hsplit, hname]
    exact getElem?_last (List.cons_ne_nil ':' []) spec
  · rw [hbegin, hsplit, ← List.append_assoc]
    refine find_absent fun hmem => hinner ?_
    rw [← hcut]
    exact List.mem_append_right _ (List.mem_cons_of_mem _ hmem)
  · apply slice_eq (v := []) _ hbegin
    · rw [hsplit]
      simp
      omega
    · rw [hsplit]
      simp

/-- The text ends within a parameter. -/
theorem generateRouteString_unclosed {lit inner : Str} (hlit : '{' ∉ lit) (hinner : '}' ∉ inner)
    (pre : Str) (extractor : StringExtractor) (extractors : List StringExtractor) :
    ∃ before unclosed : String,
      generateRouteString (pre ++ (lit ++ '{' :: inner)) pre.length (extractor :: extractors) =
        if lit.getLast? ≠ some '/' then .error (.thrown before)
        else if ':' ∉ inner then .error (.thrown unclosed)
        else match RouteStringExtractor.instantiate extractor (onward ':' inner).tail with
        | .error rejected => .error rejected
        | .ok _ => .error .pastTheEnd := by
  generalize hstr : pre ++ (lit ++ '{' :: inner) = str
  have hlength : str.length = pre.length + lit.length + 1 + inner.length := by
    simp [← hstr]
    omega
  have hopening : find str pre.length '{' = pre.length + lit.length := by
    rw [← hstr]
    exact find_between hlit (le_refl _) (Nat.le_add_right _ _)
  have hcolon : find str (pre.length + lit.length) ':' =
      pre.length + lit.length + 1 + (upTo ':' inner).length := by
    rw [← hstr, find_inside (by decide)]
  have hclosing : find str (pre.length + lit.length) '}' = str.length := by
    rw [hlength, ← hstr, find_inside (by decide), upTo_eq_self hinner]
  have hcut := length_cut ':' inner
  simp only [generateRouteString, hopening, hcolon, hclosing]
  rw [if_neg (by omega), Nat.min_eq_left (by omega)]
  by_cases hnil : lit = []
  · exact ⟨_, "", (if_pos (by simp [hnil])).trans (if_pos (by simp [hnil])).symm⟩
  have hslash : str[pre.length + lit.length - 1]? = lit.getLast? := by
    rw [← hstr]
    exact getElem?_last hnil _
  rw [if_neg (by have := List.length_pos_of_ne_nil hnil; omega), hslash]
  refine ⟨_, "Invalid route string : \x7b was never closed", if_congr Iff.rfl rfl ?_⟩
  by_cases hnone : ':' ∉ inner
  · rw [if_pos hnone, if_pos (by rw [upTo_eq_self hnone, hlength])]
  obtain ⟨spec, hspec⟩ := onward_eq_cons (mt onward_eq_nil_iff.mp hnone)
  rw [hspec, List.length_cons] at hcut
  obtain ⟨hat, hend, hslice⟩ := unclosed_specifier hinner hspec hstr rfl
  rw [if_neg hnone, if_neg (by omega), if_pos hat, hspec, List.tail_cons, hend, hslice]
  cases RouteStringExtractor.instantiate extractor spec with
  | error rejected => rfl
  | ok extractor' => exact if_pos rfl

/-! ## The whole text -/

/-- What is recorded of the parameters. -/
def recorded (tail : List (Param × Str)) : List Str × List StringExtractor :=
  (tail.map (·.1.name), tail.map fun part => ⟨decide (part.1.spec = some "not_empty".toList)⟩)

theorem generateRest_nil (pre s : Str) :
    generateRest (pre ++ s) pre.length (stringParams 0) =
      (checkRouteStringForNoParam (pre ++ s) pre.length).map fun _ => ([], []) := by
  show (do checkRouteStringForNoParam (pre ++ s) pre.length; pure _) = _
  cases checkRouteStringForNoParam (pre ++ s) pre.length <;> rfl

theorem Param.upTo_text {p : Param} (hname : ':' ∉ p.name) : upTo ':' p.text = p.name := by
  unfold Param.text
  cases p.spec with
  | none => exact upTo_eq_self hname
  | some spec =>
      dsimp only
      rw [upTo_append hname, upTo_cons_self, List.append_nil]

/-- A parameter of a checked text, and what is left of it. -/
theorem generateRest_checked {last : Str → Prop} {lit lit' : Str} {p : Param}
    {tail : List (Param × Str)} (h : Checked last lit ((p, lit') :: tail)) (pre : Str) (n : Nat) :
    generateRest (pre ++ renderFrom lit ((p, lit') :: tail)) pre.length (stringParams (n + 1)) =
      (generateRest ((pre ++ (lit ++ '{' :: (p.text ++ ['}']))) ++ renderFrom lit' tail)
        (pre ++ (lit ++ '{' :: (p.text ++ ['}']))).length (stringParams n)).map fun result =>
          (p.name :: result.1, ⟨decide (p.spec = some "not_empty".toList)⟩ :: result.2) := by
  obtain ⟨hlit, hslash, ⟨hname, htext, hspec⟩, hfollow, -⟩ := h
  obtain ⟨before, after, hstep⟩ := generateRouteString_around hlit htext pre (renderFrom lit' tail)
    ({} : StringExtractor) (stringParams n)
  rw [stringParams, List.replicate_succ, generateRest_cons]
  refine hstep.trans ?_
  rw [if_neg (not_not.mpr hslash), Param.onward_text hname, StringExtractor.instantiate_eq hspec]
  dsimp only
  rw [if_neg (not_not.mpr (renderFrom_head.mpr hfollow)), around_assoc, length_param,
    Param.upTo_text hname]

/-- A text that is checked to its end is accepted, and its parameters are recorded. -/
theorem generateRest_accepted {lit : Str} {tail : List (Param × Str)}
    (h : Checked EndsPlain lit tail) (pre : Str) :
    generateRest (pre ++ renderFrom lit tail) pre.length (stringParams tail.length) =
      .ok (recorded tail) := by
  induction tail generalizing pre lit with
  | nil =>
      rcases checkRouteStringForNoParam_eq pre lit with ⟨hok, -⟩ | ⟨-, hplain⟩
      · rw [renderFrom, List.length_nil, generateRest_nil, hok]
        rfl
      · exact absurd h hplain
  | cons part tail ih =>
      obtain ⟨p, lit'⟩ := part
      rw [List.length_cons, generateRest_checked h, ih h.2.2.2.2]
      rfl

/-- A text that ends within a parameter takes the cursor past its end. -/
theorem generateRest_pastTheEnd {lit : Str} {tail : List (Param × Str)}
    (h : Checked EndsOpen lit tail) (pre : Str) {n : Nat} (hn : tail.length < n) :
    generateRest (pre ++ renderFrom lit tail) pre.length (stringParams n) = .error .pastTheEnd := by
  obtain ⟨n, rfl⟩ : ∃ m, n = m + 1 := ⟨n - 1, by omega⟩
  induction tail generalizing pre lit n with
  | nil =>
      obtain ⟨lit, name, spec, rfl, hlit, hslash, hcolon, hname, hspec⟩ := h
      have hinner : '}' ∉ name ++ ':' :: spec := by
        rcases hspec with rfl | rfl <;> simp [hname]
      obtain ⟨before, unclosed, hstep⟩ := generateRouteString_unclosed hlit hinner pre
        ({} : StringExtractor) (stringParams n)
      rw [stringParams, List.replicate_succ, generateRest_cons]
      refine hstep.trans ?_
      rw [if_neg (not_not.mpr hslash), if_neg (by simp), onward_append hcolon, onward_cons_self]
      rcases hspec with rfl | rfl
      · rfl
      · rfl
  | cons part tail ih =>
      obtain ⟨p, lit'⟩ := part
      obtain ⟨n, rfl⟩ : ∃ m, n = m + 1 := ⟨n - 1, by rw [List.length_cons] at hn; omega⟩
      rw [generateRest_checked h, ih h.2.2.2.2 _ n (by rw [List.length_cons] at hn; omega)]
      rfl

/-- A text that ends within a parameter is refused, or the constructor does not see that it ends. -/
theorem unclosed_cases {lit s : Str} (hlit : '{' ∉ lit) (hclosed : '}' ∉ s) (pre : Str) (n : Nat) :
    (∃ message, generateRouteString (pre ++ (lit ++ '{' :: s)) pre.length
        (({} : StringExtractor) :: stringParams n) = .error (.thrown message)) ∨
      EndsOpen (lit ++ '{' :: s) := by
  obtain ⟨before, unclosed, hstep⟩ := generateRouteString_unclosed hlit hclosed pre
    ({} : StringExtractor) (stringParams n)
  rw [hstep]
  by_cases hslash : lit.getLast? = some '/'
  swap
  · exact .inl ⟨_, if_pos hslash⟩
  rw [if_neg (not_not.mpr hslash)]
  by_cases hcolon : ':' ∈ s
  swap
  · exact .inl ⟨_, if_pos hcolon⟩
  rw [if_neg (not_not.mpr hcolon)]
  rcases StringExtractor.instantiate_cases (onward ':' s).tail with ⟨message, hthrown⟩ | hspec
  · exact .inl ⟨message, by rw [hthrown]⟩
  obtain ⟨name, spec, rfl, hname⟩ := List.eq_append_cons_of_mem hcolon
  rw [onward_append hname, onward_cons_self, List.tail_cons] at hspec
  have hclosed : '}' ∉ name := fun hmem => hclosed (List.mem_append_left _ hmem)
  exact .inr ⟨lit, name, spec, rfl, hlit, hslash, hname, hclosed, hspec⟩

/-- A parameter is refused, or it is checked and the constructor goes on behind it. -/
theorem closed_cases {lit inner : Str} (hlit : '{' ∉ lit) (hinner : '}' ∉ inner) (pre s : Str) (n : Nat) :
    (∃ message, generateRouteString (around pre lit inner s) pre.length
        (({} : StringExtractor) :: stringParams n) = .error (.thrown message)) ∨
      lit.getLast? = some '/' ∧ (s = [] ∨ s.head? = some '/') ∧
      ∃ p : Param, p.text = inner ∧ ':' ∉ p.name ∧ Specifier p.spec ∧
        ∃ record : List Str × List StringExtractor → List Str × List StringExtractor,
          generateRouteString (around pre lit inner s) pre.length
              (({} : StringExtractor) :: stringParams n) =
            (generateRest ((pre ++ (lit ++ '{' :: (inner ++ ['}']))) ++ s)
              (pre ++ (lit ++ '{' :: (inner ++ ['}']))).length (stringParams n)).map record := by
  obtain ⟨before, after, hstep⟩ := generateRouteString_around hlit hinner pre s
    ({} : StringExtractor) (stringParams n)
  rw [hstep]
  by_cases hslash : lit.getLast? = some '/'
  swap
  · exact .inl ⟨_, if_pos hslash⟩
  rw [if_neg (not_not.mpr hslash)]
  obtain ⟨p, htext, hname, hgetD⟩ := exists_param inner
  rw [← hgetD]
  rcases StringExtractor.instantiate_cases (p.spec.getD []) with ⟨message, hthrown⟩ | hspec
  · exact .inl ⟨message, by rw [hthrown]⟩
  replace hspec := specifier_of_getD hspec
  rw [StringExtractor.instantiate_eq hspec]
  dsimp only
  by_cases hfollow : s = [] ∨ s.head? = some '/'
  swap
  · exact .inl ⟨_, if_pos hfollow⟩
  rw [if_neg (not_not.mpr hfollow), around_assoc, length_param]
  exact .inr ⟨hslash, hfollow, p, htext, hname, hspec, _, rfl⟩

/-- **What the constructor does with a text.** -/
theorem generateRest_cases (n : Nat) (pre s : Str) :
    (∃ message, generateRest (pre ++ s) pre.length (stringParams n) = .error (.thrown message)) ∨
      (∃ lit tail, s = renderFrom lit tail ∧ tail.length = n ∧ Checked EndsPlain lit tail) ∨
      ∃ lit tail, s = renderFrom lit tail ∧ tail.length < n ∧ Checked EndsOpen lit tail := by
  induction n generalizing pre s with
  | zero =>
      rcases checkRouteStringForNoParam_eq pre s with ⟨-, hplain⟩ | ⟨⟨message, herror⟩, -⟩
      · exact .inr (.inl ⟨s, [], rfl, rfl, hplain⟩)
      · exact .inl ⟨message, by rw [generateRest_nil, herror]; rfl⟩
  | succ n ih =>
      rw [stringParams, List.replicate_succ, generateRest_cons]
      by_cases hbrace : '{' ∈ s
      swap
      · exact .inl (generateRouteString_noBrace hbrace pre _ _)
      obtain ⟨lit, s, rfl, hlit⟩ := List.eq_append_cons_of_mem hbrace
      by_cases hclosed : '}' ∈ s
      swap
      · rcases unclosed_cases hlit hclosed pre n with hthrown | hopen
        · exact .inl hthrown
        · exact .inr (.inr ⟨_, [], rfl, Nat.succ_pos n, hopen⟩)
      obtain ⟨inner, s, rfl, hinner⟩ := List.eq_append_cons_of_mem hclosed
      rcases closed_cases hlit hinner pre s n with
        hthrown | ⟨hslash, hfollow, p, rfl, hname, hspec, record, hstep⟩
      · exact .inl hthrown
      have hstep : generateRouteString (pre ++ (lit ++ '{' :: (p.text ++ '}' :: s))) pre.length _ = _ :=
        hstep
      rw [hstep]
      rcases ih (pre ++ (lit ++ '{' :: (p.text ++ ['}']))) s with
        ⟨message, hthrown⟩ | ⟨lit', tail, rfl, hn, hchecked⟩ | ⟨lit', tail, rfl, hn, hchecked⟩
      · exact .inl ⟨message, by rw [hthrown]; rfl⟩
      · exact .inr (.inl ⟨lit, (p, lit') :: tail, rfl, congrArg Nat.succ hn, hlit, hslash,
          ⟨hname, hinner, hspec⟩, renderFrom_head.mp hfollow, hchecked⟩)
      · exact .inr (.inr ⟨lit, (p, lit') :: tail, rfl, Nat.succ_lt_succ hn, hlit, hslash,
          ⟨hname, hinner, hspec⟩, renderFrom_head.mp hfollow, hchecked⟩)

/-! ## Templates -/

/-- The literals before a parameter have no '}', and no name has a brace or a slash. -/
def Straight (lit : Str) : List (Param × Str) → Prop
  | [] => True
  | (p, lit') :: tail => '}' ∉ lit ∧ ('/' ∉ p.name ∧ '{' ∉ p.name) ∧ Straight lit' tail

theorem Specifier.notMem {p : Param} (hspec : Specifier p.spec) {c : Char} (hc : c ∉ p.name)
    (hne : c ∉ ":not_empty".toList) : c ∉ p.text := by
  unfold Param.text
  rcases hspec with hspec | hspec | hspec
  · rwa [hspec]
  · rw [hspec]
    intro hmem
    rcases List.mem_append.mp hmem with hmem | hmem
    · exact hc hmem
    · exact hne (List.mem_cons.mpr (.inl (List.mem_singleton.mp hmem)))
  · rw [hspec]
    intro hmem
    exact (List.mem_append.mp hmem).elim hc hne

theorem Param.notMem_name {p : Param} {c : Char} (hc : c ∉ p.text) : c ∉ p.name := by
  unfold Param.text at hc
  cases hspec : p.spec with
  | none => rwa [hspec] at hc
  | some spec =>
      rw [hspec] at hc
      exact fun hmem => hc (List.mem_append_left _ hmem)

/-- What the constructor checks of a template. -/
theorem checked_of_plainText {lit : Str} {tail : List (Param × Str)} (hplain : PlainText lit tail)
    (hslashed : Slashed lit tail) (hname : ∀ p ∈ tail.map Prod.fst, ':' ∉ p.name)
    (hspec : ∀ p ∈ tail.map Prod.fst, Specifier p.spec) : Checked EndsPlain lit tail := by
  induction tail generalizing lit with
  | nil => exact hplain.literal lit List.mem_cons_self
  | cons part tail ih =>
      obtain ⟨hlast, hfollow, hslashed⟩ := hslashed
      have hp : part.1 ∈ (part :: tail).map Prod.fst := List.mem_cons_self
      refine ⟨(hplain.literal lit List.mem_cons_self).1, hlast,
        ⟨hname _ hp, (hplain.param _ hp).2.2, hspec _ hp⟩, hfollow, ?_⟩
      apply ih hplain.tail hslashed
      · exact fun p hmem => hname p (List.mem_cons_of_mem _ hmem)
      · exact fun p hmem => hspec p (List.mem_cons_of_mem _ hmem)

/-- And what it does not check. -/
theorem plainText_of_checked {lit : Str} {tail : List (Param × Str)} (hchecked : Checked EndsPlain lit tail)
    (hstraight : Straight lit tail) : PlainText lit tail ∧ Slashed lit tail := by
  induction tail generalizing lit with
  | nil =>
      refine ⟨⟨?_, nofun⟩, trivial⟩
      intro l hl
      rw [List.mem_singleton.mp hl]
      exact hchecked
  | cons part tail ih =>
      obtain ⟨hlit, hlast, ⟨-, htext, hspec⟩, hfollow, hchecked⟩ := hchecked
      obtain ⟨hclosing, ⟨hslash, hbrace⟩, hstraight⟩ := hstraight
      obtain ⟨hplain, hslashed⟩ := ih hchecked hstraight
      refine ⟨⟨?_, ?_⟩, hlast, hfollow, hslashed⟩
      · intro l hl
        rcases List.mem_cons.mp hl with rfl | hl
        · exact ⟨hlit, hclosing⟩
        · exact hplain.literal l hl
      · intro p hp
        rcases List.mem_cons.mp hp with rfl | hp
        · exact ⟨hspec.notMem hslash (by decide), hspec.notMem hbrace (by decide), htext⟩
        · exact hplain.param p hp

/-- **Parsing undoes writing.** A template with string parameters is accepted, with its names and with
`notEmpty` for the parameters that ask for it. -/
theorem construct_render (T : Template) (hslashed : Slashed T.head T.tail)
    (hname : ∀ p ∈ T.tail.map Prod.fst, ':' ∉ p.name)
    (hspec : ∀ p ∈ T.tail.map Prod.fst, Specifier p.spec) (hne : stringParams T.tail.length ≠ []) :
    ∃ R : RouteString StringExtractor,
      RouteString.construct T.render (stringParams T.tail.length) hne = .ok R ∧
        R.paramNames = T.tail.map (·.1.name) ∧
        R.extractors.map (·.notEmpty) =
          T.tail.map fun part => decide (part.1.spec = some "not_empty".toList) := by
  have hchecked := checked_of_plainText T.plainText hslashed hname hspec
  have hgen := generateRest_accepted hchecked []
  obtain ⟨n, hn⟩ : ∃ n, T.tail.length = n + 1 :=
    Nat.exists_eq_succ_of_ne_zero (mt List.length_eq_zero_iff.mp T.tail_ne)
  have hgen : generateRouteString T.render 0 (stringParams T.tail.length) = .ok (recorded T.tail) := by
    rw [hn, stringParams, List.replicate_succ, generateRest_cons, ← List.replicate_succ, ← hn] at hgen
    exact hgen
  obtain ⟨R, hR, hnames, hextractors⟩ := RouteString.construct_of_ok hne hgen
  refine ⟨R, hR, hnames, ?_⟩
  rw [hextractors, List.map_map]
  rfl

/-- `/{name:not_empty}`. -/
def greeting : Template where
  head := "/".toList
  tail := [(⟨"name".toList, some "not_empty".toList⟩, [])]
  tail_ne := nofun
  plainText := ⟨by decide, by decide⟩

theorem construct_greeting : ∃ R : RouteString StringExtractor,
    RouteString.construct "/{name:not_empty}".toList (stringParams 1) nofun = .ok R ∧
      R.paramNames = ["name".toList] ∧ R.extractors.map (·.notEmpty) = [true] :=
  construct_render greeting ⟨rfl, .inl ⟨rfl, rfl⟩, trivial⟩ (by decide)
    (fun p hp => .inr (.inr (by rw [List.mem_singleton.mp hp]))) nofun

/-! ## Malformed texts -/

/-- Braces stand in `s` only around `n` parameters, each between '/' and '/' or the end. -/
def WellFormed (n : Nat) (s : Str) : Prop :=
  ∃ T : Template, T.tail.length = n ∧ Slashed T.head T.tail ∧ s = T.render

/-- The texts on which a check is missing: a '}' in a literal before a parameter, a '{' or '/' in a name,
or an end within one of the `n` parameters, behind its ':'. -/
def Unseen (n : Nat) (s : Str) : Prop :=
  (∃ lit tail, s = renderFrom lit tail ∧ tail.length = n ∧ Checked EndsPlain lit tail ∧
    ¬Straight lit tail) ∨
  ∃ lit tail, s = renderFrom lit tail ∧ tail.length < n ∧ Checked EndsOpen lit tail

/-- The checked literals and parameters of a template are its own. -/
theorem straight_of_render {lit lit' : Str} {tail tail' : List (Param × Str)}
    (hplain : PlainText lit tail) (hchecked : Checked EndsPlain lit' tail')
    (hlength : tail.length = tail'.length) (heq : renderFrom lit tail = renderFrom lit' tail') :
    Straight lit' tail' := by
  induction tail' generalizing lit lit' tail with
  | nil => trivial
  | cons part' tail' ih =>
      obtain ⟨⟨p, l⟩, tail, rfl⟩ := List.exists_cons_of_length_eq_add_one hlength
      obtain ⟨hlit', -, ⟨-, htext', -⟩, -, hchecked⟩ := hchecked
      have hlit := hplain.literal lit List.mem_cons_self
      have htext := hplain.param p List.mem_cons_self
      obtain ⟨rfl, hsame, heq⟩ := (renderFrom_cons_inj hlit.1 hlit' htext.2.2 htext').mp heq
      rw [hsame] at htext
      refine ⟨hlit.2, ⟨Param.notMem_name htext.1, Param.notMem_name htext.2.1⟩, ?_⟩
      exact ih hplain.tail hchecked (Nat.succ.inj hlength) heq

/-- A template does not end within a parameter. -/
theorem render_ne_of_open {lit lit' : Str} {tail tail' : List (Param × Str)}
    (hplain : PlainText lit tail) (hchecked : Checked EndsOpen lit' tail')
    (hlength : tail'.length < tail.length) : renderFrom lit tail ≠ renderFrom lit' tail' := by
  intro heq
  induction tail' generalizing lit lit' tail with
  | nil =>
      obtain ⟨⟨p, l⟩, tail, rfl⟩ := List.exists_cons_of_length_pos hlength
      obtain ⟨lit', name, spec, rfl, hlit', -, -, hname, hspec⟩ := hchecked
      have hlit := hplain.literal lit List.mem_cons_self
      obtain ⟨-, heq⟩ := (append_cons_inj hlit.1 hlit').mp heq
      have hclosing : '}' ∈ name ++ ':' :: spec := by
        rw [← heq]
        simp
      rcases hspec with rfl | rfl
      · simp [hname] at hclosing
      · simp [hname] at hclosing
  | cons part' tail' ih =>
      obtain ⟨⟨p, l⟩, tail, rfl⟩ := List.exists_cons_of_length_pos (Nat.zero_lt_of_lt hlength)
      obtain ⟨hlit', -, ⟨-, htext', -⟩, -, hchecked⟩ := hchecked
      have hlit := hplain.literal lit List.mem_cons_self
      have htext := hplain.param p List.mem_cons_self
      obtain ⟨rfl, -, heq⟩ := (renderFrom_cons_inj hlit.1 hlit' htext.2.2 htext').mp heq
      exact ih hplain.tail hchecked (Nat.lt_of_succ_lt_succ hlength) heq

theorem Unseen.not_wellFormed {n : Nat} {s : Str} (h : Unseen n s) : ¬WellFormed n s := by
  rintro ⟨T, rfl, -, heq⟩
  rcases h with ⟨lit, tail, rfl, hn, hchecked, hstraight⟩ | ⟨lit, tail, rfl, hn, hchecked⟩
  · exact hstraight (straight_of_render T.plainText hchecked hn.symm heq.symm)
  · exact render_ne_of_open T.plainText hchecked hn heq.symm

/-- Nothing is thrown where a check is missing. -/
theorem Unseen.not_thrown {n : Nat} {s : Str} (h : Unseen n s) (message : String) :
    generateRest s 0 (stringParams n) ≠ .error (.thrown message) := by
  rcases h with ⟨lit, tail, rfl, rfl, hchecked, -⟩ | ⟨lit, tail, rfl, hn, hchecked⟩
  · have hok : generateRest (renderFrom lit tail) 0 (stringParams tail.length) = .ok (recorded tail) :=
      generateRest_accepted hchecked []
    rw [hok]
    nofun
  · have herror : generateRest (renderFrom lit tail) 0 (stringParams n) = .error .pastTheEnd :=
      generateRest_pastTheEnd hchecked [] hn
    rw [herror]
    nofun

theorem stringParams_ne (n : Nat) : stringParams (n + 1) ≠ [] := List.cons_ne_nil _ _

theorem construct_eq_error {n : Nat} {s : Str} {rejected : Rejected} :
    RouteString.construct s (stringParams (n + 1)) (stringParams_ne n) = .error rejected ↔
      generateRest s 0 (stringParams (n + 1)) = .error rejected := by
  rw [RouteString.construct_eq_error_iff, stringParams, List.replicate_succ, generateRest_cons]

/-- **Which malformed templates are rejected.** With string parameters the constructor throws or the
text is well formed, exactly when the text is none of those on which a check is missing. -/
theorem rejects_malformed_iff (n : Nat) (s : Str) :
    ((∃ message, RouteString.construct s (stringParams (n + 1)) (stringParams_ne n) =
        .error (.thrown message)) ∨ WellFormed (n + 1) s) ↔ ¬Unseen (n + 1) s := by
  constructor
  · rintro (⟨message, hthrown⟩ | hwellFormed) hunseen
    · exact hunseen.not_thrown message (construct_eq_error.mp hthrown)
    · exact hunseen.not_wellFormed hwellFormed
  · intro hseen
    rcases generateRest_cases (n + 1) [] s with
      ⟨message, hthrown⟩ | ⟨lit, tail, rfl, hn, hchecked⟩ | hopen
    · exact .inl ⟨message, construct_eq_error.mpr hthrown⟩
    · have hstraight : Straight lit tail := by
        by_contra hstraight
        exact hseen (.inl ⟨lit, tail, rfl, hn, hchecked, hstraight⟩)
      obtain ⟨hplain, hslashed⟩ := plainText_of_checked hchecked hstraight
      have hne : tail ≠ [] := List.ne_nil_of_length_eq_add_one hn
      exact .inr ⟨⟨lit, tail, hne, hplain⟩, hn, hslashed, rfl⟩
    · exact absurd (.inr hopen) hseen

/-- On `/{a:` the constructor goes past the end, `/}/{a}` and `/{a/b}` it accepts. -/
theorem malformed_unseen :
    RouteString.construct "/\x7ba:".toList (stringParams 1) (stringParams_ne 0) = .error .pastTheEnd ∧
      ∀ s ∈ ["/\x7ba:".toList, "/\x7d/{a}".toList, "/{a/b}".toList],
        ¬((∃ message, RouteString.construct s (stringParams 1) (stringParams_ne 0) =
          .error (.thrown message)) ∨ WellFormed 1 s) := by
  refine ⟨rfl, ?_⟩
  have hunseen : ∀ s ∈ ["/\x7ba:".toList, "/\x7d/{a}".toList, "/{a/b}".toList], Unseen 1 s := by
    intro s hs
    simp only [List.mem_cons, List.not_mem_nil, or_false] at hs
    rcases hs with rfl | rfl | rfl
    · exact .inr ⟨"/\x7ba:".toList, [], rfl, Nat.one_pos, "/".toList, "a".toList, [], rfl, by decide, rfl,
        by decide, by decide, .inl rfl⟩
    · exact .inl ⟨"/\x7d/".toList, [(⟨"a".toList, none⟩, [])], rfl, rfl, ⟨by decide, rfl,
        ⟨by decide, by decide, .inl rfl⟩, .inl ⟨rfl, rfl⟩, by decide, by decide⟩, fun h => h.1 (by decide)⟩
    · exact .inl ⟨"/".toList, [(⟨"a/b".toList, none⟩, [])], rfl, rfl, ⟨by decide, rfl,
        ⟨by decide, by decide, .inl rfl⟩, .inl ⟨rfl, rfl⟩, by decide, by decide⟩,
        fun h => h.2.1.1 (by decide)⟩
  rintro s hs (⟨message, hthrown⟩ | hwellFormed)
  · exact (hunseen s hs).not_thrown message (construct_eq_error.mp hthrown)
  · exact (hunseen s hs).not_wellFormed hwellFormed

end Fipper
