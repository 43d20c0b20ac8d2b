import Fipper.Route.Match

/-!
# `extractParamsFromInstance`

The walk over two strings at once, the template and the route, each its own buffer. An iterator is a
position in one of them. After a parameter the code searches from an iterator into the route to the end of
the template, which C++ leaves undefined: what may come of it is that it does not come back, or that it gives
an iterator nothing is known about (`wild`). What the function is defined to return is what it returns
whatever comes of this search.

* `extractParam` : the function, as far as it compiles;
* `scanFirst_within_iff` : when its first step stays within the route;
* `extract_fill` : what comes of the instances of a template;
* `extract_fill_never` : none of them is defined to give back its values.
-/

namespace Fipper

open Lib

inductive Buffer
  | template
  | route
  deriving DecidableEq, Repr

inductive Iterator
  | position (buffer : Buffer) (i : Nat)
  | wild
  deriving DecidableEq, Repr

/-- The two strings, and what comes of a search whose ends lie in different ones: whether it comes back. -/
structure Buffers where
  template : Str
  route : Str
  comesBack : Bool

namespace Buffers

def text (b : Buffers) : Buffer → Str
  | .template => b.template
  | .route => b.route

/-- `std::find`. -/
def search (b : Buffers) (first last : Iterator) (c : Char) : Except Fault Iterator :=
  match first, last with
  | .position buffer i, .position buffer' j =>
      if buffer ≠ buffer' then if b.comesBack then .ok .wild else .error .undefined
      else if i ≤ j ∧ j ≤ (b.text buffer).length then
        .ok (.position buffer (min j (find (b.text buffer) i c)))
      else .error .undefined
  | _, _ => .error .undefined

/-- `std::distance`. -/
def distance (first last : Iterator) : Except Fault Nat :=
  match first, last with
  | .position buffer i, .position buffer' j =>
      if buffer = buffer' ∧ i ≤ j then .ok (j - i) else .error .undefined
  | _, _ => .error .undefined

/-- `it += n`. -/
def advance (b : Buffers) (it : Iterator) (n : Nat) : Except Fault Iterator :=
  match it with
  | .position buffer i =>
      if i + n ≤ (b.text buffer).length then .ok (.position buffer (i + n)) else .error .undefined
  | .wild => .error .undefined

/-- `std::string_view{first, last}`. -/
def view (b : Buffers) (first last : Iterator) : Except Fault Str :=
  match first, last with
  | .position buffer i, .position buffer' j =>
      if buffer = buffer' ∧ i ≤ j ∧ j ≤ (b.text buffer).length then .ok (slice (b.text buffer) i j)
      else .error .undefined
  | _, _ => .error .undefined

end Buffers

section
variable {E V : Type} [RouteStringExtractor E V]

/-- `__extractParamFromRouteString`. It compiles for one parameter only: with a second one
`std::make_tuple<First>` is called with `*result`, which its `First &&` does not bind to, and the last `return`
makes a tuple of one of what has to be a tuple of all. -/
def extractParam (b : Buffers) (beginTemplate endTemplate beginInstance endInstance : Iterator) :
    List E → Except Fault (Option (List V))
  | [extractor] => do
      let it ← b.search beginTemplate endTemplate '{'
      let length ← Buffers.distance beginTemplate it
      let beginInstance ← b.advance beginInstance length
      let it ← b.search beginInstance endInstance '/'
      let str ← b.view beginInstance it
      match RouteStringExtractor.extract extractor str with
      | none => return none
      | some result =>
          -- from the route to the end of the template; the result is not used
          let _ ← b.search it endTemplate '/'
          return some [result]
  | _ => .error .illFormed

/-- `RouteString<Params...>::extractParamsFromInstance`. -/
def RouteString.extractParamsFromInstance (routeString : RouteString E) (comesBack : Bool)
    (route : Str) : Except Fault (Option (List V)) :=
  extractParam ⟨routeString.str, route, comesBack⟩ (.position .template 0)
    (.position .template routeString.str.length) (.position .route 0)
    (.position .route route.length) routeString.extractors

/-- The values that a route is defined to give: they are what is extracted, whatever comes of the search between
the two strings. -/
def RouteString.Extracts (routeString : RouteString E) (route : Str) (values : List V) : Prop :=
  ∀ comesBack, routeString.extractParamsFromInstance comesBack route = .ok (some values)

theorem upTo_value {v : Str} (hv : '/' ∉ v) {rest : Str} (hrest : rest = [] ∨ rest.head? = some '/') :
    upTo '/' (v ++ rest) = v := by
  rw [upTo_append hv]
  rcases hrest with rfl | hhead
  · simp
  · obtain ⟨l, rfl⟩ := List.head?_eq_some_iff.mp hhead
    rw [upTo_cons_self, List.append_nil]

/-- A search within one string. -/
theorem Buffers.search_same (b : Buffers) (buffer : Buffer) {i j : Nat} (c : Char)
    (hj : j = (b.text buffer).length) (hi : i ≤ j) :
    b.search (.position buffer i) (.position buffer j) c =
      .ok (.position buffer (find (b.text buffer) i c)) := by
  have hle := find_le (hj ▸ hi) c
  rw [search, if_neg (not_not.mpr rfl), if_pos ⟨hi, hj.le⟩, Nat.min_eq_right (hj ▸ hle)]

theorem Buffers.advance_same (b : Buffers) (buffer : Buffer) {i n : Nat}
    (h : i + n ≤ (b.text buffer).length) :
    b.advance (.position buffer i) n = .ok (.position buffer (i + n)) := by
  unfold advance
  exact if_pos h

theorem Buffers.view_same (b : Buffers) (buffer : Buffer) {i j : Nat} (hij : i ≤ j)
    (hj : j ≤ (b.text buffer).length) :
    b.view (.position buffer i) (.position buffer j) = .ok (slice (b.text buffer) i j) := by
  unfold view
  exact if_pos ⟨rfl, hij, hj⟩

/-! ## One parameter -/

/-- The first lines of `__extractParamFromRouteString`: over the literal and to the next '/'. -/
def scanParam (b : Buffers) (beginTemplate endTemplate beginInstance endInstance : Iterator) :
    Except Fault (Iterator × Str) := do
  let it ← b.search beginTemplate endTemplate '{'
  let length ← Buffers.distance beginTemplate it
  let beginInstance ← b.advance beginInstance length
  let it ← b.search beginInstance endInstance '/'
  let str ← b.view beginInstance it
  return (it, str)

theorem extractParam_single (b : Buffers)
    (beginTemplate endTemplate beginInstance endInstance : Iterator) (extractor : E) :
    (extractParam b beginTemplate endTemplate beginInstance endInstance [extractor] :
        Except Fault (Option (List V))) =
      (do
        let (it, str) ← scanParam b beginTemplate endTemplate beginInstance endInstance
        match RouteStringExtractor.extract extractor str with
        | none => return none
        | some result =>
            let _ ← b.search it endTemplate '/'
            return some [result]) := by
  rw [extractParam, scanParam]
  simp only [bind_assoc, pure_bind]

/-- A second parameter, and there is no program. -/
theorem extractParam_illFormed (b : Buffers)
    (beginTemplate endTemplate beginInstance endInstance : Iterator) {extractors : List E}
    (h : extractors.length ≠ 1) :
    (extractParam b beginTemplate endTemplate beginInstance endInstance extractors :
      Except Fault (Option (List V))) = .error .illFormed := by
  match extractors with
  | [] => rfl
  | [_] => exact absurd rfl h
  | _ :: _ :: _ => rfl

/-- The scan for the first parameter is defined when the route is no shorter than the literal. -/
theorem scanParam_first (comesBack : Bool) {lit inner rest : Str} (hlit : '{' ∉ lit) (route : Str) :
    scanParam ⟨around [] lit inner rest, route, comesBack⟩ (.position .template 0)
        (.position .template (around [] lit inner rest).length) (.position .route 0)
        (.position .route route.length) =
      if lit.length ≤ route.length then
        .ok (.position .route (find route lit.length '/'), upTo '/' (route.drop lit.length))
      else .error .undefined := by
  have hopening : find (around [] lit inner rest) 0 '{' = lit.length := by
    have h : find (around [] lit inner rest) ([] : Str).length '{' = ([] : Str).length + lit.length :=
      find_opening hlit
    simpa using h
  generalize hb : (⟨around [] lit inner rest, route, comesBack⟩ : Buffers) = b
  have htemplate : b.text .template = around [] lit inner rest := by rw [← hb]; rfl
  have hroute : b.text .route = route := by rw [← hb]; rfl
  unfold scanParam
  rw [b.search_same .template '{' (by rw [htemplate]) (Nat.zero_le _), htemplate, hopening]
  show (b.advance (.position .route 0) (lit.length - 0)).bind _ = _
  rw [Nat.sub_zero]
  by_cases hlen : lit.length ≤ route.length
  swap
  · have hadvance : b.advance (.position .route 0) lit.length = .error .undefined := by
      unfold Buffers.advance
      exact if_neg (by rwa [hroute, Nat.zero_add])
    rw [hadvance, if_neg hlen]
    rfl
  have hle := find_le hlen '/'
  rw [b.advance_same .route (by rwa [hroute, Nat.zero_add]), Nat.zero_add, if_pos hlen]
  show (b.search _ _ _).bind _ = _
  rw [b.search_same .route '/' (by rw [hroute]) hlen, hroute]
  show (b.view _ _).bind _ = _
  rw [b.view_same .route (le_find _ _ _) (by rwa [hroute]), hroute, slice_find]
  rfl

/-- The parameter is extracted as it should be; then the search goes astray. -/
theorem extractParam_first (comesBack : Bool) {lit inner rest v rest' : Str} (hlit : '{' ∉ lit)
    (hv : '/' ∉ v) (hrest' : rest' = [] ∨ rest'.head? = some '/') (extractor : E) :
    (extractParam ⟨around [] lit inner rest, lit ++ v ++ rest', comesBack⟩ (.position .template 0)
        (.position .template (around [] lit inner rest).length) (.position .route 0)
        (.position .route (lit ++ v ++ rest').length) [extractor] : Except Fault (Option (List V))) =
      match RouteStringExtractor.extract extractor v with
      | none => .ok none
      | some result => if comesBack then .ok (some [result]) else .error .undefined := by
  have hlen : lit.length ≤ (lit ++ v ++ rest').length := by
    simp only [List.length_append]
    omega
  rw [extractParam_single, scanParam_first comesBack hlit, if_pos hlen, List.append_assoc, List.drop_left,
    upTo_value hv hrest']
  show (match RouteStringExtractor.extract extractor v with | none => _ | some result => _) = _
  cases RouteStringExtractor.extract extractor v with
  | none => rfl
  | some result => cases comesBack <;> rfl

/-- The first step of `extractParamsFromInstance`. -/
def RouteString.scanFirst (routeString : RouteString E) (comesBack : Bool) (route : Str) :
    Except Fault (Iterator × Str) :=
  scanParam ⟨routeString.str, route, comesBack⟩ (.position .template 0)
    (.position .template routeString.str.length) (.position .route 0) (.position .route route.length)

/-- Every route but the empty one that is accepted begins with the first literal. -/
theorem exists_of_isInstance {T : Template} {initial : List E} (hn : initial.length = T.tail.length)
    {hne : initial ≠ []} {R : RouteString E} (hR : RouteString.construct T.render initial hne = .ok R)
    {route : Str} (hmatch : R.isInstance route = true) (hroute : route ≠ []) :
    ∃ rest, route = T.head ++ rest := by
  rw [isInstance_render_iff hn hR] at hmatch
  rcases hmatch with hnil | ⟨vs, -, rfl⟩ | ⟨-, vs, w, -, -, -, rfl⟩
  · exact absurd hnil hroute
  · exact fillFrom_eq_append T.head T.tail vs
  · obtain ⟨rest, hrest⟩ := fillFrom_eq_append T.head T.tail vs
    exact ⟨rest ++ w, by rw [Template.fill, hrest, List.append_assoc]⟩

/-- **When extraction stays within the route.** On the routes the matcher accepts the first step stays
within the route, and the value it finds is a part of it, exactly when the route is not empty. -/
theorem scanFirst_within_iff (T : Template) (initial : List E) (hne : initial ≠ [])
    (hn : initial.length = T.tail.length) (R : RouteString E)
    (hR : RouteString.construct T.render initial hne = .ok R) (comesBack : Bool) (route : Str) :
    (R.isInstance route = true → ∃ i value,
        R.scanFirst comesBack route = .ok (.position .route i, value) ∧ i ≤ route.length ∧
          value <:+: route) ↔ route ≠ [] := by
  obtain ⟨hstr, -, hhead⟩ := Template.slashed hn hR
  obtain ⟨part, tail, htail⟩ := List.exists_cons_of_ne_nil T.tail_ne
  have hlit := (T.plainText.literal T.head List.mem_cons_self).1
  have hscan : R.scanFirst comesBack route = if T.head.length ≤ route.length then
        .ok (.position .route (find route T.head.length '/'), upTo '/' (route.drop T.head.length))
      else .error .undefined := by
    rw [RouteString.scanFirst, hstr, Template.render, htail]
    exact scanParam_first comesBack hlit route
  rw [hscan]
  constructor
  · intro hwithin hnil
    have hempty : R.isInstance route = true := (isInstance_render_iff hn hR route).mpr (.inl hnil)
    obtain ⟨i, value, hfirst, -⟩ := hwithin hempty
    rw [hnil, if_neg (by simpa using hhead)] at hfirst
    cases hfirst
  · intro hroute hmatch
    obtain ⟨rest, hrest⟩ := exists_of_isInstance hn hR hmatch hroute
    have hlen : T.head.length ≤ route.length := by
      rw [hrest, List.length_append]
      omega
    rw [if_pos hlen]
    refine ⟨_, _, rfl, find_le hlen '/', ?_⟩
    have hvalue : upTo '/' (route.drop T.head.length) <+: route.drop T.head.length :=
      List.takeWhile_prefix _
    exact hvalue.isInfix.trans (List.drop_suffix _ _).isInfix

theorem scanFirst_within_oneParam :
    ∃ i value, oneParamRoute.scanFirst true "/a/v/b".toList = .ok (.position .route i, value) ∧
      i ≤ "/a/v/b".toList.length ∧ value <:+: "/a/v/b".toList :=
  (scanFirst_within_iff oneParam [({} : StringExtractor)] (List.cons_ne_nil _ _) rfl oneParamRoute rfl true
    _).mpr (List.cons_ne_nil _ _) (by decide +kernel)

/-- The path of `GET  HTTP/1.1` is empty; it is accepted, and the first step leaves it. -/
theorem scanFirst_empty :
    RouteString.construct oneParam.render [({} : StringExtractor)] nofun = .ok oneParamRoute ∧
      (split ' ' "GET  HTTP/1.1".toList)[1]? = some [] ∧ oneParamRoute.isInstance [] = true ∧
      ∀ comesBack, ¬∃ i value, oneParamRoute.scanFirst comesBack [] = .ok (.position .route i, value) := by
  refine ⟨rfl, by decide, by decide +kernel, ?_⟩
  rintro comesBack ⟨i, value, hfirst⟩
  cases comesBack <;> cases hfirst

end

/-! ## Strings -/

theorem StringExtractor.extract_eq_some {extractor : StringExtractor} {v : Str} :
    RouteStringExtractor.extract extractor v = some v ↔ (extractor.notEmpty = true → v ≠ []) := by
  show (if extractor.notEmpty && v.isEmpty then none else some v) = some v ↔ _
  cases extractor.notEmpty <;> cases v <;> simp

/-- Only the specifier makes an extractor refuse the empty value. -/
theorem StringExtractor.spec_of_notEmpty {str : Str} {extractor : StringExtractor}
    (h : RouteStringExtractor.instantiate ({} : StringExtractor) str = .ok extractor)
    (hne : extractor.notEmpty = true) : str = "not_empty".toList := by
  change StringExtractor.instantiate {} str = _ at h
  unfold StringExtractor.instantiate at h
  split at h
  · cases h
    cases hne
  · split at h
    · cases h
    · next heq => exact not_not.mp heq

theorem Param.spec_of_text {p : Param} (hname : ':' ∉ p.name) {str : Str} (hstr : str ≠ [])
    (h : (onward ':' p.text).tail = str) : p.spec = some str := by
  rw [Param.onward_text hname] at h
  cases hspec : p.spec with
  | none =>
      rw [hspec] at h
      exact absurd h.symm hstr
  | some spec =>
      rw [hspec] at h
      exact congrArg some h

/-- Values that the specifiers admit. -/
def Admitted (tail : List (Param × Str)) (vs : List Str) : Prop :=
  ∀ part ∈ tail.zip vs, part.1.1.spec = some "not_empty".toList → part.2 ≠ []

/-- What comes of an instance of an accepted template: with one parameter the value, if the search that
leaves the route for the template comes back; with more there is no program. -/
theorem extract_fill (T : Template) (hname : ∀ p ∈ T.tail.map Prod.fst, ':' ∉ p.name)
    (hne : List.replicate T.tail.length ({} : StringExtractor) ≠ []) (R : RouteString StringExtractor)
    (hR : RouteString.construct T.render _ hne = .ok R) (vs : List Str) (hvs : Values T.tail vs)
    (hadmitted : Admitted T.tail vs) (comesBack : Bool) :
    R.extractParamsFromInstance comesBack (T.fill vs) =
      if T.tail.length = 1 then if comesBack then .ok (some vs) else .error .undefined
      else .error .illFormed := by
  obtain ⟨hstr, hslashed, hhead⟩ := Template.slashed List.length_replicate hR
  obtain ⟨-, hgen⟩ := RouteString.construct_eq_ok hR
  have hlength : R.extractors.length = T.tail.length := by
    rw [(length_generateRouteString hgen).2, List.length_replicate]
  obtain ⟨lit, tail, tail_ne, hplain⟩ := T
  dsimp only at hlength ⊢
  by_cases hone : tail.length = 1
  swap
  · rw [if_neg hone, RouteString.extractParamsFromInstance]
    exact extractParam_illFormed _ _ _ _ _ (hlength.trans_ne hone)
  obtain ⟨⟨p, lit'⟩, rfl⟩ := List.length_eq_one_iff.mp hone
  obtain ⟨v, rfl⟩ := List.length_eq_one_iff.mp hvs.1
  have hlit := (hplain.literal lit List.mem_cons_self).1
  have hparam := (hplain.param p List.mem_cons_self).2.2
  have hgen : generateRouteString (around [] lit p.text (renderFrom lit' [])) ([] : Str).length
      [({} : StringExtractor)] = .ok (R.paramNames, R.extractors) := hgen
  obtain ⟨-, hfollow, extractor, names, extractors, hext, hresult, hrest⟩ :=
    generateRouteString_cons hlit hparam hgen
  have hnil : extractors = [] := by
    have hrest := Except.ok.inj hrest
    exact (Prod.mk.inj hrest).2.symm
  rw [Prod.mk.injEq, hnil] at hresult
  have hvalue : RouteStringExtractor.extract extractor v = some v := by
    rw [StringExtractor.extract_eq_some]
    intro hnotEmpty
    have hspec := StringExtractor.spec_of_notEmpty hext hnotEmpty
    exact hadmitted _ List.mem_cons_self
      (Param.spec_of_text (hname p List.mem_cons_self) nofun hspec)
  have hfirst := @extractParam_first _ _ _ comesBack lit p.text (renderFrom lit' []) v _ hlit
    (values_cons.mp hvs).1 (fillFrom_head [] hslashed.2.1) extractor
  rw [hvalue] at hfirst
  rw [if_pos hone, RouteString.extractParamsFromInstance, hstr, hresult.2]
  exact hfirst

/-- **Extraction does not undo rendering.** No instance of any accepted template is defined to give back the
values it was made of. -/
theorem extract_fill_never (T : Template) (hname : ∀ p ∈ T.tail.map Prod.fst, ':' ∉ p.name)
    (hne : List.replicate T.tail.length ({} : StringExtractor) ≠ []) (R : RouteString StringExtractor)
    (hR : RouteString.construct T.render _ hne = .ok R) (vs : List Str) (hvs : Values T.tail vs)
    (hadmitted : Admitted T.tail vs) : ¬ R.Extracts (T.fill vs) vs := by
  intro hextracts
  have hextract := hextracts false
  rw [extract_fill T hname hne R hR vs hvs hadmitted false] at hextract
  split at hextract <;> cases hextract

theorem extract_fill_never_oneParam : ¬ oneParamRoute.Extracts (oneParam.fill ["v".toList]) ["v".toList] :=
  extract_fill_never oneParam (by decide) nofun oneParamRoute rfl ["v".toList] ⟨rfl, by decide⟩
    (by unfold Admitted; decide)

/-- `/{a}`, and the route made of it with the value x. -/
theorem extract_oneParam :
    ∃ R, RouteString.construct "/{a}".toList [({} : StringExtractor)] nofun = .ok R ∧
      R.isInstance "/x".toList = true ∧ ¬ R.Extracts "/x".toList ["x".toList] := by
  refine ⟨⟨"/{a}".toList, ["a".toList], [{}], ⟨[{}], nofun, rfl⟩⟩, rfl, by decide +kernel, fun hextracts => ?_⟩
  have hextract := hextracts false
  cases hextract

end Fipper
