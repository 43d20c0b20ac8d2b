import Fipper.Route.Template

/-!
# What the matcher accepts

`matchSuffix` is the matcher on what is left of the template and of the route (`isInstanceLoop_eq`).
On a template it accepts the empty route, and the instances of the template followed by any text
without '/' when the template ends with a literal (`isInstance_render_iff`). So a route it accepts is
an instance exactly when it is none of these (`isInstance_sound_iff`). Every instance is accepted
(`isInstance_fill`).
-/

namespace Fipper

open Lib

/-- The matcher, on texts instead of positions. -/
def matchSuffix (template route : Str) : Bool :=
  if _h : template = [] ∨ route = [] then true
  else
    let literal := upTo '{' template
    let template' := onward '/' (onward '{' template)
    let route' := onward '/' (route.drop literal.length)
    if literal ≠ route.take literal.length then false
    else if xor (template'.isEmpty) (route'.isEmpty) then false
    else matchSuffix template' route'
termination_by template.length
decreasing_by
  have hpos : 0 < template.length := List.length_pos_of_ne_nil fun hnil => _h (.inl hnil)
  have hlt := lt_find_find hpos
  have hdrop : template.drop (find template (find template 0 '{') '/') =
      onward '/' (onward '{' template) := by rw [drop_find, drop_find, List.drop_zero]
  rw [← hdrop, List.length_drop]
  omega

theorem find_sub (s : Str) (i : Nat) (c : Char) : find s i c - i = (upTo c (s.drop i)).length := by
  rw [find, length_upTo]
  omega

theorem find_beq_length {s : Str} {i : Nat} (h : i ≤ s.length) (c : Char) :
    (find s i c == s.length) = (onward c (s.drop i)).isEmpty := by
  rw [Bool.eq_iff_iff, beq_iff_eq, ← drop_eq_nil (find_le h c), drop_find, List.isEmpty_iff]

theorem isInstanceLoop_eq (str route : Str) (beginStr beginRoute : Nat) (hs : beginStr ≤ str.length)
    (hr : beginRoute ≤ route.length) :
    isInstanceLoop str route beginStr beginRoute hs hr =
      matchSuffix (str.drop beginStr) (route.drop beginRoute) := by
  have hguard : ∀ {i j : Nat}, i ≤ str.length → j ≤ route.length →
      ((i ≠ str.length ∧ j ≠ route.length) ↔ ¬(str.drop i = [] ∨ route.drop j = [])) := by
    intro i j hi hj
    rw [drop_eq_nil hi, drop_eq_nil hj, not_or]
  fun_induction isInstanceLoop str route beginStr beginRoute hs hr with
  | case1 beginStr beginRoute hs hr h it length availableLength hlength =>
      rw [matchSuffix, dif_neg ((hguard hs hr).mp h)]
      have hlen : length = (upTo '{' (str.drop beginStr)).length := find_sub str beginStr '{'
      rw [if_pos]
      intro heq
      have := congrArg List.length heq
      rw [← hlen, List.length_take, List.length_drop] at this
      omega
  | case2 beginStr beginRoute hs hr h it length availableLength hlength hne =>
      rw [matchSuffix, dif_neg ((hguard hs hr).mp h)]
      have hlen : length = (upTo '{' (str.drop beginStr)).length := find_sub str beginStr '{'
      rw [slice_find, slice, Nat.add_sub_cancel_left, hlen] at hne
      rw [if_pos hne]
  | case3 beginStr beginRoute hs hr h it length availableLength hlength heq nextStr nextRoute hxor =>
      rw [matchSuffix, dif_neg ((hguard hs hr).mp h)]
      have hlen : length = (upTo '{' (str.drop beginStr)).length := find_sub str beginStr '{'
      rw [slice_find, slice, Nat.add_sub_cancel_left, hlen] at heq
      rw [find_beq_length (find_le hs _), find_beq_length (by omega), drop_find,
        ← List.drop_drop, hlen] at hxor
      rw [if_neg heq, if_pos hxor]
  | case4 beginStr beginRoute hs hr h it length availableLength hlength heq nextStr nextRoute hxor ih =>
      rw [matchSuffix, dif_neg ((hguard hs hr).mp h)]
      have hlen : length = (upTo '{' (str.drop beginStr)).length := find_sub str beginStr '{'
      rw [slice_find, slice, Nat.add_sub_cancel_left, hlen] at heq
      rw [find_beq_length (find_le hs _), find_beq_length (by omega), drop_find,
        ← List.drop_drop, hlen] at hxor
      rw [if_neg heq, if_neg hxor, ih, drop_find, drop_find, drop_find, ← List.drop_drop, hlen]
  | case5 beginStr beginRoute hs hr h =>
      rw [matchSuffix, dif_pos (not_not.mp (mt (hguard hs hr).mpr h))]

/-! ## On a template -/

theorem matchSuffix_nil_left (route : Str) : matchSuffix [] route = true := by
  rw [matchSuffix, dif_pos (.inl rfl)]

theorem matchSuffix_nil_right (template : Str) : matchSuffix template [] = true := by
  rw [matchSuffix, dif_pos (.inr rfl)]

theorem xor_isEmpty_iff {α : Type*} {s t : List α} :
    ¬((s.isEmpty ^^ t.isEmpty) = true) ↔ (s = [] ↔ t = []) := by
  cases s <;> cases t <;> simp

/-- One round of the matcher. -/
theorem matchSuffix_iff {template route : Str} (ht : template ≠ []) (hr : route ≠ []) :
    matchSuffix template route = true ↔ ∃ rest, route = upTo '{' template ++ rest ∧
      (onward '/' (onward '{' template) = [] ↔ onward '/' rest = []) ∧
      matchSuffix (onward '/' (onward '{' template)) (onward '/' rest) = true := by
  rw [matchSuffix, dif_neg (not_or.mpr ⟨ht, hr⟩)]
  dsimp only
  constructor
  · intro h
    split at h
    · cases h
    next hliteral =>
    split at h
    · cases h
    next hxor =>
    refine ⟨route.drop (upTo '{' template).length, ?_, ?_, h⟩
    · nth_rewrite 1 [not_not.mp hliteral]
      exact (List.take_append_drop _ route).symm
    · exact xor_isEmpty_iff.mp hxor
  · rintro ⟨rest, rfl, hempty, h⟩
    rw [List.take_left, List.drop_left, if_neg (not_not.mpr rfl), if_neg (xor_isEmpty_iff.mpr hempty), h]

theorem upTo_renderFrom {lit : Str} (hlit : '{' ∉ lit) (tail : List (Param × Str)) :
    upTo '{' (renderFrom lit tail) = lit := by
  cases tail with
  | nil => exact upTo_eq_self hlit
  | cons part tail =>
      obtain ⟨p, lit'⟩ := part
      rw [renderFrom, upTo_append hlit, upTo_cons_self, List.append_nil]

/-- The matcher jumps over a parameter to the literal after it. -/
theorem onward_renderFrom {lit lit' : Str} {p : Param} {tail : List (Param × Str)}
    (hplain : PlainText lit ((p, lit') :: tail))
    (hfollow : (lit' = [] ∧ tail = []) ∨ lit'.head? = some '/') :
    onward '/' (onward '{' (renderFrom lit ((p, lit') :: tail))) = renderFrom lit' tail := by
  have hlit := (hplain.literal lit List.mem_cons_self).1
  have hparam := (hplain.param p List.mem_cons_self).1
  have hsplit : '{' :: (p.text ++ '}' :: renderFrom lit' tail) =
      ('{' :: (p.text ++ ['}'])) ++ renderFrom lit' tail := by simp
  rw [renderFrom, onward_append hlit, onward_cons_self, hsplit, onward_append (by simpa using hparam)]
  rcases hfollow with ⟨rfl, rfl⟩ | hhead
  · rfl
  · obtain ⟨l, rfl⟩ := List.head?_eq_some_iff.mp hhead
    cases tail <;> simp [renderFrom]

theorem fillFrom_eq_append (lit : Str) (tail : List (Param × Str)) (vs : List Str) :
    ∃ rest, fillFrom lit tail vs = lit ++ rest := by
  cases tail with
  | nil => exact ⟨[], (List.append_nil lit).symm⟩
  | cons part tail =>
      cases vs with
      | nil => exact ⟨[], (List.append_nil lit).symm⟩
      | cons v vs => exact ⟨_, List.append_assoc _ _ _⟩

theorem fillFrom_head {lit : Str} {tail : List (Param × Str)} (vs : List Str)
    (hfollow : (lit = [] ∧ tail = []) ∨ lit.head? = some '/') :
    fillFrom lit tail vs = [] ∨ (fillFrom lit tail vs).head? = some '/' := by
  rcases hfollow with ⟨rfl, rfl⟩ | hhead
  · exact .inl rfl
  · obtain ⟨rest, hrest⟩ := fillFrom_eq_append lit tail vs
    rw [hrest, List.head?_append, hhead]
    exact .inr rfl

/-- After a value without '/', the search for '/' finds the literal. -/
theorem onward_fillFrom {v lit : Str} (hv : '/' ∉ v) (hhead : lit.head? = some '/')
    (tail : List (Param × Str)) (vs : List Str) (w : Str) :
    onward '/' (v ++ (fillFrom lit tail vs ++ w)) = fillFrom lit tail vs ++ w := by
  obtain ⟨l, rfl⟩ := List.head?_eq_some_iff.mp hhead
  obtain ⟨rest, hrest⟩ := fillFrom_eq_append ('/' :: l) tail vs
  rw [onward_append hv, hrest, List.cons_append, List.cons_append, onward_cons_self]

/-- Values for the parameters, none with '/'. -/
def Values (tail : List (Param × Str)) (vs : List Str) : Prop :=
  vs.length = tail.length ∧ ∀ v ∈ vs, '/' ∉ v

theorem values_cons {part : Param × Str} {tail : List (Param × Str)} {v : Str} {vs : List Str} :
    Values (part :: tail) (v :: vs) ↔ '/' ∉ v ∧ Values tail vs := by
  simp only [Values, List.length_cons, Nat.succ.injEq, List.forall_mem_cons]
  tauto

/-- What the matcher accepts of a template, from the literal `lit` on. -/
theorem matchSuffix_render_iff {lit : Str} {tail : List (Param × Str)} (hplain : PlainText lit tail)
    (hslashed : Slashed lit tail) (hlit : lit ≠ []) {route : Str} (hroute : route ≠ []) :
    matchSuffix (renderFrom lit tail) route = true ↔ ∃ vs w, Values tail vs ∧ '/' ∉ w ∧
      (w ≠ [] → lastFrom lit tail ≠ []) ∧ route = fillFrom lit tail vs ++ w := by
  induction tail generalizing lit route with
  | nil =>
      have hbrace := (hplain.literal lit List.mem_cons_self).1
      rw [renderFrom, matchSuffix_iff hlit hroute, upTo_eq_self hbrace, onward_eq_nil_iff.mpr hbrace]
      simp only [onward_nil, true_iff, matchSuffix_nil_left, and_true, onward_eq_nil_iff, lastFrom,
        fillFrom]
      constructor
      · rintro ⟨w, rfl, hw⟩
        exact ⟨[], w, ⟨rfl, fun _ h => absurd h List.not_mem_nil⟩, hw, fun _ => hlit, rfl⟩
      · rintro ⟨vs, w, -, hw, -, rfl⟩
        exact ⟨w, rfl, hw⟩
  | cons part tail ih =>
      obtain ⟨p, lit'⟩ := part
      obtain ⟨hlast, hfollow, hslashed'⟩ := hslashed
      have hbrace := (hplain.literal lit List.mem_cons_self).1
      rw [matchSuffix_iff (by simp [renderFrom]) hroute, upTo_renderFrom hbrace,
        onward_renderFrom hplain hfollow]
      rcases hfollow with ⟨rfl, rfl⟩ | hhead
      · -- the template ends with the parameter
        simp only [renderFrom, true_iff, matchSuffix_nil_left, and_true, onward_eq_nil_iff]
        constructor
        · rintro ⟨v, rfl, hv⟩
          have hnone : ∀ v ∈ ([] : List Str), '/' ∉ v := fun _ h => absurd h List.not_mem_nil
          exact ⟨[v], [], values_cons.mpr ⟨hv, rfl, hnone⟩, List.not_mem_nil, fun h => absurd rfl h,
            by simp [fillFrom]⟩
        · rintro ⟨vs, w, hvs, hw, hlast', rfl⟩
          have hnil : w = [] := by
            by_contra hw'
            exact hlast' hw' rfl
          obtain ⟨v, rfl⟩ := List.length_eq_one_iff.mp hvs.1
          exact ⟨v, by simp [fillFrom, hnil], (values_cons.mp hvs).1⟩
      · have hlit' : lit' ≠ [] := by
          rintro rfl
          cases hhead
        have hne' : renderFrom lit' tail ≠ [] := by
          cases tail <;> simp [renderFrom, hlit']
        constructor
        · rintro ⟨rest, rfl, hempty, hmatch⟩
          obtain ⟨vs, w, hvs, hw, hlast', heq⟩ :=
            (ih hplain.tail hslashed' hlit' (mt hempty.mpr hne')).mp hmatch
          refine ⟨upTo '/' rest :: vs, w, values_cons.mpr ⟨notMem_upTo _ _, hvs⟩, hw, hlast', ?_⟩
          rw [fillFrom, List.append_assoc, List.append_assoc, ← heq, upTo_append_onward]
        · rintro ⟨vs, w, hvs, hw, hlast', rfl⟩
          cases vs with
          | nil => cases hvs.1
          | cons v vs =>
              rw [values_cons] at hvs
              have hrest : fillFrom lit' tail vs ++ w ≠ [] := by
                obtain ⟨x, hx⟩ := fillFrom_eq_append lit' tail vs
                simp [hx, hlit']
              refine ⟨v ++ (fillFrom lit' tail vs ++ w), by simp [fillFrom], ?_, ?_⟩
              · rw [onward_fillFrom hvs.1 hhead]
                exact ⟨fun h => absurd h hne', fun h => absurd h hrest⟩
              · rw [onward_fillFrom hvs.1 hhead]
                exact (ih hplain.tail hslashed' hlit' hrest).mpr ⟨vs, w, hvs.2, hw, hlast', rfl⟩

/-- Text that is left over after an instance is not part of another instance. -/
theorem nil_of_fillFrom_append {lit : Str} {tail : List (Param × Str)} (hslashed : Slashed lit tail)
    (hlast : lastFrom lit tail ≠ []) {vs vs' : List Str} (hvs : Values tail vs)
    (hvs' : Values tail vs') {w : Str} (heq : fillFrom lit tail vs ++ w = fillFrom lit tail vs') :
    w = [] := by
  induction tail generalizing lit vs vs' with
  | nil => simpa [fillFrom] using heq
  | cons part tail ih =>
      obtain ⟨p, lit'⟩ := part
      obtain ⟨-, hfollow, hslashed'⟩ := hslashed
      cases vs with
      | nil => cases hvs.1
      | cons v vs =>
          cases vs' with
          | nil => cases hvs'.1
          | cons v' vs' =>
              rw [values_cons] at hvs hvs'
              rcases hfollow with ⟨rfl, rfl⟩ | hhead
              · exact absurd rfl hlast
              · rw [fillFrom, fillFrom, List.append_assoc, List.append_assoc, List.append_assoc,
                  List.append_cancel_left_eq] at heq
                have honward := congrArg (onward '/') heq
                rw [onward_fillFrom hvs.1 hhead, ← List.append_nil (fillFrom lit' tail vs'),
                  onward_fillFrom hvs'.1 hhead, List.append_nil] at honward
                exact ih hslashed' hlast hvs.2 hvs'.2 honward

/-! ## Soundness -/

namespace Template

/-- The template with values for its parameters. -/
def Instance (T : Template) (route : Str) : Prop := ∃ vs, Values T.tail vs ∧ route = T.fill vs

/-- An instance of a template that ends with a literal, and more text without '/' behind it. -/
def Overrun (T : Template) (route : Str) : Prop :=
  T.last ≠ [] ∧ ∃ vs w, Values T.tail vs ∧ w ≠ [] ∧ '/' ∉ w ∧ route = T.fill vs ++ w

end Template

section
variable {E V : Type} [RouteStringExtractor E V]

theorem Slashed.head_ne {lit : Str} {part : Param × Str} {tail : List (Param × Str)}
    (h : Slashed lit (part :: tail)) : lit ≠ [] := by
  rintro rfl
  exact absurd h.1 (by simp)

/-- The constructor accepts the template for as many parameters as it has. -/
theorem Template.slashed {T : Template} {initial : List E} (hn : initial.length = T.tail.length)
    {hne : initial ≠ []} {R : RouteString E} (hR : RouteString.construct T.render initial hne = .ok R) :
    R.str = T.render ∧ Slashed T.head T.tail ∧ T.head ≠ [] := by
  obtain ⟨hstr, hgen⟩ := RouteString.construct_eq_ok hR
  have hgen : generateRouteString ([] ++ renderFrom T.head T.tail) ([] : Str).length initial =
    .ok (R.paramNames, R.extractors) := hgen
  have hslashed : Slashed T.head T.tail := slashed_of_accepted T.plainText hn hgen
  refine ⟨hstr, hslashed, ?_⟩
  obtain ⟨part, tail, htail⟩ := List.exists_cons_of_ne_nil T.tail_ne
  rw [htail] at hslashed
  exact hslashed.head_ne

/-- The routes a route string accepts. -/
theorem isInstance_render_iff {T : Template} {initial : List E} (hn : initial.length = T.tail.length)
    {hne : initial ≠ []} {R : RouteString E} (hR : RouteString.construct T.render initial hne = .ok R)
    (route : Str) :
    R.isInstance route = true ↔ route = [] ∨ T.Instance route ∨ T.Overrun route := by
  obtain ⟨hstr, hslashed, hhead⟩ := Template.slashed hn hR
  rw [RouteString.isInstance, isInstanceLoop_eq, List.drop_zero, List.drop_zero, hstr]
  by_cases hroute : route = []
  · simp [hroute, matchSuffix_nil_right]
  rw [Template.render, matchSuffix_render_iff T.plainText hslashed hhead hroute]
  constructor
  · rintro ⟨vs, w, hvs, hw, hlast, rfl⟩
    by_cases hnil : w = []
    · exact .inr (.inl ⟨vs, hvs, by simp [Template.fill, hnil]⟩)
    · exact .inr (.inr ⟨hlast hnil, vs, w, hvs, hnil, hw, rfl⟩)
  · rintro (hnil | ⟨vs, hvs, rfl⟩ | ⟨hlast, vs, w, hvs, -, hw, rfl⟩)
    · exact absurd hnil hroute
    · exact ⟨vs, [], hvs, nofun, fun h => absurd rfl h, (List.append_nil _).symm⟩
    · exact ⟨vs, w, hvs, hw, fun _ => hlast, rfl⟩

/-- **The matcher is complete.** A template with any values for its parameters is accepted. -/
theorem isInstance_fill (T : Template) (hslashed : Slashed T.head T.tail) (R : RouteString E)
    (hR : R.str = T.render) (vs : List Str) (hvs : Values T.tail vs) :
    R.isInstance (T.fill vs) = true := by
  have hhead : T.head ≠ [] := by
    obtain ⟨part, tail, htail⟩ := List.exists_cons_of_ne_nil T.tail_ne
    rw [htail] at hslashed
    exact hslashed.head_ne
  have hroute : T.fill vs ≠ [] := by
    obtain ⟨rest, hrest⟩ := fillFrom_eq_append T.head T.tail vs
    rw [Template.fill, hrest]
    exact List.append_ne_nil_of_left_ne_nil hhead rest
  rw [RouteString.isInstance, isInstanceLoop_eq, List.drop_zero, List.drop_zero, hR, Template.render,
    matchSuffix_render_iff T.plainText hslashed hhead hroute]
  exact ⟨vs, [], hvs, List.not_mem_nil, fun h => absurd rfl h, (List.append_nil _).symm⟩

/-- **When the matcher is sound.** What it accepts is an instance of the template, unless the route is
empty or an instance has more text without '/' behind its last literal. -/
theorem isInstance_sound_iff (T : Template) (initial : List E) (hne : initial ≠ [])
    (hn : initial.length = T.tail.length) (R : RouteString E)
    (hR : RouteString.construct T.render initial hne = .ok R) (route : Str) :
    (R.isInstance route = true → T.Instance route) ↔ route ≠ [] ∧ ¬T.Overrun route := by
  obtain ⟨-, hslashed, hhead⟩ := Template.slashed hn hR
  rw [isInstance_render_iff hn hR]
  constructor
  · refine fun h => ⟨?_, fun hover => ?_⟩
    · rintro rfl
      obtain ⟨vs, -, hnil⟩ := h (.inl rfl)
      obtain ⟨rest, hrest⟩ := fillFrom_eq_append T.head T.tail vs
      rw [Template.fill, hrest] at hnil
      exact hhead (List.append_eq_nil_iff.mp hnil.symm).1
    · obtain ⟨vs', hvs', heq⟩ := h (.inr (.inr hover))
      obtain ⟨hlast, vs, w, hvs, hw, -, rfl⟩ := hover
      exact hw (nil_of_fillFrom_append hslashed hlast hvs hvs' heq)
  · rintro ⟨hroute, hover⟩ (hnil | hinstance | h)
    · exact absurd hnil hroute
    · exact hinstance
    · exact absurd h hover

end

/-- `/a/{x}/b`. -/
def oneParam : Template where
  head := "/a/".toList
  tail := [(⟨"x".toList, none⟩, "/b".toList)]
  tail_ne := nofun
  plainText := ⟨by decide, by decide⟩

/-- The route string of `oneParam`, with a `std::string` parameter. -/
def oneParamRoute : RouteString StringExtractor where
  str := "/a/{x}/b".toList
  paramNames := ["x".toList]
  extractors := [{}]
  constructed := ⟨[{}], nofun, rfl⟩

theorem oneParam_slashed : Slashed oneParam.head oneParam.tail := ⟨rfl, .inr rfl, trivial⟩

theorem isInstance_fill_oneParam : oneParamRoute.isInstance (oneParam.fill ["{}".toList]) = true :=
  isInstance_fill oneParam oneParam_slashed oneParamRoute rfl ["{}".toList] ⟨rfl, by decide⟩

theorem isInstance_sound_oneParam :
    oneParamRoute.isInstance "/a/v/b".toList = true ∧ oneParam.Instance "/a/v/b".toList := by
  have haccepted : oneParamRoute.isInstance "/a/v/b".toList = true := by decide +kernel
  refine ⟨haccepted, (isInstance_sound_iff oneParam [({} : StringExtractor)] nofun rfl oneParamRoute
    rfl "/a/v/b".toList).mpr ⟨nofun, ?_⟩ haccepted⟩
  rintro ⟨-, vs, w, hvs, hw, -, heq⟩
  have hv : Values oneParam.tail ["v".toList] := ⟨rfl, by decide⟩
  exact hw (nil_of_fillFrom_append oneParam_slashed nofun hvs hv heq.symm)

/-- `/a/{x}/b` accepts `/a/v/bc`. -/
theorem isInstance_unsound :
    RouteString.construct oneParam.render [({} : StringExtractor)] nofun = .ok oneParamRoute ∧
      oneParamRoute.isInstance "/a/v/bc".toList = true ∧ ¬oneParam.Instance "/a/v/bc".toList := by
  have haccepted : RouteString.construct oneParam.render [({} : StringExtractor)] nofun =
    .ok oneParamRoute := rfl
  have hv : Values oneParam.tail ["v".toList] := ⟨rfl, by decide⟩
  have hn : [({} : StringExtractor)].length = oneParam.tail.length := rfl
  refine ⟨haccepted, (isInstance_render_iff hn haccepted _).mpr (.inr (.inr ?_)), ?_⟩
  · exact ⟨nofun, ["v".toList], "c".toList, hv, nofun, by decide, rfl⟩
  · rintro ⟨vs, hvs, heq⟩
    have hnil := nil_of_fillFrom_append (w := "c".toList) oneParam_slashed nofun hv hvs heq
    cases hnil

end Fipper
