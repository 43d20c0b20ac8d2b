import Fipper.Lib.Sequence
import Fipper.Server.Endpoints

/-!
# What the endpoint table keeps

Properties of `m_endpoints` after any sequence of registrations, read off its stacks.

* `texts_nodup_iff` : when each route has one entry;
* `table_newest` : the newest registration of a method and a route is never lost;
* `lookup_addEndpoint` : what a registration changes;
* `plain_selected_iff` : when a route without parameters is selected.
-/

namespace Fipper

open Lib

variable {E V : Type} [RouteStringExtractor E V] {C : Type}

/-- The text of the route a registration is for. -/
def Endpoint.text (endpoint : Endpoint E C) : Str := endpoint.route.getString

def Entry.text (entry : Entry E C) : Str := entry.route.getString

@[simp] theorem Entry.text_assign (entry : Entry E C) (endpoint : Endpoint E C) :
    (entry.assign endpoint).text = entry.text := rfl

@[simp] theorem Entry.text_single (endpoint : Endpoint E C) :
    (Entry.single endpoint).text = endpoint.text := rfl

/-! ## One entry for each route -/

theorem texts_pushTop (entries : List (Entry E C)) (endpoint : Endpoint E C) :
    (pushTop entries endpoint).map Entry.text =
      if (entries.map Entry.text).head? = some endpoint.text then entries.map Entry.text
      else endpoint.text :: entries.map Entry.text := by
  rcases pushTop_cases entries endpoint with ⟨entry, older, rfl, htext, hpush⟩ | ⟨hne, hpush⟩
  · have hhead : ((entry :: older).map Entry.text).head? = some endpoint.text := congrArg some htext
    rw [hpush, if_pos hhead]
    rfl
  · have hhead : (entries.map Entry.text).head? ≠ some endpoint.text := by
      rw [List.head?_map]
      intro hhead
      obtain ⟨entry, hentry, htext⟩ := Option.map_eq_some_iff.mp hhead
      exact hne entry hentry htext
    rw [hpush, if_neg hhead]
    rfl

/-- A stack has one entry for each run of registrations on the same route. -/
theorem texts_stack (group : List (Endpoint E C)) :
    (stack group).map Entry.text = (group.map Endpoint.text).destutter (· ≠ ·) := by
  induction group with
  | nil => rfl
  | cons endpoint group ih =>
      have hhead : ((stack group).map Entry.text).head? = (group.map Endpoint.text).head? := by
        cases group with
        | nil => rfl
        | cons endpoint' group =>
            obtain ⟨entry, entries, hstack, htext, -⟩ := stack_cons endpoint' group
            rw [hstack]
            exact congrArg some htext
      show (pushTop (stack group) endpoint).map Entry.text = _
      rw [texts_pushTop, hhead, ih, List.map_cons, destutter_cons]

/-- A route is not registered again behind another route of its length. -/
theorem noReturn_group_iff {registrations : List (Endpoint E C)} :
    (∀ n, NoReturn ((group registrations n).map Endpoint.text)) ↔
      ∀ a b c, [a, b, c].Sublist registrations → a.text = c.text → b.size = a.size →
        b.text = a.text := by
  constructor
  · intro h a b c hsub hac hsize
    have hsize' : c.size = a.size := (congrArg List.length hac).symm
    have hgroup : [c, b, a].Sublist (group registrations a.size) := by
      have hall : [a, b, c].reverse.filter (fun e => decide (e.size = a.size)) = [c, b, a] := by
        simp [hsize, hsize']
      rw [← hall]
      exact (List.reverse_sublist.mpr hsub).filter _
    rw [hac]
    exact h a.size c.text b.text a.text (hgroup.map Endpoint.text) hac.symm
  · intro h n x y z hsub hxz
    obtain ⟨l, hl, htexts⟩ := List.sublist_map_iff.mp hsub
    obtain ⟨c, b, a, rfl⟩ : ∃ c b a, l = [c, b, a] := by
      apply List.length_eq_three.mp
      rw [← List.length_map Endpoint.text, ← htexts]
      rfl
    simp only [List.map_cons, List.map_nil, List.cons.injEq, and_true] at htexts
    obtain ⟨rfl, rfl, rfl⟩ := htexts
    have hsize : ∀ e ∈ [c, b, a], e.size = n := fun e he =>
      of_decide_eq_true (List.mem_filter.mp (hl.subset he)).2
    have hsub : [a, b, c].Sublist registrations := by
      rw [← List.reverse_sublist]
      exact hl.trans List.filter_sublist
    rw [hxz]
    apply h a b c hsub hxz.symm
    rw [hsize b (by simp), hsize a (by simp)]

/-- **When each route has one entry.** No two entries have the same text, exactly when no route was
registered again after another route of its length. -/
theorem texts_nodup_iff (registrations : List (Endpoint E C)) :
    ((build registrations).map Entry.text).Nodup ↔
      ∀ a b c, [a, b, c].Sublist registrations → a.text = c.text → b.size = a.size →
        b.text = a.text := by
  rw [← noReturn_group_iff, nodup_map_iff_filter List.length]
  apply forall_congr'
  intro n
  rw [← nodup_destutter_iff, ← texts_stack, ← filter_build]
  rfl

/-- `GET /aa`, `GET /bb`, then `POST /aa`. -/
def sameLength : List (Endpoint StringExtractor Unit) :=
  [⟨.eGet, .plain ⟨"/aa".toList, rfl⟩, ()⟩, ⟨.eGet, .plain ⟨"/bb".toList, rfl⟩, ()⟩,
    ⟨.ePost, .plain ⟨"/aa".toList, rfl⟩, ()⟩]

/-- `/aa` has two entries. -/
theorem texts_sameLength :
    (build sameLength).map Entry.text = ["/aa".toList, "/bb".toList, "/aa".toList] ∧
      ¬((build sameLength).map Entry.text).Nodup := by
  have htexts : (build sameLength).map Entry.text = ["/aa".toList, "/bb".toList, "/aa".toList] := rfl
  refine ⟨htexts, ?_⟩
  rw [htexts]
  decide

/-! ## The newest registration -/

/-- An entry for the route `str` with an endpoint for `method`. -/
def Entry.serves (method : HttpMethod) (str : Str) (entry : Entry E C) : Bool :=
  entry.text = str && (entry.endpoints method).isSome

/-- A registration of `method` on the route `str`. -/
def Endpoint.serves (method : HttpMethod) (str : Str) (endpoint : Endpoint E C) : Bool :=
  endpoint.method = method && endpoint.text = str

/-- What the first entry for `method` and `str` holds. -/
def held (entries : List (Entry E C)) (method : HttpMethod) (str : Str) : Option (Endpoint E C) :=
  (entries.find? (·.serves method str)).bind (·.endpoints method)

@[simp] theorem Endpoint.serves_iff {method : HttpMethod} {str : Str} {endpoint : Endpoint E C} :
    endpoint.serves method str = true ↔ endpoint.method = method ∧ endpoint.text = str := by
  simp [serves]

theorem Entry.endpoints_assign (entry : Entry E C) (endpoint : Endpoint E C) (method : HttpMethod) :
    (entry.assign endpoint).endpoints method =
      if endpoint.method = method then some endpoint else entry.endpoints method := by
  show Function.update entry.endpoints endpoint.method (some endpoint) method = _
  rw [Function.update_apply]
  exact if_congr eq_comm rfl rfl

theorem held_cons (entry : Entry E C) (entries : List (Entry E C)) (method : HttpMethod) (str : Str) :
    held (entry :: entries) method str =
      if entry.text = str then (entry.endpoints method).or (held entries method str)
      else held entries method str := by
  unfold held
  rw [List.find?_cons]
  unfold Entry.serves
  by_cases htext : entry.text = str
  · rw [if_pos htext]
    cases hmethod : entry.endpoints method with
    | none => simp
    | some endpoint => simp [htext, hmethod]
  · rw [if_neg htext, decide_eq_false htext, Bool.false_and]

theorem held_pushTop (entries : List (Entry E C)) (endpoint : Endpoint E C) (method : HttpMethod)
    (str : Str) :
    held (pushTop entries endpoint) method str =
      if endpoint.serves method str then some endpoint else held entries method str := by
  have hassign : ∀ (entry : Entry E C) (entries : List (Entry E C)), entry.text = endpoint.text →
      held (entry.assign endpoint :: entries) method str =
        if endpoint.serves method str then some endpoint else held (entry :: entries) method str := by
    intro entry entries htext
    rw [held_cons, held_cons, Entry.text_assign, Entry.endpoints_assign, htext]
    by_cases hmethod : endpoint.method = method
    · by_cases hstr : endpoint.text = str
      · simp [hmethod, hstr]
      · simp [hstr]
    · simp [hmethod]
  have hsingle : ∀ entries : List (Entry E C), held (Entry.single endpoint :: entries) method str =
      if endpoint.serves method str then some endpoint else held entries method str := by
    intro entries
    refine (hassign ⟨endpoint.route, fun _ => none⟩ entries rfl).trans (if_congr Iff.rfl rfl ?_)
    rw [held_cons]
    exact ite_id _
  rcases pushTop_cases entries endpoint with ⟨entry, older, rfl, htext, hpush⟩ | ⟨-, hpush⟩
  · rw [hpush]
    exact hassign entry older htext
  · rw [hpush]
    exact hsingle entries

theorem held_stack (group : List (Endpoint E C)) (method : HttpMethod) (str : Str) :
    held (stack group) method str = group.find? (·.serves method str) := by
  induction group with
  | nil => rfl
  | cons endpoint group ih =>
      show held (pushTop (stack group) endpoint) method str = _
      rw [held_pushTop, ih, List.find?_cons]
      cases endpoint.serves method str <;> rfl

/-- The first entry for a route is among those of its length. -/
theorem held_filter (entries : List (Entry E C)) (method : HttpMethod) (str : Str) :
    held (entries.filter (·.size = str.length)) method str = held entries method str := by
  unfold held
  rw [List.find?_filter]
  congr 2
  funext entry
  rw [Entry.serves, Bool.eq_iff_iff]
  simp only [Bool.and_eq_true, decide_eq_true_eq]
  refine ⟨And.right, fun h => ⟨?_, h⟩⟩
  rw [← h.1]
  rfl

/-- The first entry for a method and a route holds the newest registration of the two. -/
theorem held_build (registrations : List (Endpoint E C)) (method : HttpMethod) (str : Str) :
    held (build registrations) method str = registrations.reverse.find? (·.serves method str) := by
  rw [← held_filter, filter_build, held_stack, group, List.find?_filter]
  congr 1
  funext endpoint
  rw [Bool.eq_iff_iff]
  simp only [decide_eq_true_eq, Endpoint.serves_iff]
  refine ⟨And.right, fun h => ⟨?_, h⟩⟩
  rw [← h.2]
  rfl

/-- The entries after a registration. -/
theorem mem_addEndpoint {entries : List (Entry E C)} {endpoint : Endpoint E C} {entry : Entry E C}
    (h : entry ∈ addEndpoint entries endpoint) :
    entry ∈ entries ∨ entry = Entry.single endpoint ∨
      ∃ older ∈ entries, older.text = endpoint.text ∧ entry = older.assign endpoint := by
  induction entries with
  | nil => exact .inr (.inl (List.mem_singleton.mp h))
  | cons front entries ih =>
      rw [addEndpoint_cons] at h
      split_ifs at h with hlen heq
      · rcases List.mem_cons.mp h with rfl | h
        · exact .inr (.inr ⟨front, List.mem_cons_self, RouteStringBase.eq_iff.mp heq, rfl⟩)
        · exact .inl (List.mem_cons_of_mem _ h)
      · rcases List.mem_cons.mp h with rfl | h
        · exact .inr (.inl rfl)
        · exact .inl h
      · rcases List.mem_cons.mp h with rfl | h
        · exact .inl List.mem_cons_self
        · rcases ih h with hmem | hsingle | ⟨older, hmem, holder⟩
          · exact .inl (List.mem_cons_of_mem _ hmem)
          · exact .inr (.inl hsingle)
          · exact .inr (.inr ⟨older, List.mem_cons_of_mem _ hmem, holder⟩)

/-- An entry holds registrations of its own route, each under its own method. -/
theorem registered_of_held {registrations : List (Endpoint E C)} {entry : Entry E C}
    (hentry : entry ∈ build registrations) {method : HttpMethod} {endpoint : Endpoint E C}
    (hheld : entry.endpoints method = some endpoint) :
    endpoint ∈ registrations ∧ endpoint.serves method entry.text = true := by
  have hassign : ∀ {older : Entry E C} {newest : Endpoint E C}, older.text = newest.text →
      (older.assign newest).endpoints method = some endpoint →
        (endpoint = newest ∧ endpoint.serves method older.text = true) ∨
          older.endpoints method = some endpoint := by
    intro older newest htext h
    rw [Entry.endpoints_assign] at h
    split_ifs at h with hmethod
    · obtain rfl := Option.some.inj h
      exact .inl ⟨rfl, Endpoint.serves_iff.mpr ⟨hmethod, htext.symm⟩⟩
    · exact .inr h
  induction registrations using List.reverseRecOn generalizing entry with
  | nil => exact absurd hentry List.not_mem_nil
  | append_singleton registrations newest ih =>
      rw [build_concat] at hentry
      rcases mem_addEndpoint hentry with hmem | rfl | ⟨older, hmem, htext, rfl⟩
      · obtain ⟨hregistered, hserves⟩ := ih hmem hheld
        exact ⟨List.mem_append_left _ hregistered, hserves⟩
      · rcases hassign rfl hheld with ⟨rfl, hserves⟩ | hnone
        · exact ⟨List.mem_append_right _ List.mem_cons_self, hserves⟩
        · cases hnone
      · rcases hassign htext hheld with ⟨rfl, hserves⟩ | holder
        · exact ⟨List.mem_append_right _ List.mem_cons_self, hserves⟩
        · obtain ⟨hregistered, hserves⟩ := ih hmem holder
          exact ⟨List.mem_append_left _ hregistered, hserves⟩

/-- **Order and retention.** The table is sorted by the length of the routes; for every method and
route that are registered, the first entry for them holds the newest registration of them; and what an
entry holds under a method was registered for that method and the route of the entry. -/
theorem table_retains (registrations : List (Endpoint E C)) :
    Sorted (build registrations) ∧
      (∀ method str, (∃ endpoint ∈ registrations, endpoint.serves method str = true) →
        ∃ entry newest, (build registrations).find? (·.serves method str) = some entry ∧
          registrations.reverse.find? (·.serves method str) = some newest ∧
          entry.endpoints method = some newest) ∧
      ∀ entry ∈ build registrations, ∀ method endpoint, entry.endpoints method = some endpoint →
        endpoint ∈ registrations ∧ endpoint.serves method entry.text = true := by
  refine ⟨sorted_build registrations, ?_, fun entry hentry method endpoint => registered_of_held hentry⟩
  rintro method str ⟨endpoint, hmem, hserves⟩
  have hsome : (registrations.reverse.find? (·.serves method str)).isSome = true :=
    List.find?_isSome.mpr ⟨endpoint, List.mem_reverse.mpr hmem, hserves⟩
  obtain ⟨newest, hnewest⟩ := Option.isSome_iff_exists.mp hsome
  have hheld := held_build registrations method str
  rw [hnewest] at hheld
  obtain ⟨entry, hentry, hendpoint⟩ := Option.bind_eq_some_iff.mp hheld
  exact ⟨entry, newest, hentry, hnewest, hendpoint⟩

/-! ## What a registration changes -/

/-- A registration does not concern the paths that are no instances of its route. -/
theorem find_addEndpoint {endpoint : Endpoint E C} {path : Str}
    (hpath : endpoint.route.isInstance path = false) (entries : List (Entry E C)) :
    (addEndpoint entries endpoint).find? (·.route.isInstance path) =
      entries.find? (·.route.isInstance path) := by
  induction entries with
  | nil =>
      rw [addEndpoint_nil, List.find?_cons, Entry.single_route, hpath]
  | cons entry entries ih =>
      rw [addEndpoint_cons]
      split_ifs with hlen heq
      · have hentry : entry.route.isInstance path = false := by
          rw [RouteStringBase.isInstance_congr (RouteStringBase.eq_iff.mp heq), hpath]
        rw [List.find?_cons, List.find?_cons, Entry.assign_route, hentry]
      · rw [List.find?_cons, Entry.single_route, hpath]
      · rw [List.find?_cons, List.find?_cons, ih]

/-- Where all routes are without parameters, the new endpoint is found. -/
theorem lookup_addEndpoint_plain {entries : List (Entry E C)} {endpoint : Endpoint E C}
    (hplain : ∀ entry ∈ entries, ∀ path, entry.route.isInstance path = true ↔ entry.text = path)
    (hendpoint : endpoint.route.isInstance endpoint.text = true) :
    lookup (addEndpoint entries endpoint) endpoint.method endpoint.text = .found endpoint := by
  have hfront : ∀ (entry : Entry E C) (entries : List (Entry E C)),
      entry.route.isInstance endpoint.text = true →
        lookup (entry.assign endpoint :: entries) endpoint.method endpoint.text = .found endpoint := by
    intro entry entries hmatch
    unfold lookup
    rw [List.find?_cons, Entry.assign_route, hmatch]
    simp only [Entry.endpoints_assign, if_true]
  induction entries with
  | nil => exact hfront ⟨endpoint.route, fun _ => none⟩ [] hendpoint
  | cons entry entries ih =>
      have hentry := hplain entry List.mem_cons_self endpoint.text
      rw [addEndpoint_cons]
      split_ifs with hlen heq
      · exact hfront entry entries (hentry.mpr (RouteStringBase.eq_iff.mp heq))
      · exact hfront ⟨endpoint.route, fun _ => none⟩ (entry :: entries) hendpoint
      · have hskip : entry.route.isInstance endpoint.text = false := by
          rw [Bool.eq_false_iff, Ne, hentry]
          intro htext
          apply hlen
          exact (congrArg List.length htext).ge
        have ih := ih fun e he => hplain e (List.mem_cons_of_mem _ he)
        unfold lookup at ih ⊢
        rw [List.find?_cons, hskip]
        exact ih

theorem isInstance_plain_iff {route : RouteStringBase E} (h : ∃ r, route = .plain r) (path : Str) :
    route.isInstance path = true ↔ route.getString = path := by
  obtain ⟨r, rfl⟩ := h
  exact beq_iff_eq

/-- **A registration affects its own paths.** What the dispatcher answers on a path that is no instance
of the new route stays the same; and where all routes are without parameters, the new endpoint is found
under its method and route. -/
theorem lookup_addEndpoint (registrations : List (Endpoint E C)) (endpoint : Endpoint E C) :
    (∀ method path, endpoint.route.isInstance path = false →
        lookup (build (registrations ++ [endpoint])) method path =
          lookup (build registrations) method path) ∧
      ((∀ e ∈ registrations ++ [endpoint], ∃ r, e.route = .plain r) →
        lookup (build (registrations ++ [endpoint])) endpoint.method endpoint.text =
          .found endpoint) := by
  rw [build_concat]
  constructor
  · intro method path hpath
    unfold lookup
    rw [find_addEndpoint hpath]
  · intro hplain
    apply lookup_addEndpoint_plain
    · intro entry hentry path
      obtain ⟨e, he, htext⟩ := (text_build registrations _).mp ⟨entry, hentry, rfl⟩
      rw [← RouteStringBase.isInstance_congr htext,
        isInstance_plain_iff (hplain e (List.mem_append_left _ he)), htext]
      rfl
    · exact (isInstance_plain_iff (hplain endpoint (List.mem_append_right _ List.mem_cons_self)) _).mpr rfl

/-- `POST /aa` is found when it has been registered. -/
theorem lookup_sameLength :
    (∀ e ∈ sameLength, ∃ r, e.route = .plain r) ∧
      ∃ post : Endpoint StringExtractor Unit, post ∈ sameLength ∧
        lookup (build sameLength) .ePost "/aa".toList = .found post := by
  have hplain : ∀ e ∈ sameLength, ∃ r, e.route = .plain r := by
    intro e he
    simp only [sameLength, List.mem_cons, List.not_mem_nil, or_false] at he
    rcases he with rfl | rfl | rfl
    · exact ⟨_, rfl⟩
    · exact ⟨_, rfl⟩
    · exact ⟨_, rfl⟩
  refine ⟨hplain, ⟨.ePost, .plain ⟨"/aa".toList, rfl⟩, ()⟩, by simp [sameLength], ?_⟩
  exact (lookup_addEndpoint [⟨.eGet, .plain ⟨"/aa".toList, rfl⟩, ()⟩, ⟨.eGet, .plain ⟨"/bb".toList, rfl⟩, ()⟩]
    ⟨.ePost, .plain ⟨"/aa".toList, rfl⟩, ()⟩).2 hplain

/-! ## Routes without parameters -/

theorem find_text_pushTop (entries : List (Entry E C)) (endpoint : Endpoint E C) (path : Str) :
    ((pushTop entries endpoint).find? (·.route.isInstance path)).map Entry.text =
      if endpoint.route.isInstance path then some endpoint.text
      else (entries.find? (·.route.isInstance path)).map Entry.text := by
  have hfront : ∀ (entry : Entry E C) (entries : List (Entry E C)), entry.text = endpoint.text →
      ((entry.assign endpoint :: entries).find? (·.route.isInstance path)).map Entry.text =
        if endpoint.route.isInstance path then some endpoint.text
        else (entries.find? (·.route.isInstance path)).map Entry.text := by
    intro entry entries htext
    rw [List.find?_cons, Entry.assign_route, RouteStringBase.isInstance_congr htext]
    cases endpoint.route.isInstance path with
    | true => exact congrArg some htext
    | false => rfl
  rcases pushTop_cases entries endpoint with ⟨entry, older, rfl, htext, hpush⟩ | ⟨-, hpush⟩
  · rw [hpush, hfront entry older htext, List.find?_cons, RouteStringBase.isInstance_congr htext]
    cases endpoint.route.isInstance path <;> rfl
  · rw [hpush]
    exact hfront ⟨endpoint.route, fun _ => none⟩ entries rfl

theorem find_text_stack (group : List (Endpoint E C)) (path : Str) :
    ((stack group).find? (·.route.isInstance path)).map Entry.text =
      (group.find? (·.route.isInstance path)).map Endpoint.text := by
  induction group with
  | nil => rfl
  | cons endpoint group ih =>
      show ((pushTop (stack group) endpoint).find? _).map Entry.text = _
      rw [find_text_pushTop, ih, List.find?_cons]
      cases endpoint.route.isInstance path <;> rfl

/-- The selected route is the one registered last, among those of the shortest matching length. -/
theorem find_text_build {registrations : List (Endpoint E C)} {path : Str} {n : Nat}
    (h : shortest registrations path = some n) :
    ((build registrations).find? (·.route.isInstance path)).map Entry.text =
      (registrations.reverse.find? fun e => e.size = n ∧ e.route.isInstance path).map Endpoint.text := by
  rw [find_build_stack h, find_text_stack, group, List.find?_filter]
  simp only [decide_eq_true_eq]

/-- A template with parameters and a route without are never the same text. -/
theorem text_ne {route route' : RouteStringBase E} (h : ∃ r, route = .plain r)
    (h' : ∃ r, route' = .params r) : route'.getString ≠ route.getString := by
  obtain ⟨r, rfl⟩ := h
  obtain ⟨r', rfl⟩ := h'
  intro heq
  have heq : r'.str = r.str := heq
  exact r.notMem (heq ▸ r'.mem)

/-- A registration whose route `path` is, is an instance of, or is not. -/
theorem text_or_params {path : Str} {endpoint : Endpoint E C}
    (h : endpoint.route.isInstance path = true) :
    endpoint.text = path ∨ ∃ r, endpoint.route = .params r := by
  cases hroute : endpoint.route with
  | plain r =>
      have hiff := isInstance_plain_iff ⟨r, hroute⟩ path
      exact .inl (hiff.mp h)
  | params r => exact .inr ⟨r, rfl⟩

/-- **When a route without parameters is selected.** For a path that is such a route, registered before,
the dispatcher selects an entry of this route, exactly when every template with parameters that the path
is an instance of is longer, or just as long and the route was registered again after it. -/
theorem plain_selected_iff (registrations : List (Endpoint E C)) (path : Str)
    (hplain : ∃ endpoint ∈ registrations, endpoint.text = path ∧ ∃ r, endpoint.route = .plain r) :
    (∃ entry, (build registrations).find? (·.route.isInstance path) = some entry ∧ entry.text = path) ↔
      ∀ older endpoint newer, registrations = older ++ endpoint :: newer →
        (∃ r, endpoint.route = .params r) → endpoint.route.isInstance path = true →
          path.length < endpoint.size ∨
            path.length = endpoint.size ∧ ∃ exact ∈ newer, exact.text = path := by
  obtain ⟨exact, hexact, htext, hroute⟩ := hplain
  have hmatches : ∀ {e : Endpoint E C}, e.text = path → e.route.isInstance path = true := by
    intro e he
    rw [RouteStringBase.isInstance_congr (he.trans htext.symm), isInstance_plain_iff hroute]
    exact htext
  have hlength : ∀ {e : Endpoint E C}, e.text = path → path.length = e.size := by
    rintro e rfl
    rfl
  obtain ⟨n, hn⟩ : ∃ n, shortest registrations path = some n := by
    cases hshortest : shortest registrations path with
    | none => exact absurd (hmatches htext) (by rw [shortest_eq_none hshortest exact hexact]; decide)
    | some n => exact ⟨n, rfl⟩
  obtain ⟨⟨least, hleast, hmatch, hsize⟩, hle⟩ := shortest_eq_some hn
  rw [← Option.map_eq_some_iff, find_text_build hn, Option.map_eq_some_iff, exists_last_iff]
  simp only [decide_eq_true_eq]
  constructor
  · rintro ⟨-, hlast⟩ older endpoint newer hsplit hparams hinstance
    have hnot : endpoint.text ≠ path := fun heq => text_ne hroute hparams (heq.trans htext.symm)
    have hmem : endpoint ∈ registrations := by
      rw [hsplit]
      exact List.mem_append_right _ List.mem_cons_self
    have hpath : path.length = n := by
      obtain ⟨before, after, hleast⟩ := List.append_of_mem hleast
      rcases hlast before least after hleast ⟨hsize, hmatch⟩ with heq | ⟨later, -, hlater, heq⟩
      · rw [hlength heq, hsize]
      · rw [hlength heq, hlater.1]
    rcases (hle endpoint hmem hinstance).lt_or_eq with hlt | heq
    · exact .inl (hpath.trans_lt hlt)
    · rcases hlast older endpoint newer hsplit ⟨heq.symm, hinstance⟩ with htext' | ⟨later, hlater, -, heq'⟩
      · exact absurd htext' hnot
      · exact .inr ⟨hpath.trans heq, later, hlater, heq'⟩
  · intro hlonger
    have hpath : path.length = n := by
      apply le_antisymm
      · rcases text_or_params hmatch with heq | hparams
        · rw [hlength heq, hsize]
        · obtain ⟨older, newer, hsplit⟩ := List.append_of_mem hleast
          rw [← hsize]
          exact (hlonger older least newer hsplit hparams hmatch).elim le_of_lt fun h => h.1.le
      · rw [hlength htext]
        exact hle exact hexact (hmatches htext)
    refine ⟨⟨least, hleast, hsize, hmatch⟩, ?_⟩
    rintro older endpoint newer hsplit ⟨hn, hinstance⟩
    rcases text_or_params hinstance with heq | hparams
    · exact .inl heq
    · rcases hlonger older endpoint newer hsplit hparams hinstance with hlt | ⟨-, later, hlater, heq⟩
      · omega
      · exact .inr ⟨later, hlater, ⟨(hlength heq).symm.trans hpath, hmatches heq⟩, heq⟩

/-- `/{any}`. -/
def anyRoute : RouteString StringExtractor :=
  ⟨"/{any}".toList, ["any".toList], [{}], [{}], List.cons_ne_nil _ _, rfl⟩

/-- `GET /me`, then `GET /{any}`. -/
def meThenAny : List (Endpoint StringExtractor Unit) :=
  [⟨.eGet, .plain ⟨"/me".toList, rfl⟩, ()⟩,
    ⟨.eGet, .params anyRoute, ()⟩]

theorem plain_selected_me :
    ∃ entry, (build meThenAny).find? (·.route.isInstance "/me".toList) = some entry ∧
      entry.text = "/me".toList := by
  apply (plain_selected_iff meThenAny "/me".toList ⟨_, List.mem_cons_self, rfl, _, rfl⟩).mpr
  intro older endpoint newer hsplit hparams _
  have hmem : endpoint ∈ meThenAny := by
    rw [hsplit]
    exact List.mem_append_right _ List.mem_cons_self
  simp only [meThenAny, List.mem_cons, List.not_mem_nil, or_false] at hmem
  rcases hmem with rfl | rfl
  · obtain ⟨r, hr⟩ := hparams
    cases hr
  · exact .inl (by decide)

/-- `GET /welcome`, then `GET /{any}`. -/
def welcomeThenAny : List (Endpoint StringExtractor Unit) :=
  [⟨.eGet, .plain ⟨"/welcome".toList, rfl⟩, ()⟩,
    ⟨.eGet, .params anyRoute, ()⟩]

/-- `/welcome` is registered, and a request for it gets the shorter `/{any}`. -/
theorem welcomeThenAny_shadowed :
    (∃ endpoint ∈ welcomeThenAny, endpoint.text = "/welcome".toList ∧ ∃ r, endpoint.route = .plain r) ∧
      ¬∃ entry, (build welcomeThenAny).find? (·.route.isInstance "/welcome".toList) = some entry ∧
        entry.text = "/welcome".toList := by
  refine ⟨⟨_, List.mem_cons_self, rfl, _, rfl⟩, ?_⟩
  rintro ⟨entry, hentry, htext⟩
  have hfirst : ∀ entry ∈ (build welcomeThenAny).find? (·.route.isInstance "/welcome".toList),
      entry.text = "/{any}".toList := by
    decide +kernel
  rw [hfirst entry hentry] at htext
  cases htext

end Fipper
