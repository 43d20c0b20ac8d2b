import Fipper.Route.Match
import Mathlib.Data.List.Induction
import Mathlib.Logic.Function.Basic

/-!
# The endpoint table

`m_endpoints`, how `m_addEndpoint` fills it and how the dispatcher reads it. An `Endpoint` is one
registration, `build` the table after a sequence of them, the oldest first.

The table is sorted by the length of the routes, and the entries of one length are a stack: a new
registration is merged into the top entry if that is for the same route, else it goes on top
(`filter_build`). Hence the dispatcher answers from the newest block of registrations of one
matching route, among those of the shortest matching length (`lookup_build`).
-/

namespace Fipper

variable {E V : Type} [RouteStringExtractor E V] {C : Type}

/-- `Endpoint<Func>`: the method and the route it was registered for, and its callback, to which the source has a
reference. -/
structure Endpoint (E : Type) {V : Type} [RouteStringExtractor E V] (C : Type) where
  method : HttpMethod
  route : RouteStringBase E
  callback : C

/-- An element of `m_endpoints`: a route and its map of endpoints. -/
structure Entry (E : Type) {V : Type} [RouteStringExtractor E V] (C : Type) where
  route : RouteStringBase E
  endpoints : HttpMethod → Option (Endpoint E C)

/-- `it->second[method] = endpoint`. -/
def Entry.assign (entry : Entry E C) (endpoint : Endpoint E C) : Entry E C :=
  { entry with endpoints := Function.update entry.endpoints endpoint.method (some endpoint) }

/-- `Server::m_addEndpoint`. -/
def addEndpoint (endpoints : List (Entry E C)) (endpoint : Endpoint E C) : List (Entry E C) :=
  let it := endpoints.findIdx fun entry =>
    decide (entry.route.getString.length ≥ endpoint.route.getString.length)
  let absent := match endpoints[it]? with
    | none => true
    | some entry => !entry.route.eq endpoint.route
  let endpoints :=
    if absent then endpoints.insertIdx it ⟨endpoint.route, fun _ => none⟩ else endpoints
  endpoints.modify it fun entry => entry.assign endpoint

/-- The table after the registrations, made in the order of the list. -/
def build (registrations : List (Endpoint E C)) : List (Entry E C) :=
  registrations.foldl addEndpoint []

/-- What the dispatcher finds for a method and a path. -/
inductive Lookup (E : Type) {V : Type} [RouteStringExtractor E V] (C : Type)
  | notFound
  | methodNotAllowed
  | found (endpoint : Endpoint E C)

/-- The search of `Server::m_handleRequest`. -/
def lookup (endpoints : List (Entry E C)) (method : HttpMethod) (path : Str) : Lookup E C :=
  match endpoints.find? fun entry => entry.route.isInstance path with
  | none => .notFound
  | some entry =>
      match entry.endpoints method with
      | none => .methodNotAllowed
      | some endpoint => .found endpoint

/-! ## One registration -/

def Entry.single (endpoint : Endpoint E C) : Entry E C :=
  Entry.assign ⟨endpoint.route, fun _ => none⟩ endpoint

@[simp] theorem Entry.assign_route (entry : Entry E C) (endpoint : Endpoint E C) :
    (entry.assign endpoint).route = entry.route := rfl

@[simp] theorem Entry.single_route (endpoint : Endpoint E C) :
    (Entry.single endpoint).route = endpoint.route := rfl

theorem addEndpoint_nil (endpoint : Endpoint E C) :
    addEndpoint [] endpoint = [Entry.single endpoint] := rfl

/-- A registration on the entry at the front, or further on. -/
theorem addEndpoint_cons (entry : Entry E C) (entries : List (Entry E C)) (endpoint : Endpoint E C) :
    addEndpoint (entry :: entries) endpoint =
      if entry.route.getString.length ≥ endpoint.route.getString.length then
        if entry.route.eq endpoint.route then entry.assign endpoint :: entries
        else Entry.single endpoint :: entry :: entries
      else entry :: addEndpoint entries endpoint := by
  unfold addEndpoint
  rw [List.findIdx_cons]
  by_cases hlen : entry.route.getString.length ≥ endpoint.route.getString.length
  · cases heq : entry.route.eq endpoint.route <;> simp [hlen, heq, Entry.single]
  · simp only [hlen, decide_false, cond_false, if_false, List.getElem?_cons_succ]
    split_ifs <;> simp

def Entry.size (entry : Entry E C) : Nat := entry.route.getString.length

def Endpoint.size (endpoint : Endpoint E C) : Nat := endpoint.route.getString.length

@[simp] theorem Entry.size_assign (entry : Entry E C) (endpoint : Endpoint E C) :
    (entry.assign endpoint).size = entry.size := rfl

@[simp] theorem Entry.size_single (endpoint : Endpoint E C) :
    (Entry.single endpoint).size = endpoint.size := rfl

theorem text_addEndpoint (entries : List (Entry E C)) (endpoint : Endpoint E C) (str : Str) :
    (∃ entry ∈ addEndpoint entries endpoint, entry.route.getString = str) ↔
      endpoint.route.getString = str ∨ ∃ entry ∈ entries, entry.route.getString = str := by
  induction entries with
  | nil => simp [addEndpoint_nil]
  | cons entry entries ih =>
      rw [addEndpoint_cons]
      split_ifs with hlen heq
      · rw [RouteStringBase.eq_iff] at heq
        simp only [List.mem_cons, exists_eq_or_imp, Entry.assign_route, heq]
        tauto
      · simp only [List.mem_cons, exists_eq_or_imp, Entry.single_route]
      · simp only [List.mem_cons, exists_eq_or_imp, ih]
        tauto

def Sorted (entries : List (Entry E C)) : Prop :=
  entries.Pairwise fun entry entry' => entry.size ≤ entry'.size

theorem sorted_addEndpoint {entries : List (Entry E C)} (h : Sorted entries)
    (endpoint : Endpoint E C) : Sorted (addEndpoint entries endpoint) := by
  induction entries with
  | nil => exact List.pairwise_singleton _ _
  | cons entry entries ih =>
      have hcons := List.pairwise_cons.mp h
      rw [addEndpoint_cons]
      split_ifs with hlen heq
      · exact List.pairwise_cons.mpr ⟨hcons.1, hcons.2⟩
      · refine List.pairwise_cons.mpr ⟨fun entry' hmem => ?_, h⟩
        rcases List.mem_cons.mp hmem with rfl | hmem
        · exact hlen
        · exact le_trans hlen (hcons.1 entry' hmem)
      · refine List.pairwise_cons.mpr ⟨fun entry' hmem => ?_, ih hcons.2⟩
        rcases (text_addEndpoint entries endpoint _).mp ⟨entry', hmem, rfl⟩ with htext | ⟨x, hx, htext⟩
        · rw [Entry.size, Entry.size, ← htext]
          omega
        · rw [Entry.size, Entry.size, ← htext]
          exact hcons.1 x hx

/-- A registration among those of its length. -/
def pushTop (entries : List (Entry E C)) (endpoint : Endpoint E C) : List (Entry E C) :=
  match entries with
  | [] => [Entry.single endpoint]
  | entry :: entries =>
      if entry.route.eq endpoint.route then entry.assign endpoint :: entries
      else Entry.single endpoint :: entry :: entries

theorem pushTop_cases (entries : List (Entry E C)) (endpoint : Endpoint E C) :
    (∃ entry older, entries = entry :: older ∧
        entry.route.getString = endpoint.route.getString ∧
        pushTop entries endpoint = entry.assign endpoint :: older) ∨
      ((∀ entry ∈ entries.head?, entry.route.getString ≠ endpoint.route.getString) ∧
        pushTop entries endpoint = Entry.single endpoint :: entries) := by
  cases entries with
  | nil => exact .inr ⟨nofun, rfl⟩
  | cons entry older =>
      unfold pushTop
      dsimp only
      by_cases htop : entry.route.eq endpoint.route = true
      · rw [if_pos htop]
        exact .inl ⟨entry, older, rfl, RouteStringBase.eq_iff.mp htop, rfl⟩
      · rw [if_neg htop]
        refine .inr ⟨fun entry' hentry => ?_, rfl⟩
        obtain rfl := Option.some.inj hentry
        exact mt RouteStringBase.eq_iff.mpr htop

theorem filter_addEndpoint {entries : List (Entry E C)} (h : Sorted entries)
    (endpoint : Endpoint E C) (n : Nat) :
    (addEndpoint entries endpoint).filter (·.size = n) =
      if endpoint.size = n then pushTop (entries.filter (·.size = n)) endpoint
      else entries.filter (·.size = n) := by
  induction entries with
  | nil => by_cases hn : endpoint.size = n <;> simp [addEndpoint_nil, hn, pushTop]
  | cons entry entries ih =>
      have hcons := List.pairwise_cons.mp h
      rw [addEndpoint_cons]
      by_cases hlen : entry.route.getString.length ≥ endpoint.route.getString.length
      · rw [if_pos hlen]
        cases heq : entry.route.eq endpoint.route with
        | true =>
            have hsize : entry.size = endpoint.size :=
              congrArg List.length (RouteStringBase.eq_iff.mp heq)
            by_cases hn : endpoint.size = n <;> simp [hsize, hn, pushTop, heq]
        | false =>
            rw [if_neg (by decide), List.filter_cons, Entry.size_single]
            by_cases hn : endpoint.size = n
            · rw [if_pos (decide_eq_true hn), if_pos hn]
              by_cases hentry : entry.size = n
              · simp [hentry, pushTop, heq]
              · -- the whole rest of the table is longer
                have hlonger : ∀ entry' ∈ entry :: entries, ¬entry'.size = n := by
                  have hlen : endpoint.size ≤ entry.size := hlen
                  intro entry' hmem
                  rcases List.mem_cons.mp hmem with rfl | hmem
                  · exact hentry
                  · have := hcons.1 entry' hmem
                    omega
                have hnil : (entry :: entries).filter (·.size = n) = [] :=
                  List.filter_eq_nil_iff.mpr fun entry' hmem => by simpa using hlonger entry' hmem
                rw [hnil]
                rfl
            · rw [if_neg (by simpa using hn), if_neg hn]
      · rw [if_neg hlen, List.filter_cons, List.filter_cons, ih hcons.2]
        by_cases hn : endpoint.size = n
        · have hentry : ¬entry.size = n := by
            have hlen : ¬endpoint.size ≤ entry.size := hlen
            omega
          simp [hentry, hn]
        · simp [hn]

/-- The entries of one length, from the registrations of that length, the newest first. -/
def stack (group : List (Endpoint E C)) : List (Entry E C) :=
  group.foldr (fun endpoint entries => pushTop entries endpoint) []

/-- The registrations of one length, the newest first. -/
def group (registrations : List (Endpoint E C)) (n : Nat) : List (Endpoint E C) :=
  registrations.reverse.filter (·.size = n)

theorem build_concat (registrations : List (Endpoint E C)) (endpoint : Endpoint E C) :
    build (registrations ++ [endpoint]) = addEndpoint (build registrations) endpoint :=
  List.foldl_concat ..

theorem sorted_build (registrations : List (Endpoint E C)) : Sorted (build registrations) := by
  induction registrations using List.reverseRecOn with
  | nil => exact List.Pairwise.nil
  | append_singleton registrations endpoint ih =>
      rw [build_concat]
      exact sorted_addEndpoint ih endpoint

theorem text_build (registrations : List (Endpoint E C)) (str : Str) :
    (∃ entry ∈ build registrations, entry.route.getString = str) ↔
      ∃ endpoint ∈ registrations, endpoint.route.getString = str := by
  induction registrations using List.reverseRecOn with
  | nil => simp [build]
  | append_singleton registrations endpoint ih =>
      rw [build_concat, text_addEndpoint, ih]
      simp only [List.mem_append, List.mem_singleton, or_and_right, exists_or, exists_eq_left]
      exact or_comm

theorem group_concat (registrations : List (Endpoint E C)) (endpoint : Endpoint E C) (n : Nat) :
    group (registrations ++ [endpoint]) n =
      if endpoint.size = n then endpoint :: group registrations n else group registrations n := by
  rw [group, List.reverse_concat, List.filter_cons]
  simp only [decide_eq_true_eq]
  rfl

/-- The entries of one length are the stack of the registrations of that length. -/
theorem filter_build (registrations : List (Endpoint E C)) (n : Nat) :
    (build registrations).filter (·.size = n) = stack (group registrations n) := by
  induction registrations using List.reverseRecOn with
  | nil => rfl
  | append_singleton registrations endpoint ih =>
      rw [build_concat, filter_addEndpoint (sorted_build registrations), ih, group_concat]
      split_ifs <;> rfl

/-! ## What the dispatcher finds -/

/-- The registrations on the same route as `endpoint`, up to the first that is on another. -/
def sameRoute (endpoint : Endpoint E C) (endpoints : List (Endpoint E C)) : List (Endpoint E C) :=
  endpoints.takeWhile fun endpoint' => endpoint'.route.eq endpoint.route

/-- The newest registration that `path` is an instance of, and those on the same route before it. -/
def block (path : Str) (group : List (Endpoint E C)) : List (Endpoint E C) :=
  match group.dropWhile fun endpoint => !endpoint.route.isInstance path with
  | [] => []
  | endpoint :: endpoints => endpoint :: sameRoute endpoint endpoints

/-- An assignment to the map finds the newest registration for each method. -/
theorem assign_find {endpoints : HttpMethod → Option (Endpoint E C)} {older : List (Endpoint E C)}
    (h : ∀ method, endpoints method = older.find? (·.method = method)) (endpoint : Endpoint E C)
    (method : HttpMethod) :
    Function.update endpoints endpoint.method (some endpoint) method =
      (endpoint :: older).find? (·.method = method) := by
  rw [List.find?_cons]
  by_cases hm : method = endpoint.method
  · rw [hm, Function.update_self]
    simp
  · rw [Function.update_of_ne hm, h]
    simp [Ne.symm hm]

theorem single_find (endpoint : Endpoint E C) (method : HttpMethod) :
    (Entry.single endpoint).endpoints method = [endpoint].find? (·.method = method) :=
  @assign_find _ _ _ _ (fun _ => none) [] (fun _ => rfl) endpoint method

theorem stack_cons (endpoint : Endpoint E C) (group : List (Endpoint E C)) :
    ∃ entry entries, stack (endpoint :: group) = entry :: entries ∧
      entry.route.getString = endpoint.route.getString ∧
      ∀ method, entry.endpoints method =
        (endpoint :: sameRoute endpoint group).find? (·.method = method) := by
  induction group generalizing endpoint with
  | nil => exact ⟨_, [], rfl, rfl, single_find endpoint⟩
  | cons endpoint' group ih =>
      obtain ⟨entry, entries, hstack, htext, hendpoints⟩ := ih endpoint'
      have hpush : stack (endpoint :: endpoint' :: group) = pushTop (entry :: entries) endpoint :=
        congrArg (pushTop · endpoint) hstack
      rw [hpush, pushTop, sameRoute, List.takeWhile_cons]
      cases heq : entry.route.eq endpoint.route with
      | true =>
          have htext' : endpoint'.route.getString = endpoint.route.getString :=
            htext.symm.trans (RouteStringBase.eq_iff.mp heq)
          have hsame : sameRoute endpoint' group = sameRoute endpoint group := by
            rw [sameRoute, sameRoute]
            simp only [RouteStringBase.eq, htext']
          rw [if_pos rfl, if_pos (RouteStringBase.eq_iff.mpr htext')]
          refine ⟨_, _, rfl, htext.trans htext', ?_⟩
          rw [hsame] at hendpoints
          exact assign_find hendpoints endpoint
      | false =>
          have hne : endpoint'.route.eq endpoint.route ≠ true := by
            rw [Ne, RouteStringBase.eq_iff, ← htext, ← RouteStringBase.eq_iff, heq]
            decide
          rw [if_neg (by decide), if_neg hne]
          exact ⟨_, _, rfl, rfl, single_find endpoint⟩

theorem find_pushTop {endpoint : Endpoint E C} {path : Str}
    (hpath : endpoint.route.isInstance path = false) (entries : List (Entry E C)) :
    (pushTop entries endpoint).find? (·.route.isInstance path) =
      entries.find? (·.route.isInstance path) := by
  rcases pushTop_cases entries endpoint with ⟨entry, older, rfl, htext, hpush⟩ | ⟨-, hpush⟩
  · have hentry : entry.route.isInstance path = false := by
      rw [RouteStringBase.isInstance_congr htext, hpath]
    rw [hpush, List.find?_cons, List.find?_cons, Entry.assign_route, hentry]
  · rw [hpush, List.find?_cons, Entry.single_route, hpath]

/-- The first matching entry of a stack has the endpoints of the newest matching block. -/
theorem find_stack (path : Str) (group : List (Endpoint E C)) :
    ((stack group).find? (·.route.isInstance path)).map Entry.endpoints =
      match block path group with
      | [] => none
      | endpoint :: endpoints =>
          some fun method => (endpoint :: endpoints).find? (·.method = method) := by
  induction group with
  | nil => rfl
  | cons endpoint group ih =>
      cases hmatch : endpoint.route.isInstance path with
      | true =>
          obtain ⟨entry, entries, hstack, htext, hendpoints⟩ := stack_cons endpoint group
          have hentry : entry.route.isInstance path = true := by
            rw [RouteStringBase.isInstance_congr htext, hmatch]
          rw [hstack, List.find?_cons, hentry, block, List.dropWhile_cons, hmatch]
          apply congrArg some
          funext method
          exact hendpoints method
      | false =>
          have hblock : block path (endpoint :: group) = block path group := by
            rw [block, List.dropWhile_cons, hmatch]
            rfl
          rw [hblock, ← ih]
          exact congrArg (Option.map Entry.endpoints) (find_pushTop hmatch (stack group))

/-- In a sorted table, the first match is among the entries of the shortest matching length. -/
theorem find_filter {entries : List (Entry E C)} (h : Sorted entries) {path : Str} {n : Nat}
    (hmin : ∀ entry ∈ entries, entry.route.isInstance path = true → n ≤ entry.size)
    (hex : ∃ entry ∈ entries, entry.route.isInstance path = true ∧ entry.size = n) :
    entries.find? (·.route.isInstance path) =
      (entries.filter (·.size = n)).find? (·.route.isInstance path) := by
  induction entries with
  | nil => rfl
  | cons entry entries ih =>
      have hcons := List.pairwise_cons.mp h
      obtain ⟨entry', hmem, hmatch', hn⟩ := hex
      cases hmatch : entry.route.isInstance path with
      | true =>
          have hle := hmin entry List.mem_cons_self hmatch
          have hsize : entry.size = n := by
            rcases List.mem_cons.mp hmem with rfl | hmem
            · exact hn
            · have := hcons.1 entry' hmem
              omega
          simp [hmatch, hsize]
      | false =>
          have hmem : entry' ∈ entries := by
            rcases List.mem_cons.mp hmem with rfl | hmem
            · rw [hmatch] at hmatch'
              cases hmatch'
            · exact hmem
          have ih := ih hcons.2 (fun e he => hmin e (List.mem_cons_of_mem _ he))
            ⟨entry', hmem, hmatch', hn⟩
          rw [List.find?_cons, hmatch, ih, List.filter_cons]
          split_ifs
          · rw [List.find?_cons, hmatch]
          · rfl

/-- The length of the shortest route that `path` is an instance of. -/
def shortest (registrations : List (Endpoint E C)) (path : Str) : Option Nat :=
  ((registrations.filter (·.route.isInstance path)).map Endpoint.size).min?

/-- The newest block of registrations of one route among those of the shortest matching length. -/
def newestBlock (registrations : List (Endpoint E C)) (path : Str) : List (Endpoint E C) :=
  match shortest registrations path with
  | none => []
  | some n => block path (group registrations n)

theorem shortest_eq_none {registrations : List (Endpoint E C)} {path : Str}
    (h : shortest registrations path = none) :
    ∀ endpoint ∈ registrations, endpoint.route.isInstance path = false := by
  rw [shortest, List.min?_eq_none_iff, List.map_eq_nil_iff, List.filter_eq_nil_iff] at h
  exact fun endpoint hmem => Bool.eq_false_iff.mpr (h endpoint hmem)

theorem shortest_eq_some {registrations : List (Endpoint E C)} {path : Str} {n : Nat}
    (h : shortest registrations path = some n) :
    (∃ endpoint ∈ registrations, endpoint.route.isInstance path = true ∧ endpoint.size = n) ∧
      ∀ endpoint ∈ registrations, endpoint.route.isInstance path = true → n ≤ endpoint.size := by
  rw [shortest, List.min?_eq_some_iff] at h
  obtain ⟨hmem, hle⟩ := h
  simp only [List.mem_map, List.mem_filter] at hmem hle
  obtain ⟨endpoint, ⟨hmem, hmatch⟩, hn⟩ := hmem
  exact ⟨⟨endpoint, hmem, hmatch, hn⟩, fun e he hmatch => hle _ ⟨e, ⟨he, hmatch⟩, rfl⟩⟩

theorem mem_block {path : Str} {group : List (Endpoint E C)} {endpoint : Endpoint E C}
    (h : endpoint ∈ block path group) :
    endpoint ∈ group ∧ endpoint.route.isInstance path = true := by
  unfold block at h
  split at h
  · cases h
  · next newest older hdrop =>
      have hsuffix : newest :: older <:+ group := hdrop ▸ List.dropWhile_suffix _
      have hmatch : newest.route.isInstance path = true := by
        have := List.head?_dropWhile_not (fun e : Endpoint E C => !e.route.isInstance path) group
        rw [hdrop] at this
        simpa using this
      rcases List.mem_cons.mp h with rfl | h
      · exact ⟨hsuffix.subset List.mem_cons_self, hmatch⟩
      · refine ⟨hsuffix.subset (List.mem_cons_of_mem _ ((List.takeWhile_prefix _).subset h)), ?_⟩
        have hsame : endpoint.route.eq newest.route = true := by
          simpa using List.mem_takeWhile_imp h
        rw [RouteStringBase.isInstance_congr (RouteStringBase.eq_iff.mp hsame), hmatch]

theorem mem_newestBlock {registrations : List (Endpoint E C)} {path : Str} {endpoint : Endpoint E C}
    (h : endpoint ∈ newestBlock registrations path) :
    endpoint ∈ registrations ∧ endpoint.route.isInstance path = true := by
  unfold newestBlock at h
  split at h
  · cases h
  · obtain ⟨hmem, hmatch⟩ := mem_block h
    exact ⟨List.mem_reverse.mp (List.mem_filter.mp hmem).1, hmatch⟩

/-- The first matching entry is in the stack of the shortest matching length. -/
theorem find_build_stack {registrations : List (Endpoint E C)} {path : Str} {n : Nat}
    (h : shortest registrations path = some n) :
    (build registrations).find? (·.route.isInstance path) =
      (stack (group registrations n)).find? (·.route.isInstance path) := by
  obtain ⟨⟨endpoint, hmem, hmatch, hn⟩, hle⟩ := shortest_eq_some h
  obtain ⟨entry, hentry, htext⟩ := (text_build registrations _).mpr ⟨endpoint, hmem, rfl⟩
  rw [find_filter (n := n) (sorted_build registrations), filter_build]
  · intro entry' hentry' hmatch'
    obtain ⟨e, he, htext'⟩ := (text_build registrations _).mp ⟨entry', hentry', rfl⟩
    rw [← RouteStringBase.isInstance_congr htext'] at hmatch'
    have := hle e he hmatch'
    rwa [Endpoint.size, htext'] at this
  · refine ⟨entry, hentry, ?_, ?_⟩
    · rw [RouteStringBase.isInstance_congr htext, hmatch]
    · rw [Entry.size, htext]
      exact hn

/-- The first matching entry has the endpoints of the newest block. -/
theorem find_build (registrations : List (Endpoint E C)) (path : Str) :
    ((build registrations).find? (·.route.isInstance path)).map Entry.endpoints =
      match newestBlock registrations path with
      | [] => none
      | endpoint :: endpoints =>
          some fun method => (endpoint :: endpoints).find? (·.method = method) := by
  unfold newestBlock
  cases hshortest : shortest registrations path with
  | none =>
      have hnone := shortest_eq_none hshortest
      rw [Option.map_eq_none_iff, List.find?_eq_none]
      intro entry hentry
      obtain ⟨endpoint, hmem, htext⟩ := (text_build registrations _).mp ⟨entry, hentry, rfl⟩
      rw [← RouteStringBase.isInstance_congr htext, hnone endpoint hmem]
      decide
  | some n => rw [find_build_stack hshortest, find_stack]

/-- The answer of the dispatcher, from the registrations alone. -/
theorem lookup_build (registrations : List (Endpoint E C)) (method : HttpMethod) (path : Str) :
    lookup (build registrations) method path =
      match newestBlock registrations path with
      | [] => .notFound
      | endpoint :: endpoints =>
          match (endpoint :: endpoints).find? (·.method = method) with
          | none => .methodNotAllowed
          | some endpoint => .found endpoint := by
  have hfind := find_build registrations path
  unfold lookup
  cases hentry : (build registrations).find? (·.route.isInstance path) with
  | none =>
      rw [hentry] at hfind
      cases hblock : newestBlock registrations path with
      | nil => rfl
      | cons endpoint endpoints =>
          rw [hblock] at hfind
          cases hfind
  | some entry =>
      rw [hentry] at hfind
      cases hblock : newestBlock registrations path with
      | nil =>
          rw [hblock] at hfind
          cases hfind
      | cons endpoint endpoints =>
          rw [hblock, Option.map_some, Option.some.injEq] at hfind
          simp only [hfind]

theorem lookup_eq_found_iff {registrations : List (Endpoint E C)} {method : HttpMethod} {path : Str}
    {endpoint : Endpoint E C} : lookup (build registrations) method path = .found endpoint ↔
      (newestBlock registrations path).find? (·.method = method) = some endpoint := by
  rw [lookup_build]
  cases newestBlock registrations path with
  | nil => exact ⟨nofun, nofun⟩
  | cons newest older =>
      dsimp only
      cases (newest :: older).find? (·.method = method) with
      | none => exact ⟨nofun, nofun⟩
      | some found => exact ⟨fun h => by cases h; rfl, fun h => by cases h; rfl⟩

/-- **When a registered endpoint is reachable.** If `path` is an instance of a route registered under
`method`, the dispatcher finds an endpoint registered under `method` on such a route, exactly when the
newest block of registrations that `path` selects has one. -/
theorem reachable_iff (registrations : List (Endpoint E C)) (method : HttpMethod) (path : Str) :
    ((∃ endpoint ∈ registrations, endpoint.method = method ∧
          endpoint.route.isInstance path = true) →
        ∃ endpoint ∈ registrations, endpoint.method = method ∧
          endpoint.route.isInstance path = true ∧
          lookup (build registrations) method path = .found endpoint) ↔
      ((∃ endpoint ∈ registrations, endpoint.method = method ∧
          endpoint.route.isInstance path = true) →
        ∃ endpoint ∈ newestBlock registrations path, endpoint.method = method) := by
  refine imp_congr_right fun _ => ⟨?_, ?_⟩
  · rintro ⟨endpoint, hmem, hmethod, hmatch, hfound⟩
    exact ⟨endpoint, List.mem_of_find?_eq_some (lookup_eq_found_iff.mp hfound), hmethod⟩
  · rintro ⟨endpoint, hmem, hmethod⟩
    have hsome : ((newestBlock registrations path).find? (·.method = method)).isSome = true :=
      List.find?_isSome.mpr ⟨endpoint, hmem, decide_eq_true hmethod⟩
    obtain ⟨endpoint', hfind⟩ := Option.isSome_iff_exists.mp hsome
    obtain ⟨hmem', hmatch'⟩ := mem_newestBlock (List.mem_of_find?_eq_some hfind)
    have hmethod' : endpoint'.method = method := by simpa using List.find?_some hfind
    exact ⟨endpoint', hmem', hmethod', hmatch', lookup_eq_found_iff.mpr hfind⟩

/-- `GET /{x}`, then `POST /{y}`. -/
def getThenPost : List (Endpoint StringExtractor Unit) :=
  [⟨.eGet, .params ⟨"/{x}".toList, ["x".toList], [{}], [{}], nofun, rfl⟩, ()⟩,
    ⟨.ePost, .params ⟨"/{y}".toList, ["y".toList], [{}], [{}], nofun, rfl⟩, ()⟩]

/-- `GET /v` is answered with 405, although a route for it is registered under `GET`. -/
theorem get_unreachable :
    (∃ endpoint ∈ getThenPost, endpoint.method = .eGet ∧
        endpoint.route.isInstance "/v".toList = true) ∧
      lookup (build getThenPost) .eGet "/v".toList = .methodNotAllowed := by
  have hmatch : ∀ endpoint ∈ getThenPost, endpoint.route.isInstance "/v".toList = true := by
    decide +kernel
  refine ⟨⟨_, List.mem_cons_self, rfl, hmatch _ List.mem_cons_self⟩, ?_⟩
  have hbuild : ∃ get post : Endpoint StringExtractor Unit, getThenPost = [get, post] ∧
      post.method = .ePost ∧ build getThenPost = [Entry.single post, Entry.single get] :=
    ⟨_, _, rfl, rfl, rfl⟩
  obtain ⟨get, post, hget, hpost, hbuild⟩ := hbuild
  have hfirst : post.route.isInstance "/v".toList = true := hmatch post (by simp [hget])
  rw [lookup, hbuild, List.find?_cons, Entry.single_route, hfirst]
  simp [Entry.single, Entry.assign, hpost]

end Fipper
