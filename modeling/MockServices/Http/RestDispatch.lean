import MockServices.Http.RestServer
import Mathlib.Data.List.Find

/-!
# Dispatch and history of the REST server

A route for HEAD or OPTIONS is put into the table of GET. Which requests
still reach a handler of their own method is decided by the order of the
registrations. The history does not depend on it.
-/

namespace MockServices.Rest

open Foundations

/-- A route for `method` is one that a request with method `m` may reach. -/
def Serves (m : Method) (method : Text) : Prop :=
  method = m.name ∨ m = .head ∧ method = Method.get.name

instance (m : Method) (method : Text) : Decidable (Serves m method) :=
  inferInstanceAs (Decidable (method = m.name ∨ m = .head ∧ method = Method.get.name))

/-- A handler is reached when a route for the request exists, and only a
handler of such a route. -/
def RoutedRight (routes : List Route) (m : Method) (path : Text) (reached : Option Route) : Prop :=
  ((∃ r, reached = some r) ↔ ∃ r ∈ routes, r.path = path ∧ Serves m r.method) ∧
    ∀ r, reached = some r → r ∈ routes ∧ r.path = path ∧ Serves m r.method

/-- The methods for which `add_route` compares to no constant. -/
def FallsThrough (method : Text) : Prop :=
  ∀ m ∈ [Method.get, .post, .put, .del, .patch], method ≠ m.name

/-- No OPTIONS request for a path with an OPTIONS route; and for GET and
HEAD, no route that fell through precedes all routes for the request. -/
def Undisplaced (routes : List Route) (m : Method) (path : Text) : Prop :=
  (m = .options → ∀ r ∈ routes, r.path = path → ¬ Serves m r.method) ∧
    (m = .get ∨ m = .head → ∀ before r after, routes = before ++ r :: after → r.path = path →
      FallsThrough r.method → Serves m r.method ∨ ∃ e ∈ before, e.path = path ∧ Serves m e.method)

def Point.route : Point → Option Route
  | .unmatched _ => none
  | .matched route _ | .recorded route _ | .answered route _ => some route

def Point.request : Point → Request
  | .unmatched req | .matched _ req | .recorded _ req | .answered _ req => req

def Point.past : Point → List Act
  | .unmatched _ | .matched _ _ => []
  | .recorded _ req => [.recorded req]
  | .answered route req =>
      [.recorded req, .ran route req, .answered (answerOf (route.handlerFn req))]

/-- What stays the same from the arrival of a request on. -/
def Point.entry (point : Point) : Option Route × Request := (point.route, point.request)

def Act.recording : Act → Option Request
  | .recorded req => some req
  | .ran _ _ | .answered _ => none

section Methods

theorem name_injective : Function.Injective Method.name := by
  intro a b h
  cases a <;> cases b <;> first | rfl | exact absurd h (by decide)

/-- A method has a call of its own, or its routes go into the table of GET. -/
theorem registration_cases (method : Text) :
    (∃ m ∈ [Method.get, .post, .put, .del, .patch], method = m.name ∧
      registration method = m.table) ∨ FallsThrough method ∧ registration method = .get := by
  by_cases hown : ∃ m ∈ [Method.get, .post, .put, .del, .patch], method = m.name
  · obtain ⟨m, hm, rfl⟩ := hown
    refine Or.inl ⟨m, hm, rfl, ?_⟩
    revert hm
    cases m <;> decide
  · have hfalls : FallsThrough method := fun m hm h => hown ⟨m, hm, h⟩
    refine Or.inr ⟨hfalls, ?_⟩
    simp only [FallsThrough, List.mem_cons, List.not_mem_nil, or_false, forall_eq_or_imp,
      forall_eq, Method.name] at hfalls
    obtain ⟨hget, hpost, hput, hdel, hpatch⟩ := hfalls
    simp only [registration, if_neg hget, if_neg hpost, if_neg hput, if_neg hdel, if_neg hpatch]

theorem registration_get_iff (method : Text) :
    registration method = .get ↔ method = Method.get.name ∨ FallsThrough method := by
  obtain ⟨m, hm, rfl, htable⟩ | ⟨hfalls, htable⟩ := registration_cases method
  · have hnot : ¬ FallsThrough m.name := fun h => h m hm rfl
    rw [htable, or_iff_left hnot, name_injective.eq_iff]
    revert hm
    cases m <;> decide
  · exact iff_of_true htable (Or.inr hfalls)

/-- Routes for the other methods are where their requests are looked up. -/
theorem registration_own_iff (method : Text) {m : Method} (hget : m.table ≠ .get) :
    registration method = m.table ↔ m ≠ .options ∧ method = m.name := by
  obtain ⟨own, hown, rfl, htable⟩ | ⟨hfalls, htable⟩ := registration_cases method
  · rw [htable, name_injective.eq_iff]
    revert hown hget
    cases own <;> cases m <;> decide
  · rw [htable]
    refine iff_of_false (Ne.symm hget) fun h => hfalls m ?_ h.2
    revert hget
    obtain ⟨hoptions, -⟩ := h
    revert hoptions
    cases m <;> decide

theorem serves_own_iff (method : Text) {m : Method} (hget : m.table ≠ .get) :
    Serves m method ↔ method = m.name := by
  have hhead : m ≠ .head := by
    rintro rfl
    exact hget rfl
  simp [Serves, hhead]

/-- A route for GET or HEAD goes into the table where both are looked up. -/
theorem registration_of_serves {m : Method} {method : Text} (hget : m.table = .get)
    (h : Serves m method) : registration method = .get := by
  rcases h with rfl | ⟨-, rfl⟩
  · revert hget
    cases m <;> decide
  · decide

theorem fallsThrough_of_not_serves {m : Method} {method : Text} (hget : m.table = .get)
    (hreg : registration method = .get) (h : ¬ Serves m method) : FallsThrough method := by
  refine ((registration_get_iff method).mp hreg).resolve_left fun hname => h ?_
  subst hname
  revert hget
  cases m
  case get => exact fun _ => Or.inl rfl
  case head => exact fun _ => Or.inr ⟨rfl, rfl⟩
  all_goals exact fun h => absurd h (by decide)

end Methods

section Tables

/-- A path that reaches the library whole. -/
def IsLiteral (path : Text) : Prop := cStr path = path

instance : DecidablePred IsLiteral := fun path => inferInstanceAs (Decidable (cStr path = path))

/-- The table and the path of a route with a literal path. -/
def Route.key (r : Route) : Registration × Text := (registration r.method, r.path)

variable {routes : List Route} {m : Method} {path : Text}

theorem key_eq_iff (r : Route) :
    r.key = (m.table, path) ↔ registration r.method = m.table ∧ r.path = path := by
  simp [Route.key]

theorem routedRight_own_iff (hget : m.table ≠ .get) :
    RoutedRight routes m path (firstFor Route.key (m.table, path) routes) ↔
      Undisplaced routes m path := by
  have hkey : ∀ r : Route, r.key = (m.table, path) ↔
      m ≠ .options ∧ r.path = path ∧ Serves m r.method := fun r => by
    rw [key_eq_iff, registration_own_iff r.method hget, serves_own_iff r.method hget]
    exact ⟨fun h => ⟨h.1.1, h.2, h.1.2⟩, fun h => ⟨⟨h.1, h.2.2⟩, h.2.1⟩⟩
  have hgetHead : ¬ (m = .get ∨ m = .head) := by
    rintro (rfl | rfl) <;> exact hget rfl
  cases hreached : firstFor Route.key (m.table, path) routes with
  | some first =>
      obtain ⟨hfirst, before, after, rfl, -⟩ := firstFor_some_iff.mp hreached
      have hserves := (hkey first).mp hfirst
      have hmem : first ∈ before ++ first :: after := by simp
      refine iff_of_true ⟨?_, fun r hr => Option.some.inj hr ▸ ⟨hmem, hserves.2⟩⟩
        ⟨fun hoptions => absurd hoptions hserves.1, fun h => absurd h hgetHead⟩
      exact iff_of_true ⟨first, rfl⟩ ⟨first, hmem, hserves.2⟩
  | none =>
      have hnone := firstFor_none_iff.mp hreached
      simp only [ne_eq, hkey, not_and] at hnone
      constructor
      · intro h
        refine ⟨fun _ r hr hpath hserves => ?_, fun h => absurd h hgetHead⟩
        simpa using h.1.mpr ⟨r, hr, hpath, hserves⟩
      · intro h
        refine ⟨iff_of_false (by simp) ?_, by simp⟩
        rintro ⟨r, hr, hpath, hserves⟩
        by_cases hoptions : m = .options
        · exact h.1 hoptions r hr hpath hserves
        · exact hnone r hr hoptions hpath hserves

theorem routedRight_get_iff (hget : m.table = .get) :
    RoutedRight routes m path (firstFor Route.key (m.table, path) routes) ↔
      Undisplaced routes m path := by
  have hoptions : m ≠ .options := by
    rintro rfl
    cases hget
  have hgetHead : m = .get ∨ m = .head := by
    cases m <;> simp_all [Method.table]
  have hkey : ∀ r : Route, r.path = path → Serves m r.method → r.key = (m.table, path) :=
    fun r hpath hserves => (key_eq_iff r).mpr ⟨hget ▸ registration_of_serves hget hserves, hpath⟩
  constructor
  · rintro ⟨-, hright⟩
    refine ⟨fun h => absurd h hoptions, fun _ before r after hroutes hpath hfalls => ?_⟩
    have hr : r.key = (m.table, path) :=
      (key_eq_iff r).mpr ⟨hget ▸ (registration_get_iff _).mpr (Or.inr hfalls), hpath⟩
    by_cases hearlier : ∃ e ∈ before, e.key = (m.table, path)
    · obtain ⟨e, he, hekey⟩ := hearlier
      cases hreached : firstFor Route.key (m.table, path) routes with
      | none =>
          exact absurd hekey (firstFor_none_iff.mp hreached e (by simp [hroutes, he]))
      | some first =>
          obtain ⟨-, hpathFirst, hserves⟩ := hright first hreached
          refine Or.inr ⟨first, ?_, hpathFirst, hserves⟩
          have hsome : (firstFor Route.key (m.table, path) before).isSome :=
            List.find?_isSome.mpr ⟨e, he, decide_eq_true hekey⟩
          obtain ⟨found, hfound⟩ := Option.isSome_iff_exists.mp hsome
          have hsame : firstFor Route.key (m.table, path) (before ++ r :: after) = some found := by
            rw [firstFor, List.find?_append, ← firstFor, hfound, Option.some_or]
          rw [← hroutes, hreached] at hsame
          exact Option.some.inj hsame ▸ List.mem_of_find?_eq_some hfound
    · push Not at hearlier
      exact Or.inl (hright r (firstFor_some_iff.mpr ⟨hr, before, after, hroutes, hearlier⟩)).2.2
  · rintro ⟨-, hplaced⟩
    have hright : ∀ r, firstFor Route.key (m.table, path) routes = some r →
        r ∈ routes ∧ r.path = path ∧ Serves m r.method := fun r hr => by
      obtain ⟨hr, before, after, hroutes, hbefore⟩ := firstFor_some_iff.mp hr
      obtain ⟨hreg, hpath⟩ := (key_eq_iff r).mp hr
      refine ⟨by simp [hroutes], hpath, ?_⟩
      by_contra hnot
      have hfalls := fallsThrough_of_not_serves hget (hreg.trans hget) hnot
      obtain ⟨e, he, hpathE, hserves⟩ :=
        (hplaced hgetHead before r after hroutes hpath hfalls).resolve_left hnot
      exact hbefore e he (hkey e hpathE hserves)
    refine ⟨⟨Exists.imp hright, ?_⟩, hright⟩
    rintro ⟨r, hr, hpath, hserves⟩
    refine Option.ne_none_iff_exists'.mp fun hnone => ?_
    exact firstFor_none_iff.mp hnone r hr (hkey r hpath hserves)

theorem routedRight_iff (routes : List Route) (m : Method) (path : Text) :
    RoutedRight routes m path (firstFor Route.key (m.table, path) routes) ↔
      Undisplaced routes m path := by
  by_cases hget : m.table = .get
  · exact routedRight_get_iff hget
  · exact routedRight_own_iff hget

end Tables

namespace Server

variable {s t : Server} {e : Event} {events : List Event}

/-- What a step does to the requests in progress and to the history. -/
theorem moved (s : Server) (e : Event) (t : Server) (h : s.step e = some t) :
    CallLog.Moved Point.past Point.entry Act.recording (e = .clearRequests) s.calls s.requests
      t.calls t.requests := by
  cases e with
  | route method path handlerFn =>
      cases h
      exact .idle
  | clearRequests =>
      cases h
      exact .clear rfl
  | arrive method path body =>
      cases h
      rw [arrive]
      split <;> exact .enter rfl
  | record i =>
      simp only [step] at h
      split at h
      · next hpoint =>
        cases h
        exact .advance hpoint rfl rfl rfl
      · cases h
  | respond i =>
      simp only [step] at h
      split at h
      · next route req hpoint =>
        cases h
        exact .advance hpoint rfl rfl (List.append_nil _).symm
      · cases h

theorem svr_run (hrun : run step s events = some t) :
    t.svr = (routesOf events).foldl (fun tables r =>
      tables.register (registration r.method) (cStr r.path) r) s.svr := by
  rw [routesOf, List.foldl_filterMap]
  refine run_foldl (fun s e t hstep => ?_) hrun
  cases e with
  | route method path handlerFn =>
      cases hstep
      rfl
  | clearRequests =>
      cases hstep
      rfl
  | arrive method path body =>
      cases hstep
      rw [arrive]
      split <;> rfl
  | record i =>
      simp only [step] at hstep
      split at hstep
      · cases hstep
        rfl
      · cases hstep
  | respond i =>
      simp only [step] at hstep
      split at hstep
      · cases hstep
        rfl
      · cases hstep

theorem lookup_run (hrun : run step {} events = some s)
    (hliteral : ∀ r ∈ routesOf events, IsLiteral r.path) (m : Method) (path : Text) :
    s.svr.lookup m.table path = firstFor Route.key (m.table, path) (routesOf events) := by
  rw [svr_run hrun, HandlerTables.lookup_registered (fun r : Route => registration r.method)
    (fun r => cStr r.path) (fun r => r), Option.map_id']
  refine List.find?_congr fun r hr => ?_
  have hpath : cStr r.path = r.path := hliteral r hr
  exact decide_eq_decide.mpr (by rw [Route.key, ← hpath])

theorem entries_arrive (s : Server) (m : Method) (path body : Text) :
    (s.arrive m path body).calls.points.map Point.entry = s.calls.points.map Point.entry ++
      [(s.svr.lookup m.table path, { method := m.name, path, body })] := by
  rw [arrive]
  split
  · next route hroute =>
    rw [CallLog.map_points_enter, hroute]
    rfl
  · next hroute =>
    rw [CallLog.map_points_enter, hroute]
    rfl

end Server

/-- Request `n` of a run reached a handler of its method if there was one
and no other handler, and was recorded exactly once before the handler
ran. The history holds what was recorded, less what was cleared. -/
def DispatchedAndRecorded (events later : List Event) (t : Server) (n : ℕ) (m : Method)
    (path body : Text) : Prop :=
  (∃ point, t.calls.points[n]? = some point ∧
    point.request = { method := m.name, path, body } ∧
    RoutedRight (routesOf events) m path point.route ∧ t.calls.doneBy n = point.past) ∧
  t.requests <:+ t.calls.recordings Act.recording ∧
  (.clearRequests ∉ events ++ later → t.requests = t.calls.recordings Act.recording)

end MockServices.Rest
