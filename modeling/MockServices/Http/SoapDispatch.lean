import MockServices.Http.SoapServer

/-!
# Dispatch and history of the SOAP server

A request to a registered path is recorded, then answered by what was
registered last for its path and action when the handlers are looked up. The
invariant says what the table, the map and the set of paths hold after the
registrations so far.
-/

namespace MockServices.Soap

open Foundations

def Point.request : Point → SoapRequest
  | .unmatched req | .matched req | .recorded req | .found req _ | .answered req _ => req

def Point.isMatched : Point → Bool
  | .unmatched _ => false
  | .matched _ | .recorded _ | .found _ _ | .answered _ _ => true

/-- What stays the same from the arrival of a request on. -/
def Point.entry (point : Point) : Bool × SoapRequest := (point.isMatched, point.request)

/-- The result of the lookup, once it has been made. -/
def Point.handlerFn : Point → Option (Option Handler)
  | .unmatched _ | .matched _ | .recorded _ => none
  | .found _ handlerFn | .answered _ handlerFn => some handlerFn

def Act.recording : Act → Option SoapRequest
  | .recorded req => some req
  | .ran _ _ | .answered _ => none

def Point.past (save : XmlDocument → Text) : Point → List Act
  | .unmatched _ | .matched _ => []
  | .recorded req | .found req _ => [.recorded req]
  | .answered req handlerFn =>
      .recorded req :: ((handlerFn.map fun handler => .ran handler req).toList ++
        [.answered (answerOf save handlerFn req)])

/-- The action named by a SOAPAction header. -/
def IsAction : Option Text → Text → Prop
  | none, action => action = []
  | some value, action => value = '"' :: action ++ ['"'] ∨
      value = action ∧ ∀ inner : Text, value ≠ '"' :: inner ++ ['"']

section Action

theorem unquoted_quoted (inner : Text) : unquoted ('"' :: inner ++ ['"']) = inner := by
  have hlast : ('"' :: (inner ++ ['"'])).getLast? = some '"' := by
    rw [← List.cons_append, List.getLast?_concat]
  simp [unquoted, hlast]

theorem eq_quoted {value : Text} (hlength : 2 ≤ value.length) (hhead : value.head? = some '"')
    (hlast : value.getLast? = some '"') : ∃ inner : Text, value = '"' :: inner ++ ['"'] := by
  obtain ⟨front, rfl⟩ : ∃ front, value = front ++ ['"'] :=
    ⟨value.dropLast, (List.dropLast_append_getLast? '"' hlast).symm⟩
  cases front with
  | nil => simp at hlength
  | cons c inner =>
      obtain rfl : c = '"' := by simpa using hhead
      exact ⟨inner, rfl⟩

theorem isAction_soapActionOf (req : HttpRequest) :
    IsAction (req.headers "SOAPAction") (soapActionOf req) := by
  rw [soapActionOf]
  cases req.headers "SOAPAction" with
  | none => rfl
  | some value =>
      by_cases hquoted : ∃ inner : Text, value = '"' :: inner ++ ['"']
      · obtain ⟨inner, rfl⟩ := hquoted
        exact Or.inl (congrArg (fun action => '"' :: action ++ ['"']) (unquoted_quoted inner).symm)
      · refine Or.inr ⟨?_, fun inner h => hquoted ⟨inner, h⟩⟩
        refine (if_neg fun h => hquoted ?_).symm
        exact eq_quoted h.1 h.2.1 h.2.2

end Action

/-- What the routes registered so far have left in the server. -/
structure Server.Registered (routes : List Route) (s : Server) : Prop where
  handlers : ∀ key, s.handlers key = (latestFor Route.key key routes).map Route.handlerFn
  paths : ∀ path, path ∈ s.paths ↔ ∃ r ∈ routes, r.path = path
  svr : ∀ path, s.svr.lookup () path = some () ↔ ∃ known ∈ s.paths, cStr known = path

namespace Server

variable {save : XmlDocument → Text} {s t : Server} {e : Event} {events later : List Event}
  {routes : List Route}

theorem registered_fresh : Registered [] {} where
  handlers _ := rfl
  paths _ := by simp
  svr _ := by simp

theorem Registered.addRoute (h : s.Registered routes) (r : Route) :
    (s.addRoute r.path r.soapAction r.handlerFn).Registered (routes ++ [r]) := by
  have hhandlers : ∀ key, Function.update s.handlers (r.path, r.soapAction) (some r.handlerFn) key =
      (latestFor Route.key key (routes ++ [r])).map Route.handlerFn := by
    intro key
    rw [latestFor_append]
    by_cases hkey : r.key = key
    · subst hkey
      simp [Route.key]
    · have hne : key ≠ (r.path, r.soapAction) := fun h => hkey h.symm
      rw [Function.update_of_ne hne, h.handlers key, if_neg hkey]
  have hpaths : ∀ path, path ∈ s.paths.insert r.path ↔ ∃ o ∈ routes ++ [r], o.path = path := by
    intro path
    rw [List.mem_insert_iff, h.paths path, or_comm, eq_comm]
    simp only [List.mem_append, List.mem_singleton, or_and_right, exists_or, exists_eq_left]
  by_cases hknown : r.path ∈ s.paths
  · rw [Server.addRoute, if_neg fun hnew => List.count_eq_zero.mp hnew hknown]
    refine ⟨hhandlers, hpaths, fun path => ?_⟩
    rw [List.insert_of_mem hknown]
    exact h.svr path
  · rw [Server.addRoute, if_pos (List.count_eq_zero.mpr hknown)]
    refine ⟨hhandlers, hpaths, fun path => ?_⟩
    simp only [HandlerTables.lookup_register, List.mem_insert_iff, or_and_right, exists_or,
      exists_eq_left, ← h.svr path, Prod.mk.injEq, true_and]
    cases s.svr.lookup () path <;> by_cases hpath : cStr r.path = path <;> simp [hpath]

/-- What a step does to the table, the map and the set of paths. -/
theorem registered_step (h : s.Registered (routesOf events)) (hstep : s.step save e = some t) :
    t.Registered (routesOf (events ++ [e])) := by
  have hkept (hroutes : routesOf [e] = []) (hsvr : t.svr = s.svr)
      (hhandlers : t.handlers = s.handlers) (hpaths : t.paths = s.paths) :
      t.Registered (routesOf (events ++ [e])) := by
    rw [routesOf, List.filterMap_append, ← routesOf, ← routesOf, hroutes, List.append_nil]
    exact ⟨hhandlers ▸ h.handlers, hpaths ▸ h.paths, hsvr ▸ hpaths ▸ h.svr⟩
  cases e with
  | route path soapAction handlerFn =>
      cases hstep
      rw [routesOf, List.filterMap_append]
      exact h.addRoute ⟨path, soapAction, handlerFn⟩
  | clearRequests =>
      cases hstep
      exact hkept rfl rfl rfl rfl
  | post req =>
      cases hstep
      rw [post] at hkept ⊢
      split at hkept <;> exact hkept rfl rfl rfl rfl
  | record i | lookup i | respond i =>
      simp only [step] at hstep
      split at hstep
      · cases hstep
        exact hkept rfl rfl rfl rfl
      · cases hstep

theorem registered_run (hrun : run (step save) {} events = some s) :
    s.Registered (routesOf events) :=
  run_history (P := fun taken u => u.Registered (routesOf taken))
    (fun _ _ _ _ h hstep => registered_step h hstep) registered_fresh hrun

theorem moved (s : Server) (e : Event) (t : Server) (h : s.step save e = some t) :
    CallLog.Moved (Point.past save) Point.entry Act.recording (e = .clearRequests) s.calls
      s.requests t.calls t.requests := by
  cases e with
  | route path soapAction handlerFn =>
      cases h
      rw [addRoute]
      split <;> exact .idle
  | clearRequests =>
      cases h
      exact .clear rfl
  | post req =>
      cases h
      rw [post]
      split <;> exact .enter rfl
  | record i =>
      simp only [step] at h
      split at h
      · next hpoint =>
        cases h
        exact .advance hpoint rfl rfl rfl
      · cases h
  | lookup i =>
      simp only [step] at h
      split at h
      · next hpoint =>
        cases h
        exact .advance hpoint (List.append_nil _).symm rfl (List.append_nil _).symm
      · cases h
  | respond i =>
      simp only [step] at h
      split at h
      · next req handlerFn hpoint =>
        cases h
        refine .advance hpoint rfl rfl ?_
        cases handlerFn <;> exact (List.append_nil _).symm
      · cases h

/-- A handler is found by the lookup of its request. -/
theorem found_step (hstep : s.step save e = some t) {n : ℕ} {point : Point}
    (hpoint : t.calls.points[n]? = some point) {handlerFn : Option Handler}
    (hfound : point.handlerFn = some handlerFn) :
    (∃ earlier, s.calls.points[n]? = some earlier ∧ earlier.request = point.request ∧
        earlier.handlerFn = some handlerFn) ∨
      e = .lookup n ∧ handlerFn = s.findHandler point.request := by
  cases e with
  | route path soapAction handlerFn =>
      cases hstep
      rw [addRoute] at hpoint
      split at hpoint <;> exact Or.inl ⟨point, hpoint, rfl, hfound⟩
  | clearRequests =>
      cases hstep
      exact Or.inl ⟨point, hpoint, rfl, hfound⟩
  | post req =>
      cases hstep
      rw [post] at hpoint
      split at hpoint
      all_goals
        rcases CallLog.points_enter_cases hpoint with rfl | hsame
        · cases hfound
        · exact Or.inl ⟨point, hsame, rfl, hfound⟩
  | record i =>
      simp only [step] at hstep
      split at hstep
      · next hold =>
        cases hstep
        obtain ⟨-, rfl⟩ | hsame := CallLog.points_advance_cases hold hpoint
        · cases hfound
        · exact Or.inl ⟨point, hsame, rfl, hfound⟩
      · cases hstep
  | lookup i =>
      simp only [step] at hstep
      split at hstep
      · next req hold =>
        cases hstep
        obtain ⟨rfl, rfl⟩ | hsame := CallLog.points_advance_cases hold hpoint
        · exact Or.inr ⟨rfl, (Option.some.inj hfound).symm⟩
        · exact Or.inl ⟨point, hsame, rfl, hfound⟩
      · cases hstep
  | respond i =>
      simp only [step] at hstep
      split at hstep
      · next hold =>
        cases hstep
        obtain ⟨rfl, rfl⟩ | hsame := CallLog.points_advance_cases hold hpoint
        · exact Or.inl ⟨_, hold, rfl, hfound⟩
        · exact Or.inl ⟨point, hsame, rfl, hfound⟩
      · cases hstep

/-- The handler that was registered last for the key of a request. -/
def latestHandler (routes : List Route) (req : SoapRequest) : Option Handler :=
  (latestFor Route.key (req.path, req.soapAction) routes).bind Route.handlerFn

theorem Registered.findHandler_eq (h : s.Registered routes) (req : SoapRequest) :
    s.findHandler req = latestHandler routes req := by
  rw [findHandler, h.handlers, latestHandler]
  cases latestFor Route.key (req.path, req.soapAction) routes <;> rfl

theorem entries_post {req : HttpRequest} (hpath : s.svr.lookup () req.path = some ()) :
    (s.post req).calls.points.map Point.entry =
      s.calls.points.map Point.entry ++ [(true, soapRequestOf req)] := by
  simp only [post, hpath]
  exact CallLog.map_points_enter Point.entry s.calls _

theorem handlerFn_post {req : HttpRequest} {point : Point}
    (hpoint : (s.post req).calls.points[s.calls.points.length]? = some point) :
    point.handlerFn = none := by
  rw [post] at hpoint
  split at hpoint
  all_goals
    simp only [CallLog.enter, List.getElem?_concat_length, Option.some.injEq] at hpoint
    exact hpoint ▸ rfl

theorem found_run {n : ℕ} (hregistered : s.Registered (routesOf events))
    (hentered : ∀ point, s.calls.points[n]? = some point → point.handlerFn = none)
    (hrun : run (step save) s later = some t) {point : Point}
    (hpoint : t.calls.points[n]? = some point) {handlerFn : Option Handler}
    (hfound : point.handlerFn = some handlerFn) : ∃ before after,
      later = before ++ .lookup n :: after ∧
        handlerFn = latestHandler (routesOf (events ++ before)) point.request := by
  suffices h : t.Registered (routesOf (events ++ later)) ∧ ∀ point handlerFn,
      t.calls.points[n]? = some point → point.handlerFn = some handlerFn → ∃ before after,
        later = before ++ .lookup n :: after ∧
          handlerFn = latestHandler (routesOf (events ++ before)) point.request from
    h.2 point handlerFn hpoint hfound
  refine run_history (P := fun taken u => u.Registered (routesOf (events ++ taken)) ∧
    ∀ point handlerFn, u.calls.points[n]? = some point → point.handlerFn = some handlerFn →
      ∃ before after, taken = before ++ .lookup n :: after ∧
        handlerFn = latestHandler (routesOf (events ++ before)) point.request)
    (fun taken u e v h hstep => ⟨?_, fun point handlerFn hpoint hfound => ?_⟩) ⟨?_, ?_⟩ hrun
  · rw [← List.append_assoc]
    exact registered_step h.1 hstep
  · obtain ⟨earlier, hearlier, hreq, hsame⟩ | ⟨rfl, hlatest⟩ := found_step hstep hpoint hfound
    · obtain ⟨before, after, rfl, hlatest⟩ := h.2 earlier handlerFn hearlier hsame
      exact ⟨before, after ++ [e], by simp, hreq ▸ hlatest⟩
    · exact ⟨taken, [], rfl, hlatest.trans (h.1.findHandler_eq _)⟩
  · simpa using hregistered
  · intro point handlerFn hpoint hfound
    rw [hentered point hpoint] at hfound
    cases hfound

/-- A request that has not been answered can go on. -/
theorem enabled_of_point {n : ℕ} {point : Point} (hpoint : s.calls.points[n]? = some point)
    (hmatched : point.isMatched = true) :
    (∃ req handlerFn, point = .answered req handlerFn) ∨
      point.past save <+: [.recorded point.request] ∧
        ∃ e ∈ [Event.record n, .lookup n, .respond n], ∃ u, s.step save e = some u := by
  cases point with
  | unmatched req => cases hmatched
  | matched req =>
      exact Or.inr ⟨List.nil_prefix, .record n, by simp, _, by rw [step, hpoint]⟩
  | recorded req =>
      exact Or.inr ⟨List.prefix_rfl, .lookup n, by simp, _, by rw [step, hpoint]⟩
  | found req handlerFn =>
      exact Or.inr ⟨List.prefix_rfl, .respond n, by simp, _, by rw [step, hpoint]⟩
  | answered req handlerFn => exact Or.inl ⟨req, handlerFn, rfl⟩

end Server

/-- What an answered request has done, given the latest registration for
its path and action. -/
def AnsweredBy (save : XmlDocument → Text) (latest : Option Route) (req : SoapRequest)
    (acts : List Act) : Prop :=
  match latest with
  | none => ∃ faultstring, acts = [.recorded req, .answered (.sent 500
      (SoapResponse.fault save 500 "soap:Client" faultstring req.version).body
      (contentTypeOf req.version))]
  | some r => ∃ handler answer, r.handlerFn = some handler ∧
      acts = [.recorded req, .ran handler req, .answered answer] ∧
      (∀ response, handler req = .returned response →
        answer = .sent response.statusCode response.body (contentTypeOf req.version)) ∧
      ∀ what, handler req = .threw what → answer = .sent 500
        (SoapResponse.fault save 500 "soap:Server" what req.version).body
        (contentTypeOf req.version)

/-- Request `n` was recorded exactly once before anything else it did, and
it has been answered by the latest registration or can go on. -/
def HandledOnce (save : XmlDocument → Text) (events later : List Event) (t : Server) (n : ℕ)
    (req : HttpRequest) : Prop :=
  ∃ action, IsAction (req.headers "SOAPAction") action ∧ ∃ entry : SoapRequest,
    entry = { path := req.path, soapAction := action, body := req.body, version := versionOf req } ∧
    ((∃ before after, later = before ++ .lookup n :: after ∧ AnsweredBy save
        (latestFor Route.key (req.path, action) (routesOf (events ++ before))) entry
        (t.calls.doneBy n)) ∨
      t.calls.doneBy n <+: [.recorded entry] ∧
        ∃ e ∈ [Event.record n, .lookup n, .respond n], ∃ u, t.step save e = some u)

theorem answeredBy_past (save : XmlDocument → Text) {routes : List Route} (req : SoapRequest)
    (hfull : ∀ r ∈ routes, r.handlerFn ≠ none) :
    AnsweredBy save (latestFor Route.key (req.path, req.soapAction) routes) req
      (Point.past save (.answered req (Server.latestHandler routes req))) := by
  rw [Server.latestHandler]
  cases hlatest : latestFor Route.key (req.path, req.soapAction) routes with
  | none => exact ⟨_, rfl⟩
  | some r =>
      obtain ⟨handler, hhandler⟩ :=
        Option.ne_none_iff_exists'.mp (hfull r (mem_of_latestFor hlatest))
      refine ⟨handler, answerOf save (some handler) req, hhandler, ?_, fun response h => ?_,
        fun what h => ?_⟩
      · rw [Option.bind_some, hhandler]
        rfl
      · simp only [answerOf, h]
      · simp only [answerOf, h]

end MockServices.Soap
