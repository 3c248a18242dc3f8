import MockServices.Text
import MockServices.Foundations.CallLog
import MockServices.Foundations.HandlerTables
import MockServices.Foundations.Run

/-!
# The REST server

`rest_server` over the routing of the HTTP library. The library keeps one
table for each registration call and runs the first entry that matches the
path; a matched request is recorded under the mutex of the history and
then handed to the route's handler. Requests are served by several threads, so
each of these is a step of its own.
-/

namespace MockServices.Rest

open Foundations

structure Request where
  method : Text
  path : Text
  body : Text
  deriving DecidableEq

structure Response where
  statusCode : ℤ := 200
  body : Text := []
  contentType : Text := "application/json"
  deriving DecidableEq

structure ResponseBuilder where
  statusCode : ℤ := 200
  contentType : Text := "application/json"
  body : Text := []

def ResponseBuilder.build (builder : ResponseBuilder) : Response where
  statusCode := builder.statusCode
  body := builder.body
  contentType := builder.contentType

/-- How a handler ends: with a response, a `std::exception` or something
else that is thrown. -/
inductive Outcome
  | returned (response : Response)
  | threw (what : Text)
  | threwOther
  deriving DecidableEq

abbrev Handler := Request → Outcome

/-- The arguments of one call of `route`. -/
structure Route where
  method : Text
  path : Text
  handlerFn : Handler

/-- The constants of `namespace method`. -/
inductive Method
  | get | post | put | del | patch | head | options
  deriving DecidableEq

def Method.name : Method → Text
  | .get => "GET"
  | .post => "POST"
  | .put => "PUT"
  | .del => "DELETE"
  | .patch => "PATCH"
  | .head => "HEAD"
  | .options => "OPTIONS"

/-- `Get`, `Post` and so on of `httplib::Server`. -/
inductive Registration
  | get | post | put | delete | patch | options
  deriving DecidableEq

/-- The table that the HTTP library searches for a request. -/
def Method.table : Method → Registration
  | .get => .get
  | .post => .post
  | .put => .put
  | .del => .delete
  | .patch => .patch
  | .head => .get
  | .options => .options

/-- The chain of comparisons in `add_route`. -/
def registration (method : Text) : Registration :=
  if method = txt "GET" then .get
  else if method = txt "POST" then .post
  else if method = txt "PUT" then .put
  else if method = txt "DELETE" then .delete
  else if method = txt "PATCH" then .patch
  else .get

/-- What the callback leaves in the library's response. -/
inductive Answer
  | sent (status : ℤ) (body : Text) (contentType : Text)
  | escaped
  deriving DecidableEq

def intoHttplib (response : Response) : Answer :=
  .sent response.statusCode response.body response.contentType

/-- The `try` of the callback. -/
def answerOf : Outcome → Answer
  | .returned response => intoHttplib response
  | .threw what => .sent 500 (txt "\x7b\"error\":\"" ++ what ++ txt "\"\x7d") "application/json"
  | .threwOther => .escaped

/-- How far a request has got. -/
inductive Point
  | unmatched (req : Request)
  | matched (route : Route) (req : Request)
  | recorded (route : Route) (req : Request)
  | answered (route : Route) (req : Request)

/-- What the thread of a request does. -/
inductive Act
  | recorded (req : Request)
  | ran (route : Route) (req : Request)
  | answered (answer : Answer)

structure Server where
  svr : HandlerTables Registration Text Route := HandlerTables.empty
  requests : List Request := []
  calls : CallLog Point Act := CallLog.empty

/-- `route` and `clear_requests` of the owner; a request that the HTTP
library has read; the next step of request `i`. -/
inductive Event
  | route (method path : Text) (handlerFn : Handler)
  | clearRequests
  | arrive (method : Method) (path body : Text)
  | record (i : ℕ)
  | respond (i : ℕ)

/-- `when(method, path).then_return(builder)`. -/
def Event.whenThenReturn (method path : Text) (builder : ResponseBuilder) : Event :=
  .route method path fun _ => .returned builder.build

namespace Server

def addRoute (s : Server) (method path : Text) (handlerFn : Handler) : Server :=
  { s with svr := s.svr.register (registration method) (cStr path) ⟨method, path, handlerFn⟩ }

/-- The library looks for a handler. Without one it answers 404 itself. -/
def arrive (s : Server) (method : Method) (path body : Text) : Server :=
  let req : Request := { method := method.name, path, body }
  match s.svr.lookup method.table path with
  | some route => { s with calls := s.calls.enter (.matched route req) }
  | none => { s with calls := s.calls.enter (.unmatched req) }

def step (s : Server) : Event → Option Server
  | .route method path handlerFn => some (s.addRoute method path handlerFn)
  | .clearRequests => some { s with requests := [] }
  | .arrive method path body => some (s.arrive method path body)
  | .record i =>
      match s.calls.points[i]? with
      | some (.matched route req) => some { s with
          requests := s.requests ++ [req]
          calls := s.calls.advance i (.recorded route req) [.recorded req] }
      | _ => none
  | .respond i =>
      match s.calls.points[i]? with
      | some (.recorded route req) =>
          some { s with
            calls := s.calls.advance i (.answered route req)
              [.ran route req, .answered (answerOf (route.handlerFn req))] }
      | _ => none

end Server

/-- The routes registered by the events of a run, in order. -/
def routesOf (events : List Event) : List Route :=
  events.filterMap fun
    | .route method path handlerFn => some ⟨method, path, handlerFn⟩
    | _ => none

end MockServices.Rest
