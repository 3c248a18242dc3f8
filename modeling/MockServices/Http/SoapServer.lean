import MockServices.Text
import MockServices.Foundations.CallLog
import MockServices.Foundations.HandlerTables
import MockServices.Foundations.Run

/-!
# The SOAP server

`soap_server` over the POST table of the HTTP library. A path is handed to
the library once; all its actions share one callback, which records the
request, looks the handler up and answers. The history and the handlers have a
mutex each, so these are steps of their own. How the XML library prints a
document is a parameter.
-/

namespace MockServices.Soap

open Foundations

inductive SoapVersion
  | v11
  | v12
  deriving DecidableEq

structure SoapRequest where
  path : Text
  soapAction : Text
  body : Text
  version : SoapVersion := .v11
  deriving DecidableEq

structure SoapResponse where
  statusCode : ℤ := 200
  body : Text := []
  deriving DecidableEq

inductive XmlNode
  | element (name : Text) (attributes : List (Text × Text)) (children : List XmlNode)
  | pcdata (value : Text)

structure XmlDocument where
  declaration : List (Text × Text)
  root : XmlNode

/-- An element without attributes whose text is set from a C string. -/
def XmlNode.textElement (name value : Text) : XmlNode := .element name [] [.pcdata (cStr value)]

/-- The document that `soap_response::fault` builds. -/
def faultDocument (faultcode faultstring : Text) (version : SoapVersion) : XmlDocument where
  declaration := [("version", "1.0"), ("encoding", "utf-8")]
  root :=
    match version with
    | .v11 =>
        .element "soap:Envelope" [("xmlns:soap", "http://schemas.xmlsoap.org/soap/envelope/")]
          [.element "soap:Body" []
            [.element "soap:Fault" []
              [.textElement "faultcode" faultcode, .textElement "faultstring" faultstring]]]
    | .v12 =>
        .element "env:Envelope" [("xmlns:env", "http://www.w3.org/2003/05/soap-envelope")]
          [.element "env:Body" []
            [.element "env:Fault" []
              [.element "env:Code" [] [.textElement "env:Value" faultcode],
                .element "env:Reason" [] [.textElement "env:Text" faultstring]]]]

/-- How a handler ends: with a response, a `std::exception` or something
else that is thrown. -/
inductive Outcome
  | returned (response : SoapResponse)
  | threw (what : Text)
  | threwOther
  deriving DecidableEq

abbrev Handler := SoapRequest → Outcome

/-- The arguments of one call of `route`; `none` is an empty `std::function`. -/
structure Route where
  path : Text
  soapAction : Text
  handlerFn : Option Handler

/-- The key of `handlers_`. -/
def Route.key (r : Route) : Text × Text := (r.path, r.soapAction)

/-- `headers` is what `find` answers for the name of a header. -/
structure HttpRequest where
  path : Text
  headers : Text → Option Text
  body : Text

def versionOf (req : HttpRequest) : SoapVersion :=
  match req.headers "Content-Type" with
  | some value => if txt "application/soap+xml" <:+: value then .v12 else .v11
  | none => .v11

/-- One pair of enclosing quotes is removed. -/
def unquoted (value : Text) : Text :=
  if 2 ≤ value.length ∧ value.head? = some '"' ∧ value.getLast? = some '"' then
    (value.drop 1).take (value.length - 2)
  else value

def soapActionOf (req : HttpRequest) : Text :=
  match req.headers "SOAPAction" with
  | some value => unquoted value
  | none => []

def soapRequestOf (req : HttpRequest) : SoapRequest where
  path := req.path
  soapAction := soapActionOf req
  body := req.body
  version := versionOf req

/-- What the callback leaves in the library's response. -/
inductive Answer
  | sent (status : ℤ) (body : Text) (contentType : Text)
  | escaped
  deriving DecidableEq

def contentTypeOf : SoapVersion → Text
  | .v11 => "text/xml; charset=utf-8"
  | .v12 => "application/soap+xml; charset=utf-8"

section Answers

variable (save : XmlDocument → Text)

def SoapResponse.fault (statusCode : ℤ) (faultcode faultstring : Text) (version : SoapVersion) :
    SoapResponse :=
  { statusCode, body := save (faultDocument faultcode faultstring version) }

/-- The end of `handle_request`, from `if (handler_fn)` on. -/
def answerOf (handlerFn : Option Handler) (req : SoapRequest) : Answer :=
  match handlerFn with
  | some handler =>
      match handler req with
      | .returned response => .sent response.statusCode response.body (contentTypeOf req.version)
      | .threw what => .sent 500 (SoapResponse.fault save 500 "soap:Server" what req.version).body
          (contentTypeOf req.version)
      | .threwOther => .escaped
  | none => .sent 500 (SoapResponse.fault save 500 "soap:Client"
      (txt "Action '" ++ req.soapAction ++ txt "' not supported") req.version).body
      (contentTypeOf req.version)

end Answers

/-- How far a request has got. -/
inductive Point
  | unmatched (req : SoapRequest)
  | matched (req : SoapRequest)
  | recorded (req : SoapRequest)
  | found (req : SoapRequest) (handlerFn : Option Handler)
  | answered (req : SoapRequest) (handlerFn : Option Handler)

/-- What the thread of a request does. -/
inductive Act
  | recorded (req : SoapRequest)
  | ran (handler : Handler) (req : SoapRequest)
  | answered (answer : Answer)

/-- `svr` is the table of POST, whose entries all are `handle_request`. -/
structure Server where
  svr : HandlerTables Unit Text Unit := HandlerTables.empty
  handlers : Text × Text → Option (Option Handler) := fun _ => none
  paths : List Text := []
  requests : List SoapRequest := []
  calls : CallLog Point Act := CallLog.empty

/-- `route` and `clear_requests` of the owner; a POST request that the HTTP
library has read; the next step of request `i`. -/
inductive Event
  | route (path soapAction : Text) (handlerFn : Option Handler)
  | clearRequests
  | post (req : HttpRequest)
  | record (i : ℕ)
  | lookup (i : ℕ)
  | respond (i : ℕ)

/-- `when(path, soap_action).then_return(response)`. -/
def Event.whenThenReturn (path soapAction : Text) (response : SoapResponse) : Event :=
  .route path soapAction (some fun _ => .returned response)

namespace Server

def addRoute (s : Server) (path soapAction : Text) (handlerFn : Option Handler) : Server :=
  let added : Server := { s with
    paths := s.paths.insert path
    handlers := Function.update s.handlers (path, soapAction) (some handlerFn) }
  -- `is_new_path`.
  if s.paths.count path = 0 then { added with svr := s.svr.register () (cStr path) () } else added

/-- Without a matching path the library answers 404 itself. -/
def post (s : Server) (req : HttpRequest) : Server :=
  match s.svr.lookup () req.path with
  | some () => { s with calls := s.calls.enter (.matched (soapRequestOf req)) }
  | none => { s with calls := s.calls.enter (.unmatched (soapRequestOf req)) }

/-- `handlers_.find(key)`; an absent entry leaves `handler_fn` empty. -/
def findHandler (s : Server) (req : SoapRequest) : Option Handler :=
  (s.handlers (req.path, req.soapAction)).getD none

def step (save : XmlDocument → Text) (s : Server) : Event → Option Server
  | .route path soapAction handlerFn => some (s.addRoute path soapAction handlerFn)
  | .clearRequests => some { s with requests := [] }
  | .post req => some (s.post req)
  | .record i =>
      match s.calls.points[i]? with
      | some (.matched req) => some { s with
          requests := s.requests ++ [req]
          calls := s.calls.advance i (.recorded req) [.recorded req] }
      | _ => none
  | .lookup i =>
      match s.calls.points[i]? with
      | some (.recorded req) =>
          some { s with calls := s.calls.advance i (.found req (s.findHandler req)) [] }
      | _ => none
  | .respond i =>
      match s.calls.points[i]? with
      | some (.found req handlerFn) => some { s with
          calls := s.calls.advance i (.answered req handlerFn)
            ((handlerFn.map fun handler => .ran handler req).toList ++
              [.answered (answerOf save handlerFn req)]) }
      | _ => none

end Server

/-- The routes registered by the events of a run, in order. -/
def routesOf (events : List Event) : List Route :=
  events.filterMap fun
    | .route path soapAction handlerFn => some ⟨path, soapAction, handlerFn⟩
    | _ => none

end MockServices.Soap
