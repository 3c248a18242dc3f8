import MockServices.Foundations.Json
import MockServices.Http.RestDispatch

/-!
# The errors of the REST server

A handler that throws is answered with a JSON text, into which the callback
puts the message of the exception as it is. A client reads the message back
exactly when nothing in it would have had to be escaped.
-/

namespace MockServices.Rest

open Foundations

/-- What the body of the error is to say. -/
def errorObject (what : Text) : Json.Value := .object [("error".toList, .string what)]

theorem errorBody_eq (what : Text) :
    txt "\x7b\"error\":\"" ++ what ++ txt "\"\x7d" = Json.oneMember "error".toList what := by
  have hfront : txt "\x7b\"error\":\"" = "\x7b\"".toList ++ "error".toList ++ "\":\"".toList := by
    decide
  rw [Json.oneMember, hfront]
  rfl

theorem plain_error : Json.Plain "error".toList := by decide

theorem answerOf_threw (what : Text) :
    answerOf (.threw what) =
      .sent 500 (Json.oneMember "error".toList what) "application/json" := by
  rw [answerOf, errorBody_eq]

namespace Server

/-- Every handler that has thrown has been answered with an error, and what
a client can read in it is the message or, if something in it must be
escaped, anything but the message. -/
def ErrorsReadBack (s : Server) : Prop :=
  ∀ i route req what, s.calls.points[i]? = some (.answered route req) →
    route.handlerFn req = .threw what →
    ∃ body, s.calls.doneBy i =
        [.recorded req, .ran route req, .answered (.sent 500 body "application/json")] ∧
      (Json.Document body (errorObject what) ↔ Json.Plain what) ∧
      (Json.Plain what → ∀ v, Json.Document body v → v = errorObject what)

theorem errorsReadBack_of_accounted {s : Server} (h : s.calls.Accounted Point.past) :
    s.ErrorsReadBack := by
  intro i route req what hpoint hthrew
  have hdone := h.at hpoint
  rw [Point.past, hthrew, answerOf_threw] at hdone
  refine ⟨_, hdone, ?_, fun hplain v hv => Json.oneMember_unique plain_error hplain hv⟩
  exact (Json.oneMember_reads_iff plain_error).trans Json.stringText_self_iff

end Server

/-- In every interleaving of registrations and requests, whatever the
handlers throw. -/
theorem errors_read_back (events : List Event) :
    Always Server.step Server.ErrorsReadBack {} events :=
  always_of_invariant_along (P := fun _ _ => True)
    (fun _ _ _ h _ hstep => (Server.moved _ _ _ hstep).accounted h)
    (fun _ h => Server.errorsReadBack_of_accounted h) CallLog.accounted_empty
    (along_of_forall (fun _ _ => trivial) _ events)

end MockServices.Rest
