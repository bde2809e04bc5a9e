import ChainLedger.Json.Value
import ChainLedger.Ledger.Reconcile
import ChainLedger.Queue.Basic

/-!
# Errors of the service

What a client is told when a request fails: a status and one message. What goes wrong in the
store or the queue is the service's fault; what a request names and cannot be found, or what it
says wrongly, is the client's.
-/

set_option autoImplicit false

namespace ChainLedger.Service

inductive Error
  | database (detail : String)
  | notFound (detail : String)
  | invalidRequest (detail : String)
  | internal (detail : String)
  deriving DecidableEq, Repr

namespace Error

def ofStore (error : StoreError) : Error := .database error.message

def ofQueue (error : QueueError) : Error := .internal error.message

def ofLedger (error : Ledger.Error) : Error :=
  match error with
  | .unknownTransaction _ | .unknownAsset _ => .notFound error.message
  | .invalidValue _ => .invalidRequest error.message
  | .store error => ofStore error

def detail : Error → String
  | database detail | notFound detail | invalidRequest detail | internal detail => detail

/-- The error as it is told in a log. -/
def message : Error → String
  | database detail => "Database error: " ++ detail
  | notFound detail => "Not found: " ++ detail
  | invalidRequest detail => "Invalid request: " ++ detail
  | internal detail => "Internal error: " ++ detail

def status : Error → Nat
  | database _ | internal _ => 500
  | notFound _ => 404
  | invalidRequest _ => 400

/-- The error as it is told to the client. -/
def body (error : Error) : Json.Value := .object [("error", .string error.detail)]

end Error
end ChainLedger.Service
