import ChainLedger.Json.Value
import ChainLedger.Text.Octets
import ChainLedger.Text.Split

/-!
# Requests and responses

A request is a method, a target, headers and the octets of a body. A response is a status,
headers, and a body that is empty, plain text or JSON.
-/

set_option autoImplicit false

namespace ChainLedger.Http

abbrev Headers := List (String × String)

/-- Header names are compared without regard to case. -/
def Headers.get? (headers : Headers) (name : String) : Option String :=
  (headers.find? fun header => header.1.toLower = name).map (·.2)

structure Request where
  method : String := "GET"
  target : String
  headers : Headers := []
  body : List Nat := []

namespace Request

/-- The target from its path on. A target may begin with a scheme and an authority. -/
def localPart (request : Request) : List Char :=
  match request.target.toList with
  | '/' :: rest => '/' :: rest
  | target =>
    match Text.cutFirst? [':', '/', '/'] target with
    | some (_, rest) => rest.dropWhile (· ∉ ['/', '?', '#'])
    | none => target

def resource (request : Request) : List Char :=
  request.localPart.takeWhile (· ≠ '#')

def path (request : Request) : String :=
  String.ofList (request.resource.takeWhile (· ≠ '?'))

def query (request : Request) : String :=
  String.ofList ((request.resource.dropWhile (· ≠ '?')).drop 1)

end Request

inductive Body
  | empty
  | text (content : String)
  | json (value : Json.Value)

structure Response where
  status : Nat
  headers : Headers := []
  body : Body := .empty

namespace Response

def plainText : String := "text/plain; charset=utf-8"

def text (status : Nat) (content : String) : Response :=
  { status, headers := [("content-type", plainText)], body := .text content }

def json (status : Nat) (value : Json.Value) : Response :=
  { status, headers := [("content-type", "application/json")], body := .json value }

def withHeaders (response : Response) (headers : Headers) : Response :=
  { response with headers := response.headers ++ headers }

def withoutBody (response : Response) : Response := { response with body := .empty }

end Response
end ChainLedger.Http
