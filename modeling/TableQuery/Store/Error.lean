import TableQuery.Json.Document

/-!
# Errors of the store

The store reports a failure with a code, a message and an HTTP status.
-/

namespace TableQuery

inductive StoreError.Code where
  | resourceNotFound
  | conditionalCheckFailed
  | itemCollectionSizeLimitExceeded
  | provisionedThroughputExceeded
  | requestLimitExceeded
  | throttling
  | validation
  | serialization
  | internalServerError
  | accessDenied
  | unrecognizedClient
  | transport
  deriving DecidableEq

namespace StoreError.Code

def all : List StoreError.Code :=
  [.resourceNotFound, .conditionalCheckFailed, .itemCollectionSizeLimitExceeded,
    .provisionedThroughputExceeded, .requestLimitExceeded, .throttling, .validation,
    .serialization, .internalServerError, .accessDenied, .unrecognizedClient, .transport]

instance : Inhabited StoreError.Code := ⟨.validation⟩

def text : StoreError.Code → String
  | .resourceNotFound => "ResourceNotFoundException"
  | .conditionalCheckFailed => "ConditionalCheckFailedException"
  | .itemCollectionSizeLimitExceeded => "ItemCollectionSizeLimitExceededException"
  | .provisionedThroughputExceeded => "ProvisionedThroughputExceededException"
  | .requestLimitExceeded => "RequestLimitExceeded"
  | .throttling => "ThrottlingException"
  | .validation => "ValidationException"
  | .serialization => "SerializationException"
  | .internalServerError => "InternalServerError"
  | .accessDenied => "AccessDeniedException"
  | .unrecognizedClient => "UnrecognizedClientException"
  | .transport => "TransportError"

/-- Whether a caller may try again after a while. -/
def mayRetry : StoreError.Code → Bool
  | .provisionedThroughputExceeded => true
  | .requestLimitExceeded => true
  | .throttling => true
  | .internalServerError => true
  | .transport => true
  | _ => false

def defaultStatus : StoreError.Code → Nat
  | .internalServerError => 500
  | .transport => 502
  | _ => 400

/-- What stands after the last `#`; everything if there is none. -/
def afterLastHash (cs : List Char) : List Char :=
  (cs.reverse.takeWhile (· != '#')).reverse

/-- The code of an error type, whose name may be qualified by what stands before a `#`. -/
def ofErrorType? (errorType : String) : Option StoreError.Code :=
  let name := String.ofList (afterLastHash errorType.toList)
  all.find? fun code => code.text == name

end StoreError.Code

structure StoreError where
  code : StoreError.Code
  message : String
  status : Nat
  deriving DecidableEq

namespace StoreError

def report (code : StoreError.Code) (message : String) : StoreError :=
  ⟨code, message, code.defaultStatus⟩

def ofCode (code : StoreError.Code) : StoreError := report code code.text

def withStatus (e : StoreError) (status : Nat) : StoreError := { e with status }

def isServerStatus (status : Nat) : Bool := 500 ≤ status && status < 600

/-- The error that a response body reports. An unknown type is classified by the status. The message
may be spelled with a small or, if there is none such, a capital letter; without a text there the
error is described by its type, or else by its code. -/
def ofBody (status : Nat) (body : Json) : StoreError :=
  let errorType := (body.get? "__type").bind Json.string?
  let message := ((body.get? "message").or (body.get? "Message")).bind Json.string?
  let code := (errorType.bind StoreError.Code.ofErrorType?).getD
    (if isServerStatus status then .internalServerError else .validation)
  let text := message.getD (errorType.getD code.text)
  (report code text).withStatus status

def display (e : StoreError) : String := "StoreError(" ++ e.code.text ++ "): " ++ e.message

end StoreError

end TableQuery
