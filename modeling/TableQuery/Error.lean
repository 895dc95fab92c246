import TableQuery.Json.Reader
import TableQuery.Operation
import TableQuery.Store.Error

/-!
# Errors

What can go wrong between a call on a request and a decoded result.
-/

namespace TableQuery

inductive DecodingError where
  | invalidNumber (literal : String)
  | malformedResponse (shape : String) (e : Json.ReadError)
  | conversion (text : String)

def DecodingError.message : DecodingError → String
  | .invalidNumber literal => "invalid number literal `" ++ literal ++ "`"
  | .malformedResponse shape e => "malformed " ++ shape ++ " response: " ++ e.message
  | .conversion text => "cannot convert item: " ++ text

/-- Why a clause cannot be written as an expression. -/
inductive Unsupported where
  | comparisonWithoutValue
  | functionWithValue
  | functionWithoutValue
  | unknownOperator
  | sizeWithoutComparison
  | noMembers
  | batchExpression (operation : Operation)
  deriving DecidableEq

def Unsupported.text : Unsupported → String
  | .comparisonWithoutValue => "comparison needs a value operand"
  | .functionWithValue => "function takes no value operand"
  | .functionWithoutValue => "function needs a value operand"
  | .unknownOperator => "not a comparison operator or condition function"
  | .sizeWithoutComparison => "size needs a comparison operator"
  | .noMembers => "needs at least one value"
  | .batchExpression operation => operation.text ++ " does not accept expressions"

/-- What a request lacks to address its items. -/
inductive MissingKey where
  | key (operation : Operation) (table : String)
  | batchKeys (operation : Operation) (table : String)
  | batchRequests (operation : Operation) (table : String)
  | columns (names : List String)
  deriving DecidableEq

def MissingKey.text : MissingKey → String
  | .key operation table => operation.text ++ " of " ++ table ++ " needs a key"
  | .batchKeys operation table => operation.text ++ " of " ++ table ++ " needs at least one key"
  | .batchRequests operation table =>
    operation.text ++ " of " ++ table ++ " needs at least one request"
  | .columns names => "no value for key attribute(s) " ++ ", ".intercalate names

inductive RequestError where
  | undefinedMethod (method : String)
  | unsupportedPredicate (token : String) (reason : Unsupported)
  | danglingPlaceholder (key : String)
  | decoding (e : DecodingError)
  | missingKey (m : MissingKey)
  | store (e : StoreError)

def RequestError.message : RequestError → String
  | .undefinedMethod method => "call to undefined method " ++ method
  | .unsupportedPredicate token reason =>
    "unsupported predicate `" ++ token ++ "`: " ++ reason.text
  | .danglingPlaceholder key => "placeholder " ++ key ++ " is not declared"
  | .decoding e => e.message
  | .missingKey m => "missing key: " ++ m.text
  | .store e => e.display

end TableQuery
