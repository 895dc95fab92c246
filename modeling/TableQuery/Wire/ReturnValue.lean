import TableQuery.Json.Reader

/-!
# Return values

Which attributes of an item a write is to return.
-/

namespace TableQuery.Wire

open Json

inductive ReturnValue where
  | nothing
  | allOld
  | updatedOld
  | allNew
  | updatedNew
  deriving DecidableEq

namespace ReturnValue

instance : Inhabited ReturnValue := ⟨.nothing⟩

def all : List ReturnValue := [.nothing, .allOld, .updatedOld, .allNew, .updatedNew]

def text : ReturnValue → String
  | .nothing => "NONE"
  | .allOld => "ALL_OLD"
  | .updatedOld => "UPDATED_OLD"
  | .allNew => "ALL_NEW"
  | .updatedNew => "UPDATED_NEW"

def toJson (r : ReturnValue) : Json := .string r.text

def read (form : Form) : Reader ReturnValue := readVariant form (all.map fun r => (r.text, r))

end ReturnValue

end TableQuery.Wire
