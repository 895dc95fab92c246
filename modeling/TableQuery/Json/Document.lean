/-!
# JSON documents

A document keeps the members of its objects in the order in which they are written, repetitions
included. Its generic value has them sorted by name, and keeps the last of each name.
-/

namespace TableQuery

/-- A number as a generic value holds it: an integer of 64 bits, with or without a sign, or a finite
binary floating point number. -/
inductive Json.Number where
  | integer (n : Int)
  | float (x : Float)

inductive Json where
  | null
  | bool (b : Bool)
  | number (n : Json.Number)
  | string (s : String)
  | array (elements : List Json)
  | object (members : List (String × Json))

namespace Json

instance : Inhabited Json := ⟨.null⟩

def ofInt (n : Int) : Json := .number (.integer n)

def ofNat (n : Nat) : Json := ofInt n

def strings (ss : List String) : Json := .array (ss.map .string)

/-! ## Looking into a generic value -/

def lookup? (name : String) : List (String × Json) → Option Json
  | [] => none
  | (k, v) :: rest => if k = name then some v else lookup? name rest

/-- The member of an object; nothing in any other value. -/
def get? (j : Json) (name : String) : Option Json :=
  match j with
  | .object members => lookup? name members
  | _ => none

def string? : Json → Option String
  | .string s => some s
  | _ => none

/-! ## Generic values -/

/-- Puts a member into members sorted by name, in place of one of the same name. Names are ordered
by code points, which is the order of their UTF-8 bytes. -/
def insertMember (name : String) (value : Json) : List (String × Json) → List (String × Json)
  | [] => [(name, value)]
  | (k, v) :: rest =>
    if k = name then (name, value) :: rest
    else if name < k then (name, value) :: (k, v) :: rest
    else (k, v) :: insertMember name value rest

def sortMembers (members : List (String × Json)) : List (String × Json) :=
  members.foldl (fun sorted m => insertMember m.1 m.2 sorted) []

mutual

/-- The generic value of a document. -/
def canonical : Json → Json
  | .array elements => .array (canonicalElements elements)
  | .object members => .object (sortMembers (canonicalMembers members))
  | j => j

def canonicalElements : List Json → List Json
  | [] => []
  | j :: rest => j.canonical :: canonicalElements rest

def canonicalMembers : List (String × Json) → List (String × Json)
  | [] => []
  | (name, j) :: rest => (name, j.canonical) :: canonicalMembers rest

end

end Json

end TableQuery
