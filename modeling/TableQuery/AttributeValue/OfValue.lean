import TableQuery.Value
import TableQuery.AttributeValue

/-!
# Attribute values of values

Every value has one typed form. Back from the typed form, number literals are checked, and the first
that is none is reported.
-/

namespace TableQuery

/-! ## The typed form of a value -/

mutual

def Value.toAttribute : Value → AttributeValue
  | .null => .null true
  | .bool b => .bool b
  | .number n => .n n
  | .string s => .s s
  | .bytes b => .b b
  | .list elements => .l (attributeElements elements)
  | .map ⟨entries⟩ => .m (OrderedMap.ofList (attributeEntries entries))
  | .stringSet elements => .ss elements
  | .numberSet literals => .ns literals
  | .bytesSet elements => .bs elements

def Value.attributeElements : List Value → List AttributeValue
  | [] => []
  | v :: rest => v.toAttribute :: attributeElements rest

def Value.attributeEntries : List (String × Value) → List (String × AttributeValue)
  | [] => []
  | (name, v) :: rest => (name, v.toAttribute) :: attributeEntries rest

end

def Item.toAttributes (item : Item) : AttributeMap :=
  OrderedMap.ofList (Value.attributeEntries item.entries)

/-! ## The value of a typed form -/

/-- A literal that is a number; the literal itself if it is none. -/
def checkNumeral (literal : String) : Except String String :=
  if Decimal.isNumeral literal then .ok literal else .error literal

def checkNumerals : List String → Except String (List String)
  | [] => .ok []
  | n :: rest => do
    let n ← checkNumeral n
    let ns ← checkNumerals rest
    return n :: ns

mutual

/-- Fails with the first literal that is no number. -/
def AttributeValue.toValue : AttributeValue → Except String Value
  | .null _ => .ok .null
  | .bool flag => .ok (.bool flag)
  | .n literal => (checkNumeral literal).map .number
  | .s text => .ok (.string text)
  | .b bytes => .ok (.bytes bytes)
  | .l elements => (unattributeElements elements).map .list
  | .m ⟨entries⟩ => (unattributeEntries entries).map fun es => .map ⟨es⟩
  | .ss elements => .ok (.stringSet elements)
  | .ns literals => (checkNumerals literals).map .numberSet
  | .bs elements => .ok (.bytesSet elements)

def AttributeValue.unattributeElements : List AttributeValue → Except String (List Value)
  | [] => .ok []
  | w :: rest => do
    let v ← w.toValue
    let vs ← unattributeElements rest
    return v :: vs

def AttributeValue.unattributeEntries :
    List (String × AttributeValue) → Except String (List (String × Value))
  | [] => .ok []
  | (name, w) :: rest => do
    let v ← w.toValue
    let vs ← unattributeEntries rest
    return (name, v) :: vs

end

def AttributeMap.toItem (m : AttributeMap) : Except String Item :=
  m.traverse AttributeValue.toValue

end TableQuery
