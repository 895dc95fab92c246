import TableQuery.Wire.Fields

/-!
# Consumed capacity

What the store says an operation has used up: in total, by the table, and by each of its indexes.
-/

namespace TableQuery.Wire

open Json

structure Capacity where
  readUnits : Option Float := none
  writeUnits : Option Float := none
  units : Option Float := none

def Capacity.toJson (c : Capacity) : Json :=
  recordJson [
    ifSome "ReadCapacityUnits" floatJson c.readUnits,
    ifSome "WriteCapacityUnits" floatJson c.writeUnits,
    ifSome "CapacityUnits" floatJson c.units]

def Capacity.fields : List (RecordField Capacity) := [
  .of "ReadCapacityUnits" .optional (readOption readFloat) fun x c => { c with readUnits := x },
  .of "WriteCapacityUnits" .optional (readOption readFloat) fun x c => { c with writeUnits := x },
  .of "CapacityUnits" .optional (readOption readFloat) fun x c => { c with units := x }]

def Capacity.read (form : Form) : Reader Capacity := readRecord form "Capacity" fields {}

structure ConsumedCapacity where
  tableName : Option String := none
  units : Option Float := none
  readUnits : Option Float := none
  writeUnits : Option Float := none
  table : Option Capacity := none
  localIndexes : OrderedMap Capacity := ∅
  globalIndexes : OrderedMap Capacity := ∅

def ConsumedCapacity.toJson (c : ConsumedCapacity) : Json :=
  recordJson [
    ifSome "TableName" .string c.tableName,
    ifSome "CapacityUnits" floatJson c.units,
    ifSome "ReadCapacityUnits" floatJson c.readUnits,
    ifSome "WriteCapacityUnits" floatJson c.writeUnits,
    ifSome "Table" Capacity.toJson c.table,
    ifEntries "LocalSecondaryIndexes" (mapJson Capacity.toJson) c.localIndexes,
    ifEntries "GlobalSecondaryIndexes" (mapJson Capacity.toJson) c.globalIndexes]

def ConsumedCapacity.fields (form : Form) : List (RecordField ConsumedCapacity) := [
  .of "TableName" .optional (readOption readString) fun x c => { c with tableName := x },
  .of "CapacityUnits" .optional (readOption readFloat) fun x c => { c with units := x },
  .of "ReadCapacityUnits" .optional (readOption readFloat) fun x c => { c with readUnits := x },
  .of "WriteCapacityUnits" .optional (readOption readFloat) fun x c => { c with writeUnits := x },
  .of "Table" .optional (readOption (Capacity.read form)) fun x c => { c with table := x },
  .of "LocalSecondaryIndexes" .defaulted (readMap (Capacity.read form)) fun x c =>
    { c with localIndexes := x },
  .of "GlobalSecondaryIndexes" .defaulted (readMap (Capacity.read form)) fun x c =>
    { c with globalIndexes := x }]

def ConsumedCapacity.read (form : Form) : Reader ConsumedCapacity :=
  readRecord form "ConsumedCapacity" (fields form) {}

end TableQuery.Wire
