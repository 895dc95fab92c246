import TableQuery.Request.Run

/-!
# Connections

A connection holds the client of a store and the defaults of the requests that are made through it.
The defaults may be taken from environment variables.
-/

namespace TableQuery

structure Config where
  /-- Stands before the names of all tables. -/
  tablePrefix : String := ""
  dryRun : Bool := false
  consistentRead : Bool := false

namespace Config

def isTrue (text : String) : Bool := ["1", "true", "yes", "TRUE", "YES"].contains text

/-- The configuration in the environment variables whose names begin with a scope. -/
def ofEnvironment (scope : String) (lookup : String → Option String) : Config :=
  { tablePrefix := (lookup (scope ++ "_TABLE_PREFIX")).getD ""
    dryRun := (lookup (scope ++ "_DRY_RUN")).any isTrue
    consistentRead := (lookup (scope ++ "_CONSISTENT_READ")).any isTrue }

/-- A new request with a placeholder table of its own. -/
def table (c : Config) (name : String) : Request :=
  { tablePrefix := c.tablePrefix
    table := name
    options :=
      { dryRun := c.dryRun
        consistentRead := if c.consistentRead then some true else none } }

end Config

structure Connection (σ : Type) where
  config : Config := { tablePrefix := "" }
  client : Client σ

namespace Connection

variable {σ : Type}

def ofEnvironment (scope : String) (lookup : String → Option String) (client : Client σ) :
    Connection σ :=
  ⟨.ofEnvironment scope lookup, client⟩

/-- Starts a request on a table. -/
def table (c : Connection σ) (name : String) : Request := c.config.table name

end Connection

end TableQuery
