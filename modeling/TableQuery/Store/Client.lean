import TableQuery.Result
import TableQuery.Wire.Parameters

/-!
# Clients of the store

A client sends an operation with its parameters and returns the answer of the store. What it keeps
between the calls is a state of its own.
-/

namespace TableQuery

abbrev Reply := Except StoreError Response

abbrev Client (σ : Type) := Operation → Wire.Parameters → σ → Reply × σ

namespace Client

variable {σ : Type}

/-- The client of a connection that has none: every call fails. -/
def disconnected : Client σ := fun operation _ s =>
  (.error (.report .transport ("no store client configured for " ++ operation.text)), s)

/-- Answers with the replies of a list, and with empty bodies after the last. -/
def scripted : Client (List Reply) := fun _ _ replies =>
  match replies with
  | [] => (.ok { body := .object [] }, [])
  | reply :: rest => (reply, rest)

/-- Keeps what has been sent, the last call at the end. -/
def recorded (client : Client σ) : Client (List (Operation × Wire.Parameters) × σ) :=
  fun operation params (calls, s) =>
    let (reply, s) := client operation params s
    (reply, calls ++ [(operation, params)], s)

end Client

end TableQuery
