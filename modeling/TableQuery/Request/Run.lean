import TableQuery.Request.Command
import TableQuery.Store.Client

/-!
# Running a request

A prepared command is shown in a dry run; otherwise it is sent, and the response is decoded as the
operation demands. Counting is always done live.
-/

namespace TableQuery

inductive Outcome where
  /-- What a dry run would have sent. -/
  | preview (prepared : Prepared)
  | singleItem (result : SingleItem)
  | page (result : Page)
  | batchItems (result : BatchItems)
  | batchRemainder (result : BatchRemainder)
  /-- The response to a put or a delete is not decoded. -/
  | undecoded (response : Response)

namespace Outcome

def preview? : Outcome → Option Prepared
  | .preview prepared => some prepared
  | _ => none

def singleItem? : Outcome → Option SingleItem
  | .singleItem result => some result
  | _ => none

def page? : Outcome → Option Page
  | .page result => some result
  | _ => none

def batchItems? : Outcome → Option BatchItems
  | .batchItems result => some result
  | _ => none

def batchRemainder? : Outcome → Option BatchRemainder
  | .batchRemainder result => some result
  | _ => none

def undecoded? : Outcome → Option Response
  | .undecoded response => some response
  | _ => none

/-- What a response of some kind tells. -/
def ofResponse (response : Response) : Option ResponseKind → Except DecodingError Outcome
  | none => .ok (.undecoded response)
  | some .singleItem => response.singleItem.map .singleItem
  | some .multipleItems => response.page.map .page
  | some .batchGetItems => response.batchItems.map .batchItems
  | some .batchWriteItems => response.batchRemainder.map .batchRemainder

end Outcome

variable {σ : Type}

/-- Sends a prepared command and decodes the response. -/
def Prepared.perform (p : Prepared) (client : Client σ) (s : σ) :
    Except RequestError Outcome × σ :=
  match client p.operation p.parameters s with
  | (.error e, s) => (.error (.store e), s)
  | (.ok response, s) => ((Outcome.ofResponse response p.responseKind?).mapError .decoding, s)

namespace Request

def run (r : Request) (client : Client σ) (command : Command) (s : σ) :
    Except RequestError Outcome × σ :=
  match r.prepare command with
  | .error e => (.error e, s)
  | .ok prepared =>
    if r.options.dryRun then (.ok (.preview prepared), s) else prepared.perform client s

/-- The number of items that a live run of a command finds. -/
def countItems (r : Request) (client : Client σ) (command : Command) (s : σ) :
    Except RequestError Nat × σ :=
  let (outcome, s) := (r.set (.dryRun false)).run client command s
  (outcome.map fun o => (o.page?.map Page.itemCount).getD 0, s)

def countQueried (r : Request) (client : Client σ) (s : σ) : Except RequestError Nat × σ :=
  r.countItems client .query s

def countScanned (r : Request) (client : Client σ) (s : σ) : Except RequestError Nat × σ :=
  r.countItems client .scan s

end Request

end TableQuery
