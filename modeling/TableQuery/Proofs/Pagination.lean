import TableQuery.Connection
import TableQuery.Proofs.DryRun
import TableQuery.Proofs.Records
import TableQuery.Proofs.SortedForm

/-!
# Following the pages

The items of a query or a scan come page by page. A page tells at which key it ended, and the
request for the next page goes on after that key. The cursor stays an attribute map on the way from
the response to the request, so nothing of it is lost, not even what is no value.

* **`Response.cursor_of_page`** — the cursor of a decoded page is written as what the body holds.
* **`Response.items_of_page`** — its items are what the body lists, one by one.
* **`prepare_cursor`** — a cursor changes nothing of a request but where it goes on.
* **`run_page`** — asking for one page.
* **`paged_responses`** — asking for one page after the other, by induction on those that are not
  the last.
* **`pagination_exact`** — what is sent, and what items there are, over a whole run.
-/

namespace TableQuery

open Json (readPresent readOption readList)

/-! ## Pages -/

/-- A document is read as an attribute map. -/
def Reads (j : Json) (m : AttributeMap) : Prop := AttributeMap.read j.toDraft = .ok m

namespace Response

variable {r : Response} {page : Page}

/-- Where the page ends by the account of its body, as a generic value. -/
def cursor? (r : Response) : Option Json := r.body.canonical.field? "LastEvaluatedKey" 3

/-- The items that the body lists. -/
def itemDocuments (r : Response) : List Json :=
  match r.body.canonical.field? "Items" 0 with
  | some (.array js) => js
  | _ => []

/-- The page ends at a key. -/
def HasMore (r : Response) : Prop := ∃ m ms, r.cursor? = some (.object (m :: ms))

/-- The page does not tell where it ends. -/
def IsLast (r : Response) : Prop :=
  r.cursor? = none ∨ r.cursor? = some .null ∨ r.cursor? = some (.object [])

/-- A document is read and unmarshaled as an item. -/
def Unmarshaled (j : Json) (item : Item) : Prop :=
  ∃ m, AttributeMap.read j.toDraft = .ok m ∧ m.toItem = .ok item

theorem shows_items : Json.Shows (Wire.ItemsBody.fields .value) "Items" (readList AttributeMap.read)
    (·.items) := by
  constructor <;> simp [Wire.ItemsBody.fields]

theorem shows_lastEvaluatedKey : Json.Shows (Wire.ItemsBody.fields .value) "LastEvaluatedKey"
    (readOption AttributeMap.read) (·.lastEvaluatedKey) := by
  constructor <;> simp [Wire.ItemsBody.fields]

theorem decodeItems_eq_ok {ms : List AttributeMap} {items : List Item} :
    decodeItems ms = .ok items ↔ List.Forall₂ (fun m item => m.toItem = .ok item) ms items := by
  induction ms generalizing items with
  | nil => cases items <;> simp [decodeItems]
  | cons m rest ih =>
    rw [decodeItems]
    simp only [bind_eq_ok, decodeItem, mapError_eq_ok, ih, List.forall₂_cons_left_iff]
    constructor
    · rintro ⟨item, hitem, more, hmore, hitems⟩
      cases hitems
      exact ⟨item, more, hitem, hmore, rfl⟩
    · rintro ⟨item, more, hitem, hmore, rfl⟩
      exact ⟨item, hitem, more, hmore, rfl⟩

/-- What a decoded page is made of. -/
theorem page_inv (h : r.page = .ok page) :
    ∃ maps key,
      readPresent (readList AttributeMap.read) [] (r.body.canonical.field? "Items" 0) = .ok maps
      ∧ decodeItems maps = .ok page.items
      ∧ readPresent (readOption AttributeMap.read) none r.cursor? = .ok key
      ∧ page.metadata.lastEvaluatedKey = key.filter fun key => !key.isEmpty := by
  obtain ⟨body, hbody, h⟩ := bind_eq_ok.1 h
  obtain ⟨items, hitems, h⟩ := bind_eq_ok.1 h
  cases h
  have hread := mapError_eq_ok.1 hbody
  have hnames : ((Wire.ItemsBody.fields .value).map (·.name)).Nodup := by decide
  exact ⟨body.items, body.lastEvaluatedKey, shows_items.readRecord hnames 0 rfl hread, hitems,
    shows_lastEvaluatedKey.readRecord hnames 3 rfl hread, rfl⟩

/-- The items that are read are what the body lists. -/
theorem reads_items {maps : List AttributeMap}
    (h : readPresent (readList AttributeMap.read) [] (r.body.canonical.field? "Items" 0)
      = .ok maps) : List.Forall₂ Reads r.itemDocuments maps := by
  unfold itemDocuments
  cases hfield : r.body.canonical.field? "Items" 0 with
  | none =>
    rw [hfield] at h
    cases h
    exact .nil
  | some j =>
    rw [hfield] at h
    obtain ⟨js, rfl, hjs⟩ := Json.readList_eq_ok.1 h
    exact hjs

/-- **The items of a page** are what its body lists, one by one. -/
theorem items_of_page (h : r.page = .ok page) :
    List.Forall₂ Unmarshaled r.itemDocuments page.items := by
  obtain ⟨maps, -, hmaps, hitems, -⟩ := page_inv h
  rw [decodeItems_eq_ok] at hitems
  have hreads := reads_items hmaps
  clear hmaps h
  generalize r.itemDocuments = documents at hreads
  generalize page.items = items at hitems
  -- each document is read, and what is read is unmarshaled
  induction hreads generalizing items with
  | nil =>
    rw [List.forall₂_nil_left_iff.1 hitems]
    exact .nil
  | cons hj _ ih =>
    obtain ⟨item, more, hitem, hmore, rfl⟩ := List.forall₂_cons_left_iff.1 hitems
    exact .cons ⟨_, hj, hitem⟩ (ih more hmore)

theorem sorted_of_cursor? {j : Json} (h : r.cursor? = some j) : j.Sorted :=
  Json.sorted_of_field? (Json.sorted_canonical r.body) h

/-- **The cursor of a page** is written as what the body holds. -/
theorem cursor_of_page (h : r.page = .ok page) (more : r.HasMore) :
    ∃ key, page.metadata.lastEvaluatedKey = some key ∧ key.isEmpty = false
      ∧ r.cursor? = some key.toJson.canonical := by
  obtain ⟨m, ms, hcursor⟩ := more
  obtain ⟨-, key?, -, -, hread, hkey⟩ := page_inv h
  rw [hcursor, Json.readPresent_some] at hread
  rcases Json.readOption_eq_ok.1 hread with ⟨hnull, -⟩ | ⟨-, key, hkeyRead, rfl⟩
  · cases hnull
  -- the cursor was read from a sorted document, so writing its key gives that document again
  have hsorted := sorted_of_cursor? hcursor
  have hdocument := AttributeMap.toJson_of_read (Json.distinct_of_sorted _ hsorted) hkeyRead
  have hpresent : key.isEmpty = false := by
    -- a cursor that is there has at least one member
    obtain ⟨es⟩ := key
    cases es with
    | nil => cases hdocument
    | cons e rest => rfl
  refine ⟨key, ?_, hpresent, ?_⟩
  · rw [hkey, Option.filter_some, hpresent]
    rfl
  · rw [hcursor, hdocument, Json.canonical_of_sorted _ hsorted]

/-- The last page has no cursor. -/
theorem no_cursor_of_page (h : r.page = .ok page) (last : r.IsLast) :
    page.metadata.lastEvaluatedKey = none := by
  obtain ⟨-, key?, -, -, hread, hkey⟩ := page_inv h
  rw [hkey]
  rcases last with hnone | hnull | hempty
  · rw [hnone] at hread
    cases hread
    rfl
  · rw [hnull] at hread
    cases hread
    rfl
  · rw [hempty] at hread
    cases hread
    rfl

end Response

/-! ## Cursors of requests -/

theorem Wire.Parameters.body_exclusiveStartKey (p : Wire.Parameters) :
    p.body.get? "ExclusiveStartKey"
      = if p.exclusiveStartKey.isEmpty then none
        else some p.exclusiveStartKey.toJson.canonical := by
  rw [body, toJson]
  refine get?_ifEntries ?_ ?_
  · simp
  · simp [fieldName_ifSome, fieldName_ifEntries]

/-- Commands whose items come page by page. -/
def Command.isPaged : Command → Bool
  | .query => true
  | .scan => true
  | .get => true
  | _ => false

/-- The parameters for going on after a cursor. -/
def Wire.Parameters.goOn (p : Wire.Parameters) : Option AttributeMap → Wire.Parameters
  | none => p
  | some key => { p with exclusiveStartKey := key }

namespace Request

/-- The request for the page after a cursor, or for the first page. -/
def goOn (r : Request) : Option AttributeMap → Request
  | none => r
  | some key => r.set (.exclusiveStartKey key)

variable {r : Request} {command : Command} {p : Prepared}

theorem parameters_cursor (r : Request) (key : AttributeMap) (operation : Operation) (item : Item)
    (changes : List KeyedChange) :
    (r.set (.exclusiveStartKey key)).parameters operation item changes
      = (r.parameters operation item changes).map fun p => { p with exclusiveStartKey := key } := by
  unfold parameters
  dsimp only [set, Options.set]
  -- the cursor is read by none of the expressions, so each of them fails or succeeds as before
  generalize r.conditions.placeholders.projection r.options.columns = projected
  cases Condition.expression projected.2 r.conditions.filter with
  | error e => rfl
  | ok filter =>
    cases Condition.expression projected.2 r.conditions.condition with
    | error e => rfl
    | ok condition =>
      cases Condition.expression projected.2 r.conditions.keyCondition with
      | error e => rfl
      | ok keyCondition =>
        cases Update.expression projected.2 changes with
        | error e => rfl
        | ok update => rfl

/-- **A cursor** changes nothing of what is prepared but where it goes on. -/
theorem prepare_cursor (paged : command.isPaged = true) (key : AttributeMap) :
    (r.set (.exclusiveStartKey key)).prepare command
      = (r.prepare command).map fun p =>
          { p with parameters := { p.parameters with exclusiveStartKey := key } } := by
  have hoperation (operation : Operation) :
      (r.set (.exclusiveStartKey key)).prepareOperation operation ∅ []
        = (r.prepareOperation operation ∅ []).map fun p =>
            { p with parameters := { p.parameters with exclusiveStartKey := key } } := by
    unfold prepareOperation
    rw [parameters_cursor]
    cases r.parameters operation ∅ [] <;> rfl
  cases command with
  | query => exact hoperation .query
  | scan => exact hoperation .scan
  | get => exact hoperation r.retrieval
  | _ => cases paged

/-- Without a cursor nothing is sent for one. -/
theorem prepare_exclusiveStartKey (paged : command.isPaged = true) (h : r.prepare command = .ok p) :
    p.parameters.exclusiveStartKey = r.options.exclusiveStartKey := by
  -- setting the cursor to what it is changes nothing
  have hsame : r.set (.exclusiveStartKey r.options.exclusiveStartKey) = r := rfl
  have hprepare := prepare_cursor (r := r) paged r.options.exclusiveStartKey
  rw [hsame, h] at hprepare
  exact congrArg (fun p => p.parameters.exclusiveStartKey) (Except.ok.inj hprepare)

theorem prepare_goOn (paged : command.isPaged = true) (h : r.prepare command = .ok p)
    (cursor : Option AttributeMap) :
    (r.goOn cursor).prepare command = .ok { p with parameters := p.parameters.goOn cursor } := by
  cases cursor with
  | none => exact h
  | some key =>
    show (r.set (.exclusiveStartKey key)).prepare command = _
    rw [prepare_cursor paged, h]
    rfl

theorem responseKind?_of_paged (paged : command.isPaged = true) (h : r.prepare command = .ok p) :
    p.responseKind? = some .multipleItems := by
  have hoperation {operation : Operation} (hkind : operation.responseKind? = some .multipleItems)
      (h : r.prepareOperation operation ∅ [] = .ok p) : p.responseKind? = some .multipleItems := by
    obtain ⟨parameters, -, rfl⟩ := map_eq_ok.1 h
    exact hkind
  cases command with
  | query => exact hoperation rfl h
  | scan => exact hoperation rfl h
  | get =>
    refine hoperation ?_ h
    unfold retrieval
    split <;> rfl
  | _ => cases paged

/-! ## Asking for pages -/

/-- Fetches the pages of a command, one after the other. Every page but the first is asked for with
the cursor that came with the page before, and the first page without a cursor is the last. -/
inductive Paged {σ : Type} (r : Request) (client : Client σ) (command : Command) :
    Option AttributeMap → σ → List Page → σ → Prop where
  | last {cursor : Option AttributeMap} {s s' : σ} {page : Page}
      (run : (r.goOn cursor).run client command s = (.ok (.page page), s'))
      (done : page.metadata.lastEvaluatedKey = none) : Paged r client command cursor s [page] s'
  | next {cursor : Option AttributeMap} {key : AttributeMap} {s s' s'' : σ} {page : Page}
      {pages : List Page} (run : (r.goOn cursor).run client command s = (.ok (.page page), s'))
      (more : page.metadata.lastEvaluatedKey = some key)
      (rest : Paged r client command (some key) s' pages s'') :
      Paged r client command cursor s (page :: pages) s''

/-- There is only one way to go through the pages. -/
theorem Paged.unique {σ : Type} {client : Client σ} {cursor : Option AttributeMap} {s t t' : σ}
    {pages pages' : List Page} (h : Paged r client command cursor s pages t)
    (h' : Paged r client command cursor s pages' t') : pages' = pages ∧ t' = t := by
  induction h generalizing pages' t' with
  | last run done =>
    cases h' with
    | last run' done' =>
      -- the same request was run in the same state, so the same page was found
      rw [run] at run'
      cases run'
      exact ⟨rfl, rfl⟩
    | next run' more' rest' =>
      rw [run] at run'
      cases run'
      -- one page cannot be the last and have another one behind it
      rw [done] at more'
      cases more'
  | next run more rest ih =>
    cases h' with
    | last run' done' =>
      rw [run] at run'
      cases run'
      rw [more] at done'
      cases done'
    | next run' more' rest' =>
      rw [run] at run'
      cases run'
      rw [more] at more'
      cases more'
      obtain ⟨rfl, rfl⟩ := ih rest'
      exact ⟨rfl, rfl⟩

/-- **One page** is asked for with one call, which differs from that for the first page in its
cursor alone. -/
theorem run_page (paged : command.isPaged = true) (live : r.options.dryRun = false)
    (sent : r.prepare command = .ok p) {response : Response} {page : Page}
    (h : response.page = .ok page) (cursor : Option AttributeMap) (log : Calls)
    (replies : List Reply) :
    (r.goOn cursor).run Client.scripted.recorded command (log, .ok response :: replies)
      = (.ok (.page page), log ++ [(p.operation, p.parameters.goOn cursor)], replies) := by
  have hlive : (r.goOn cursor).options.dryRun = false := by
    cases cursor <;> exact live
  rw [run_live _ _ (prepare_goOn paged sent cursor) hlive]
  show ((Outcome.ofResponse response p.responseKind?).mapError RequestError.decoding, _) = _
  rw [responseKind?_of_paged paged sent]
  show ((response.page.map Outcome.page).mapError RequestError.decoding, _) = _
  rw [h]
  rfl

/-- The pages of a list of responses are asked for with as many calls. The first goes on after the
cursor that is given, and each of the others after that of the page before. -/
theorem paged_responses (paged : command.isPaged = true) (live : r.options.dryRun = false)
    (sent : r.prepare command = .ok p) {before : List Response} {last : Response}
    (decodable : ∀ response ∈ before ++ [last], ∃ page, response.page = .ok page)
    (more : ∀ response ∈ before, response.HasMore) (done : last.IsLast)
    (replies : List Reply) (cursor : Option AttributeMap) (log : Calls) :
    ∃ pages keys,
      Paged r Client.scripted.recorded command cursor (log, (before ++ [last]).map .ok ++ replies)
          pages (log ++ (cursor :: keys.map some).map fun c => (p.operation, p.parameters.goOn c),
            replies)
        ∧ List.Forall₂ (fun response page => response.page = .ok page) (before ++ [last]) pages
        ∧ List.Forall₂ (fun response key => key.isEmpty = false
            ∧ response.cursor? = some key.toJson.canonical) before keys := by
  induction before generalizing cursor log with
  | nil =>
    obtain ⟨page, hpage⟩ := decodable last (List.mem_singleton_self last)
    exact ⟨[page], [], .last (run_page paged live sent hpage cursor log _)
      (Response.no_cursor_of_page hpage done), .cons hpage .nil, .nil⟩
  | cons response before ih =>
    obtain ⟨⟨page, hpage⟩, hdecodable⟩ := List.forall_mem_cons.1 decodable
    obtain ⟨hmore, hmoreBefore⟩ := List.forall_mem_cons.1 more
    obtain ⟨key, hkey, hpresent, hcursor⟩ := Response.cursor_of_page hpage hmore
    -- the next call finds the call for this page in the log, and goes on after its cursor
    obtain ⟨pages, keys, hpages, hall, hkeys⟩ := ih hdecodable hmoreBefore (some key)
      (log ++ [(p.operation, p.parameters.goOn cursor)])
    rw [List.append_assoc] at hpages
    exact ⟨page :: pages, key :: keys,
      .next (run_page paged live sent hpage cursor log _) hkey hpages, .cons hpage hall,
      .cons ⟨hpresent, hcursor⟩ hkeys⟩

/-- A call for the page after a cursor, given as a generic value: it is the call that was prepared
but for its cursor, and this is what the body says of it. -/
def AsksFor (p : Prepared) (cursor : Option Json) (call : Operation × Wire.Parameters) : Prop :=
  call.1 = p.operation
    ∧ (∃ key, call.2 = { p.parameters with exclusiveStartKey := key })
    ∧ call.2.body.get? "ExclusiveStartKey" = cursor

/-- **Pagination neither loses nor repeats anything.** A live request for a query or a scan, without
a cursor, meets a store that answers with pages; each of them can be decoded, and all but the last
end at a key. There is one way to follow them. It makes one call for each page and leaves later
answers alone. The calls differ in nothing but their cursors: the first body has none, and each of
the others has what the page before said of its end. The items of the pages, one page after the
other, are what the bodies list. -/
theorem pagination_exact {r : Request} {command : Command} {p : Prepared}
    (paged : command.isPaged = true) (live : r.options.dryRun = false)
    (fresh : r.options.exclusiveStartKey.isEmpty = true) (sent : r.prepare command = .ok p)
    {before : List Response} {last : Response}
    (decodable : ∀ response ∈ before ++ [last], ∃ page, response.page = .ok page)
    (more : ∀ response ∈ before, response.HasMore) (done : last.IsLast) (log : Calls)
    (replies : List Reply) :
    ∃ pages calls,
      Paged r Client.scripted.recorded command none (log, (before ++ [last]).map .ok ++ replies)
          pages (log ++ calls, replies)
        ∧ (∀ pages' s', Paged r Client.scripted.recorded command none
            (log, (before ++ [last]).map .ok ++ replies) pages' s' →
              pages' = pages ∧ s' = (log ++ calls, replies))
        ∧ calls.length = (before ++ [last]).length
        ∧ List.Forall₂ (AsksFor p) (none :: before.map Response.cursor?) calls
        ∧ List.Forall₂ Response.Unmarshaled ((before ++ [last]).flatMap Response.itemDocuments)
            (pages.flatMap Page.items) := by
  obtain ⟨pages, keys, hpages, hall, hkeys⟩ :=
    paged_responses paged live sent decodable more done replies none log
  refine ⟨pages, _, hpages, fun pages' s' h => hpages.unique h, ?_, ?_, ?_⟩
  · have hlength := hkeys.length_eq
    simp [hlength]
  · -- the first call asks from the beginning, each later one from the cursor of the page before it
    refine .cons ⟨rfl, ⟨p.parameters.exclusiveStartKey, rfl⟩, ?_⟩ ?_
    · rw [Wire.Parameters.body_exclusiveStartKey]
      show (if p.parameters.exclusiveStartKey.isEmpty then _ else _) = none
      rw [prepare_exclusiveStartKey paged sent, fresh]
      rfl
    · rw [List.map_map, List.forall₂_map_left_iff, List.forall₂_map_right_iff]
      refine hkeys.imp fun response key ⟨hpresent, hcursor⟩ => ⟨rfl, ⟨key, rfl⟩, ?_⟩
      rw [Wire.Parameters.body_exclusiveStartKey, hcursor]
      show (if key.isEmpty then _ else _) = _
      rw [hpresent]
      rfl
  · exact List.rel_flatMap hall fun response page h => Response.items_of_page h

/-- A page that ends at a key with a number and a null that no value has. -/
def firstReplies : Response :=
  { body := .object [
      ("LastEvaluatedKey", .object [
        ("Id", .object [("N", .string "no number")]), ("Gone", .object [("NULL", .bool false)])]),
      ("Items", .array [.object [("Id", .object [("N", .string "1")])]])] }

def lastReplies : Response :=
  { body := .object [
      ("Items", .array [.object [("Id", .object [("N", .string "2")])], .object []]),
      ("LastEvaluatedKey", .null)] }

theorem pagination_exact_replies :
    ∃ p pages calls, (Config.table {} "Reply").prepare .scan = .ok p
      ∧ Paged (Config.table {} "Reply") Client.scripted.recorded .scan none
          ([], [.ok firstReplies, .ok lastReplies]) pages (calls, [])
      ∧ List.Forall₂ (AsksFor p)
          [none, some (.object [
            ("Gone", .object [("NULL", .bool false)]),
            ("Id", .object [("N", .string "no number")])])]
          calls
      ∧ List.Forall₂ Response.Unmarshaled
          [.object [("Id", .object [("N", .string "1")])],
            .object [("Id", .object [("N", .string "2")])], .object []]
          (pages.flatMap Page.items) := by
  have decodable : ∀ response ∈ [firstReplies] ++ [lastReplies], ∃ page, response.page = .ok page :=
    List.forall_mem_cons.2 ⟨⟨_, rfl⟩, List.forall_mem_cons.2 ⟨⟨_, rfl⟩, List.forall_mem_nil _⟩⟩
  have more : ∀ response ∈ [firstReplies], response.HasMore :=
    List.forall_mem_cons.2 ⟨⟨_, _, rfl⟩, List.forall_mem_nil _⟩
  obtain ⟨pages, calls, hpages, -, -, hcalls, hitems⟩ :=
    @pagination_exact (Config.table {} "Reply") .scan _ rfl rfl rfl rfl [firstReplies] lastReplies
      decodable more (.inr (.inl rfl)) [] []
  exact ⟨_, pages, calls, rfl, hpages, hcalls, hitems⟩

end Request

end TableQuery
