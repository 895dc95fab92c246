import TableQuery.Proofs.KeyChecks
import TableQuery.Proofs.Refusal

/-!
# Dry runs

A dry run shows an operation with its parameters, and how a response to it would be decoded. A live
run of the same command sends that operation with these parameters, once, and decodes the response
in that way. Requests are the same here that differ in nothing but whether runs are dry
(`Request.live`): however often and wherever steps turn this on and off, it reaches nothing but the
decision to send.

* **`live_steps`** — the steps that turn dry runs on and off can be left out.
* **`prepare_live`** — a command is prepared alike whether runs are dry or not.
* **`prepare_precedes`** — what is refused in preparing a command is a missing key, a clause without
  an expression, or a key that is not declared.
* **`Response.tells_of_ofResponse`**, **`Response.refuses_of_ofResponse`** — a response is decoded by
  the decoder of its kind.
* **`run_dry`**, **`run_live`** — what one run does with a prepared command.
* **`dry_run_shows_live_run`** — the two runs side by side, for every command and client.
-/

namespace TableQuery

/-! ## Requests but for dry runs -/

/-- The same configuration, without dry runs. -/
def Config.live (c : Config) : Config := { c with dryRun := false }

/-- Turns dry runs on or off. -/
def Step.isDryRun : Step → Bool
  | .set (.dryRun _) => true
  | _ => false

/-- The steps that do something else than turning dry runs on or off. -/
def Step.lasting (steps : List Step) : List Step := steps.filter fun s => !s.isDryRun

namespace Request

/-- The same request, without dry runs. -/
def live (r : Request) : Request := r.set (.dryRun false)

/-- A request on a table without dry runs is that of the configuration without them. -/
theorem live_table (config : Config) (table : String) :
    (config.table table).live = config.live.table table := rfl

/-- Turning dry runs on or off leaves the request as it is, but for dry runs. -/
theorem live_step_of_isDryRun (r : Request) {s : Step} (h : s.isDryRun = true) :
    (r.step s).map live = .ok r.live := by
  cases s with
  | set setting =>
    cases setting with
    | dryRun dry => rfl
    | _ => cases h
  | add slot calls => cases h
  | addNamed name arguments => cases h

/-- Every other step does the same to a request without dry runs. -/
theorem live_step (r : Request) {s : Step} (h : s.isDryRun = false) :
    (r.step s).map live = r.live.step s := by
  cases s with
  | set setting =>
    cases setting with
    | dryRun dry => cases h
    | _ => rfl
  | add slot calls => rfl
  | addNamed name arguments =>
    show (r.addNamed name arguments).map live = r.live.addNamed name arguments
    unfold addNamed
    cases Shorthand.named name with
    | error e => rfl
    | ok shorthand =>
      show (shorthand.call arguments >>= _).map live = (shorthand.call arguments >>= _)
      cases shorthand.call arguments <;> rfl

/-- **A run of steps** comes to the same, but for dry runs, without the steps that turn them on and
off. -/
theorem live_steps (r : Request) (steps : List Step) :
    (r.steps steps).map live = r.live.steps (Step.lasting steps) := by
  induction steps generalizing r with
  | nil => rfl
  | cons s rest ih =>
    -- a step that fails ends both runs
    have hbind (x : Except RequestError Request) :
        (x >>= fun r₁ => r₁.steps rest).map live
          = (x.map live >>= fun r₁ => r₁.steps (Step.lasting rest)) := by
      cases x with
      | error e => rfl
      | ok r₁ => exact ih r₁
    show (r.step s >>= fun r₁ => r₁.steps rest).map live = _
    rw [hbind]
    cases h : s.isDryRun with
    | true =>
      have hlasting : Step.lasting (s :: rest) = Step.lasting rest := by simp [Step.lasting, h]
      rw [live_step_of_isDryRun r h, hlasting]
      rfl
    | false =>
      have hlasting : Step.lasting (s :: rest) = s :: Step.lasting rest := by
        simp [Step.lasting, h]
      rw [live_step r h, hlasting]
      rfl

/-- **A command is prepared alike** whether runs are dry or not. -/
theorem prepare_live (r : Request) (command : Command) :
    r.live.prepare command = r.prepare command := by
  rw [prepare_checked, prepare_checked]
  cases command with
  | getItem key => cases key <;> rfl
  | _ => rfl

end Request

/-! ## What is refused -/

/-- Errors of this kind are raised before anything is sent. -/
def RequestError.precedesSending : RequestError → Bool
  | .missingKey _ => true
  | .unsupportedPredicate .. => true
  | .danglingPlaceholder _ => true
  | _ => false

section

variable {t : Placeholders}

/-- A name key that is not declared is found before anything is sent. -/
theorem Placeholders.undeclaredName_precedes {key : String} :
    ∀ e ∈ t.undeclaredName key, e.precedesSending = true := by
  unfold undeclaredName
  split <;> simp [RequestError.precedesSending]

/-- A value key that is not declared is found before anything is sent. -/
theorem Placeholders.undeclaredValue_precedes {key : String} :
    ∀ e ∈ t.undeclaredValue key, e.precedesSending = true := by
  unfold undeclaredValue
  split <;> simp [RequestError.precedesSending]

mutual

/-- The offences of a predicate are found before anything is sent. -/
theorem Predicate.offences_precede : ∀ p : KeyedPredicate,
    ∀ e ∈ p.offences t, e.precedesSending = true
  | .basic .. => List.forall_mem_append.2
    ⟨Placeholders.undeclaredName_precedes, Placeholders.undeclaredValue_precedes⟩
  | .function _ _ (some _) _ => List.forall_mem_append.2
    ⟨Placeholders.undeclaredName_precedes, Placeholders.undeclaredValue_precedes⟩
  | .function f _ none _ => by
    refine List.forall_mem_append.2 ⟨Placeholders.undeclaredName_precedes, ?_⟩
    split <;> simp [RequestError.precedesSending]
  | .between .. => List.forall_mem_append.2 ⟨Placeholders.undeclaredName_precedes,
      List.forall_mem_append.2
        ⟨Placeholders.undeclaredValue_precedes, Placeholders.undeclaredValue_precedes⟩⟩
  | .membership _ values _ => by
    rw [Predicate.offences]
    split
    · simp [RequestError.precedesSending]
    · refine List.forall_mem_append.2 ⟨fun e he => ?_, Placeholders.undeclaredName_precedes⟩
      obtain ⟨v, -, hv⟩ := List.mem_flatMap.1 he
      exact Placeholders.undeclaredValue_precedes e hv
  | .nested clauses => Clause.offencesAll_precede clauses
  | .unsupported .. => by simp [Predicate.offences, RequestError.precedesSending]

/-- The offences of clauses are found before anything is sent. -/
theorem Clause.offencesAll_precede : ∀ cs : List KeyedClause,
    ∀ e ∈ Clause.offencesAll t cs, e.precedesSending = true
  | [] => nofun
  | (_, p) :: rest =>
    List.forall_mem_append.2 ⟨p.offences_precede, Clause.offencesAll_precede rest⟩

end

/-- The offences of changes are keys that are not declared. -/
theorem Update.offencesAll_precede (changes : List KeyedChange) :
    ∀ e ∈ Update.offencesAll t changes, e.precedesSending = true := by
  intro e he
  obtain ⟨c, -, hc⟩ := List.mem_flatMap.1 he
  rw [Change.offences, List.mem_append] at hc
  -- the column or the value
  rcases hc with hname | hvalue
  · exact Placeholders.undeclaredName_precedes e hname
  · cases hv : c.value? with
    | none =>
      rw [hv] at hvalue
      cases hvalue
    | some v =>
      rw [hv] at hvalue
      exact Placeholders.undeclaredValue_precedes e hvalue

end

namespace Request

variable {r : Request} {e : RequestError}

/-- What compiling reports is found before anything is sent. -/
theorem compile_precedes {operation : Operation} {item : Item} {updates : List Update.Call}
    (h : r.compile operation item updates = .error e) : e.precedesSending = true := by
  obtain ⟨p, hp⟩ := r.compile_eq operation item updates
  rw [hp, report_eq_error] at h
  have hmem := List.mem_of_head? h
  rw [offences, List.mem_append, List.mem_flatMap] at hmem
  rcases hmem with ⟨slot, -, hslot⟩ | hchange
  · exact Clause.offencesAll_precede _ e hslot
  · exact Update.offencesAll_precede _ e hchange

/-- Missing key columns are found before anything is sent. -/
theorem uncovered_precedes {item : Item} (h : r.Uncovered item e) : e.precedesSending = true := by
  obtain ⟨schema, -, -, rfl⟩ := h
  rfl

/-- A key that identifies nothing is found before anything is sent. -/
theorem Unidentified.precedes {operation : Operation} {key : Item}
    (h : r.Unidentified operation key e) : e.precedesSending = true := by
  cases h with
  | empty => rfl
  | incomplete _ uncovered => exact uncovered_precedes uncovered

/-- A write of a batch that addresses nothing is found before anything is sent. -/
theorem inadmissible_precedes {request : BatchWrite} (h : r.Inadmissible request e) :
    e.precedesSending = true := by
  cases request with
  | put item => exact uncovered_precedes h
  | delete key => exact Unidentified.precedes h

/-- Whatever a command is refused for is found before anything is sent. -/
theorem Refused.precedes {command : Command} (h : r.Refused command e) :
    e.precedesSending = true := by
  cases h with
  | getItem h => exact h.precedes
  | putItem h => exact uncovered_precedes h
  | deleteItem h => exact h.precedes
  | updateItem h => exact h.precedes
  | increment h => exact h.precedes
  | decrement h => exact h.precedes
  | batchKey _ _ h => exact h.precedes
  | batchRequest _ _ h => exact inadmissible_precedes h
  | _ => rfl

/-- **What is refused** in preparing a command is a missing key, a clause without an expression, or
a key that is not declared. -/
theorem prepare_precedes {command : Command} (h : r.prepare command = .error e) :
    e.precedesSending = true := by
  rw [prepare_checked] at h
  rcases bind_eq_error.1 h with hcheck | ⟨_, -, h⟩
  · exact (check_eq_error.1 hcheck).precedes
  · -- a batch is assembled whatever it is
    cases command with
    | batchGetItem keys => cases h
    | batchWriteItem requests => cases h
    | _ => exact compile_precedes (map_eq_error.1 h)

end Request

/-! ## What a response tells

The outcome is told by the kind of the response, each kind by its own decoder, and not by the
function that chooses among them. -/

/-- What a response of some kind is decoded as. -/
inductive Response.Tells (response : Response) : ResponseKind → Outcome → Prop where
  | singleItem {result : SingleItem} (h : response.singleItem = .ok result) :
    Tells response .singleItem (.singleItem result)
  | multipleItems {result : Page} (h : response.page = .ok result) :
    Tells response .multipleItems (.page result)
  | batchGetItems {result : BatchItems} (h : response.batchItems = .ok result) :
    Tells response .batchGetItems (.batchItems result)
  | batchWriteItems {result : BatchRemainder} (h : response.batchRemainder = .ok result) :
    Tells response .batchWriteItems (.batchRemainder result)

/-- Why a response of some kind cannot be decoded. -/
inductive Response.Refuses (response : Response) : ResponseKind → DecodingError → Prop where
  | singleItem {e : DecodingError} (h : response.singleItem = .error e) :
    Refuses response .singleItem e
  | multipleItems {e : DecodingError} (h : response.page = .error e) :
    Refuses response .multipleItems e
  | batchGetItems {e : DecodingError} (h : response.batchItems = .error e) :
    Refuses response .batchGetItems e
  | batchWriteItems {e : DecodingError} (h : response.batchRemainder = .error e) :
    Refuses response .batchWriteItems e

/-- The outcome that is chosen for a kind is the one that its decoder tells. -/
theorem Response.tells_of_ofResponse {response : Response} {kind : ResponseKind} {outcome : Outcome}
    (h : Outcome.ofResponse response (some kind) = .ok outcome) : response.Tells kind outcome := by
  cases kind with
  | singleItem =>
    obtain ⟨result, hresult, rfl⟩ := map_eq_ok.1 h
    exact .singleItem hresult
  | multipleItems =>
    obtain ⟨result, hresult, rfl⟩ := map_eq_ok.1 h
    exact .multipleItems hresult
  | batchGetItems =>
    obtain ⟨result, hresult, rfl⟩ := map_eq_ok.1 h
    exact .batchGetItems hresult
  | batchWriteItems =>
    obtain ⟨result, hresult, rfl⟩ := map_eq_ok.1 h
    exact .batchWriteItems hresult

/-- An error that is passed on for a kind is the one of its decoder. -/
theorem Response.refuses_of_ofResponse {response : Response} {kind : ResponseKind}
    {e : DecodingError} (h : Outcome.ofResponse response (some kind) = .error e) :
    response.Refuses kind e := by
  cases kind with
  | singleItem => exact .singleItem (map_eq_error.1 h)
  | multipleItems => exact .multipleItems (map_eq_error.1 h)
  | batchGetItems => exact .batchGetItems (map_eq_error.1 h)
  | batchWriteItems => exact .batchWriteItems (map_eq_error.1 h)

/-! ## One run -/

/-- What becomes of the answer of the store. An error of the store is passed on, and a response is
returned as it is or, where its kind is decoded, as what the decoder of that kind tells. -/
inductive Prepared.Answered (p : Prepared) : Reply → Except RequestError Outcome → Prop where
  | failed (e : StoreError) : Answered p (.error e) (.error (.store e))
  | undecoded (response : Response) (h : p.responseKind? = none) :
    Answered p (.ok response) (.ok (.undecoded response))
  | decoded {response : Response} {kind : ResponseKind} {outcome : Outcome}
      (h : p.responseKind? = some kind) (told : response.Tells kind outcome) :
    Answered p (.ok response) (.ok outcome)
  | undecodable {response : Response} {kind : ResponseKind} {e : DecodingError}
      (h : p.responseKind? = some kind) (refused : response.Refuses kind e) :
    Answered p (.ok response) (.error (.decoding e))

/-- The calls that a client has got, the last one at the end. -/
abbrev Calls := List (Operation × Wire.Parameters)

section

variable {σ : Type} (client : Client σ) (log : Calls) (s : σ)

/-- The client gets the operation with its parameters, once. -/
theorem Prepared.perform_recorded (p : Prepared) :
    ∃ answer, p.Answered (client p.operation p.parameters s).1 answer
      ∧ p.perform client.recorded (log, s)
        = (answer, log ++ [(p.operation, p.parameters)],
            (client p.operation p.parameters s).2) := by
  have hcall : client.recorded p.operation p.parameters (log, s)
      = ((client p.operation p.parameters s).1, log ++ [(p.operation, p.parameters)],
          (client p.operation p.parameters s).2) := rfl
  rw [perform, hcall]
  cases (client p.operation p.parameters s).1 with
  | error e => exact ⟨_, .failed e, rfl⟩
  | ok response =>
    cases hkind : p.responseKind? with
    | none => exact ⟨_, .undecoded response hkind, rfl⟩
    | some kind =>
      cases htold : Outcome.ofResponse response (some kind) with
      | error e =>
        have hrefused := Response.refuses_of_ofResponse htold
        exact ⟨_, .undecodable hkind hrefused, by dsimp only; rw [htold]; rfl⟩
      | ok outcome =>
        have htells := Response.tells_of_ofResponse htold
        exact ⟨_, .decoded hkind htells, by dsimp only; rw [htold]; rfl⟩

namespace Request

/-- What is refused in preparing a command reaches no client. -/
theorem run_refused {r : Request} {command : Command} {e : RequestError}
    (h : r.prepare command = .error e) : r.run client command s = (.error e, s) := by
  rw [run, h]

/-- **A dry run** reaches no client either. -/
theorem run_dry {r : Request} {command : Command} {p : Prepared} (h : r.prepare command = .ok p)
    (dry : r.options.dryRun = true) : r.run client command s = (.ok (.preview p), s) := by
  rw [run, h]
  exact if_pos dry

/-- **A live run** sends what was prepared. -/
theorem run_live {r : Request} {command : Command} {p : Prepared} (h : r.prepare command = .ok p)
    (live : r.options.dryRun = false) : r.run client command s = p.perform client s := by
  rw [run, h]
  exact if_neg (by rw [live]; decide)

/-! ## Two runs side by side -/

/-- A dry run and a live run of the same command: they are refused alike, or the one shows what the
other sends. Beside its outcome each run has the calls of the client after it, and the state that
the client is in then. -/
inductive Shown : Except RequestError Outcome × Calls × σ →
    Except RequestError Outcome × Calls × σ → Prop where
  | refused {e : RequestError} (h : e.precedesSending = true) :
    Shown (.error e, log, s) (.error e, log, s)
  | sent {p : Prepared} {answer : Except RequestError Outcome}
      (answered : p.Answered (client p.operation p.parameters s).1 answer) :
    Shown (.ok (.preview p), log, s)
      (answer, log ++ [(p.operation, p.parameters)], (client p.operation p.parameters s).2)

/-- Counting the items that a command finds: the client is called once if the command can be
prepared, and not at all if it cannot. What is counted is the page that the response holds. -/
inductive Counted (r : Request) (command : Command) :
    Except RequestError Nat × Calls × σ → Prop where
  | refused {e : RequestError} (h : r.prepare command = .error e) :
    Counted r command (.error e, log, s)
  | failed {p : Prepared} {e : StoreError} (h : r.prepare command = .ok p)
      (reply : (client p.operation p.parameters s).1 = .error e) :
    Counted r command (.error (.store e), log ++ [(p.operation, p.parameters)],
      (client p.operation p.parameters s).2)
  | undecodable {p : Prepared} {response : Response} {e : DecodingError}
      (h : r.prepare command = .ok p)
      (reply : (client p.operation p.parameters s).1 = .ok response)
      (refused : response.page = .error e) :
    Counted r command (.error (.decoding e), log ++ [(p.operation, p.parameters)],
      (client p.operation p.parameters s).2)
  | counted {p : Prepared} {response : Response} {page : Page} (h : r.prepare command = .ok p)
      (reply : (client p.operation p.parameters s).1 = .ok response)
      (told : response.page = .ok page) :
    Counted r command (.ok page.itemCount, log ++ [(p.operation, p.parameters)],
      (client p.operation p.parameters s).2)

/-- Two requests that differ in nothing but dry runs: what the dry one shows is what the other
sends. -/
theorem shown_of_live_eq {r r' : Request} (same : r.live = r'.live) (dry : r.options.dryRun = true)
    (live : r'.options.dryRun = false) (command : Command) :
    Shown client log s (r.run client.recorded command (log, s))
      (r'.run client.recorded command (log, s)) := by
  -- preparing looks at no more than the live requests, which are the same
  have hprepare : r'.prepare command = r.prepare command := by
    rw [← prepare_live r', ← same, prepare_live r]
  cases h : r.prepare command with
  | error e =>
    rw [run_refused _ _ h, run_refused _ _ (hprepare.trans h)]
    exact .refused (prepare_precedes h)
  | ok p =>
    obtain ⟨answer, answered, hperform⟩ := p.perform_recorded client log s
    rw [run_dry _ _ h dry, run_live _ _ (hprepare.trans h) live, hperform]
    exact .sent answered

/-- A response to a query or a scan is decoded as a page. -/
theorem responseKind_of_paged {r : Request} {command : Command} {p : Prepared}
    (paged : command = .query ∨ command = .scan) (h : r.prepare command = .ok p) :
    p.responseKind? = some .multipleItems := by
  rcases paged with rfl | rfl
  · obtain ⟨parameters, -, rfl⟩ := map_eq_ok.1 h
    rfl
  · obtain ⟨parameters, -, rfl⟩ := map_eq_ok.1 h
    rfl

/-- Counting is live, whether runs are dry or not. -/
theorem countItems_of_prepared {r : Request} {command : Command} {p : Prepared}
    (h : r.prepare command = .ok p) :
    r.countItems client command s
      = ((p.perform client s).1.map fun o => (o.page?.map Page.itemCount).getD 0,
          (p.perform client s).2) := by
  have hrun := run_live client s ((prepare_live r command).trans h) rfl
  unfold countItems
  rw [show r.set (.dryRun false) = r.live from rfl, hrun]

/-- **Counting** is one live run, whose response is decoded as a page. -/
theorem counted_of_paged (r : Request) {command : Command}
    (paged : command = .query ∨ command = .scan) :
    Counted client log s r command (r.countItems client.recorded command (log, s)) := by
  cases h : r.prepare command with
  | error e =>
    have hrun := run_refused client.recorded (log, s) ((prepare_live r command).trans h)
    have hcount : r.countItems client.recorded command (log, s) = (.error e, log, s) := by
      unfold countItems
      rw [show r.set (.dryRun false) = r.live from rfl, hrun]
      rfl
    rw [hcount]
    exact .refused h
  | ok p =>
    have hkind := responseKind_of_paged paged h
    obtain ⟨answer, answered, hperform⟩ := p.perform_recorded client log s
    rw [countItems_of_prepared client.recorded (log, s) h, hperform]
    generalize hreply : (client p.operation p.parameters s).1 = reply at answered
    cases answered with
    | failed e => exact .failed h hreply
    | undecoded response hnone =>
      -- pages are decoded
      rw [hkind] at hnone
      cases hnone
    | decoded hsome told =>
      rw [hkind] at hsome
      cases hsome
      cases told with
      | multipleItems hpage => exact .counted h hreply hpage
    | undecodable hsome refused =>
      rw [hkind] at hsome
      cases hsome
      cases refused with
      | multipleItems hpage => exact .undecodable h hreply hpage

end Request

end

namespace Request

/-- **A dry run shows what a live run sends.** Two requests that were built by the same steps, but
for those that turn dry runs on and off, are the same but for dry runs. Whatever the command and the
client, what is refused is refused by both runs with the same error and without a call. Otherwise
the dry run shows, without a call, the one call that the live run makes, and the live run passes on
an error of the store and decodes a response as the preview says. Counting makes one call whenever
the command can be prepared, dry or not. -/
theorem dry_run_shows_live_run {config config' : Config} {steps steps' : List Step}
    (sameConfig : config.live = config'.live) (sameSteps : Step.lasting steps = Step.lasting steps')
    (table : String) :
    ((config.table table).steps steps).map live = ((config'.table table).steps steps').map live
      ∧ (∀ r r', (config.table table).steps steps = .ok r →
          (config'.table table).steps steps' = .ok r' →
          r.options.dryRun = true → r'.options.dryRun = false →
          ∀ (σ : Type) (client : Client σ) (log : Calls) (s : σ) (command : Command),
            Shown client log s (r.run client.recorded command (log, s))
              (r'.run client.recorded command (log, s)))
      ∧ ∀ (r : Request) (σ : Type) (client : Client σ) (log : Calls) (s : σ),
          Counted client log s r .query (r.countQueried client.recorded (log, s))
            ∧ Counted client log s r .scan (r.countScanned client.recorded (log, s)) := by
  have same : ((config.table table).steps steps).map live
      = ((config'.table table).steps steps').map live := by
    rw [live_steps, live_steps, live_table, live_table, sameConfig, sameSteps]
  refine ⟨same, fun r r' made made' dry hlive σ client log s command => ?_,
    fun r σ client log s => ⟨?_, ?_⟩⟩
  · rw [made, made'] at same
    exact shown_of_live_eq client log s (Except.ok.inj same) dry hlive command
  · exact counted_of_paged client log s r (.inl rfl)
  · exact counted_of_paged client log s r (.inr rfl)

/-- A request that is looked up by its key. -/
def replySteps : List Step :=
  [.set (.withKeys { partition := "Id", sort := none }),
    .add .keyCondition [.compare .and "Id" (.equals (.string "S3#1"))],
    .addNamed "orFilterBetween" (.range "Views" (.number "1") (.number "10"))]

/-- A store that is busy at first, and then finds one item of which it gives no account. -/
def busyAtFirst : List Reply :=
  [.error (.ofCode .throttling),
    .ok { body := .object [("Items", .array [.object [("Id", .object [("S", .string "S3#1")])]])] }]

/-- The page that the second response holds. -/
def foundPage : Page := ⟨[⟨[("Id", .string "S3#1")]⟩], { status := 200 }⟩

/-- The store is busy in the first run and finds an item in the second, and the dry run shows the
same query both times. The item is counted although the response gives no account of it. -/
theorem dry_run_shows_live_run_throttled :
    ∃ r r', (Config.table { dryRun := true } "Reply").steps replySteps = .ok r
      ∧ (Config.table {} "Reply").steps
          (.set (.dryRun true) :: replySteps ++ [.set (.dryRun false)]) = .ok r'
      ∧ Shown Client.scripted [] busyAtFirst
        (r.run Client.scripted.recorded .get ([], busyAtFirst))
        (r'.run Client.scripted.recorded .get ([], busyAtFirst))
      ∧ (r.run Client.scripted.recorded .get ([], busyAtFirst)).2 = ([], busyAtFirst)
      ∧ (r'.run Client.scripted.recorded .get ([], busyAtFirst)).1
        = .error (.store (.ofCode .throttling))
      ∧ (r'.run Client.scripted.recorded .get ([], busyAtFirst)).2.1.map (·.1) = [.query]
      ∧ Shown Client.scripted [] busyAtFirst.tail
        (r.run Client.scripted.recorded .get ([], busyAtFirst.tail))
        (r'.run Client.scripted.recorded .get ([], busyAtFirst.tail))
      ∧ (r'.run Client.scripted.recorded .get ([], busyAtFirst.tail)).1 = .ok (.page foundPage)
      ∧ (r.countQueried Client.scripted.recorded ([], busyAtFirst.tail)).1 = .ok 1
      ∧ Counted Client.scripted [] busyAtFirst.tail r .query
        (r.countQueried Client.scripted.recorded ([], busyAtFirst.tail)) := by
  have made : (Config.table { dryRun := true } "Reply").steps replySteps = .ok _ := rfl
  have made' : (Config.table {} "Reply").steps
      (.set (.dryRun true) :: replySteps ++ [.set (.dryRun false)]) = .ok _ := rfl
  obtain ⟨-, shown, counted⟩ := @dry_run_shows_live_run { dryRun := true } {} replySteps
    (.set (.dryRun true) :: replySteps ++ [.set (.dryRun false)]) rfl rfl "Reply"
  have both := fun replies : List Reply =>
    shown _ _ made made' rfl rfl (List Reply) Client.scripted [] replies .get
  exact ⟨_, _, made, made', both busyAtFirst, rfl, rfl, rfl, both busyAtFirst.tail, rfl, rfl,
    (counted _ _ Client.scripted [] busyAtFirst.tail).1⟩

end Request

end TableQuery
