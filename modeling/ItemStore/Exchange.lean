import ItemStore.Request

/-!
# Exchanges with the store

An exchange sends requests and takes the responses.  It is a function of the list of
responses that the store will give, one for each request; when the list runs out, the
responses are empty.  A read in pages goes on while a page names the place where the
next one starts, and stops at the first failure.

## Main definitions

* `Answer`, `Response` — what the store sends back.
* `Failure` — why an exchange has no result.
* `Exchange` — the requests that were sent and the result.
* `Exchange.single` — one request.
* `Paging`, `Paging.run` — requests page by page.
-/

namespace ItemStore

/-- What the store answers. -/
structure Answer where
  /-- The item that was read. -/
  item : Option Item := none
  /-- The items of a page. -/
  items : Option (List Item) := none
  /-- The attributes of an updated item. -/
  attributes : Option Item := none
  /-- The key after which the next page starts. -/
  lastKey : Option Item := none
  /-- The names of a page of tables. -/
  tables : Option (List String) := none
  /-- The table after which the next page starts. -/
  lastTable : Option String := none
  deriving Inhabited

/-- What the store sends back. -/
inductive Response
  | answer (a : Answer)
  /-- A refusal, with its code. -/
  | refusal (code : String)
  /-- Nothing: the connection failed. -/
  | lost

/-- Why an exchange has no result. -/
inductive Failure
  /-- A mistake of the caller, or an answer that cannot be read. -/
  | caller (error : Error)
  /-- A refusal, with its code. -/
  | refused (code : String)
  /-- The connection failed. -/
  | lost

/-- The requests that were sent, and the result. -/
structure Exchange (α : Type) where
  requests : List Request
  result : Except Failure α

namespace Exchange

variable {α β : Type}

/-- An exchange that fails before anything is sent. -/
def unsent (e : Error) : Exchange α := ⟨[], .error (.caller e)⟩

/-- Read the answer in a response. -/
def readAnswer (read : Answer → Except Error α) : Response → Except Failure α
  | .answer a => (read a).mapError .caller
  | .refusal code => .error (.refused code)
  | .lost => .error .lost

/-- The response to the first request. -/
def firstResponse (responses : List Response) : Response := responses.head?.getD (.answer {})

/-- One request, unless it could not be built. -/
def single (request : Except Error Request) (read : Response → Except Failure α)
    (responses : List Response) : Exchange α :=
  match request with
  | .error e => unsent e
  | .ok r => ⟨[r], read (firstResponse responses)⟩

end Exchange

/-- A read in pages: each page holds some results and may name a place to go on from. -/
structure Paging (τ α : Type) where
  /-- The request of the page that starts at a place. -/
  request : Option τ → Request
  /-- The results of a page. -/
  results : Answer → Except Error (List α)
  /-- The place from which to go on. -/
  next : Answer → Option τ
  /-- Whether two places are the same. -/
  samePlace : τ → τ → Bool

namespace Paging

variable {τ α : Type}

/-- The place from which to go on after a page.  A page that names its own start is the
last one. -/
def onward (p : Paging τ α) (start : Option τ) (a : Answer) : Option τ :=
  match p.next a with
  | none => none
  | some place => if start.any (p.samePlace place) then none else some place

/-- The pages from a place on. -/
def run (p : Paging τ α) (start : Option τ) : List Response → Exchange (List α)
  | [] => ⟨[p.request start], (p.results {}).mapError .caller⟩
  | response :: responses =>
    match Exchange.readAnswer p.results response with
    | .error failure => ⟨[p.request start], .error failure⟩
    | .ok results =>
      let onward :=
        match response with
        | .answer a => p.onward start a
        | _ => none
      match onward with
      | none => ⟨[p.request start], .ok results⟩
      | some place =>
        let rest := run p (some place) responses
        ⟨p.request start :: rest.requests, rest.result.map (results ++ ·)⟩

end Paging

end ItemStore
