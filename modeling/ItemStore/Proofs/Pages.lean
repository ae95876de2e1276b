import ItemStore.Exchange.Read
import ItemStore.Proofs.Attributes

/-!
# Reading in pages

The store answers page by page.  Each answer may give a token, and the request for the next
page differs from the one before in the token only.  A read goes through the pages in order
and puts together what is on them; at the first page that cannot be read it stops, and what
was read until then is dropped.

## Main definitions

* `Layout` — where an answer has the items of a page and the token of the next one.
* `Layout.Pages` — the pages that the store offers.
* `Layout.Holds`, `Layout.Fails` — what is read from a page, and why one cannot be read.
* `Layout.Outcome` — which pages are asked for and what comes of them.

## Main results

* `Paging.Follows.run_of_pages` — a run has the outcome of its pages.
* `Exchange.reads_pages` — so have the reads of items and the list of tables.
-/

namespace ItemStore

/-- A page: the token it was asked for with, and the response. -/
structure Page (τ : Type) where
  /-- The token; the first page has none. -/
  start : Option τ
  response : Response

/-- Where an answer has the items of a page and the token of the next one. -/
structure Layout (τ β : Type) where
  /-- The items, which may be left out. -/
  items : Answer → Option (List β)
  token : Answer → Option τ
  /-- The token that asks for nothing. -/
  empty : τ
  /-- Whether two tokens ask for the same. -/
  same : τ → τ → Bool

namespace Layout

variable {τ α β : Type} (l : Layout τ β) (read : β → Except Error α)

/-- Pages of items, with keys as tokens. -/
def ofItems : Layout Item Item := ⟨Answer.items, Answer.lastKey, [], Item.same⟩

/-- Pages of tables, with names as tokens. -/
def ofTables : Layout String String := ⟨Answer.tables, Answer.lastTable, "", (· == ·)⟩

/-! ### The pages of a read -/

/-- An answer gives a token to go on with: it is not the empty one and not the one that was
sent. -/
def GoesOn (start : Option τ) (a : Answer) (token : τ) : Prop :=
  l.token a = some token ∧ token ≠ l.empty ∧ ∀ sent, start = some sent → l.same token sent = false

/-- The pages that the store offers from a token on. -/
inductive Pages : Option τ → List Response → List (Page τ) → Prop
  /-- After a response that is no answer there is no page. -/
  | failed {start : Option τ} {response : Response} {responses : List Response} :
    (∀ a, response ≠ .answer a) → Pages start (response :: responses) [⟨start, response⟩]
  | last {start : Option τ} {a : Answer} {responses : List Response} :
    (∀ token, ¬l.GoesOn start a token) → Pages start (.answer a :: responses) [⟨start, .answer a⟩]
  /-- The next page is asked for with the token of the one before. -/
  | turn {start : Option τ} {a : Answer} {token : τ} {responses : List Response}
    {pages : List (Page τ)} :
    l.GoesOn start a token → Pages (some token) responses pages →
      Pages start (.answer a :: responses) (⟨start, .answer a⟩ :: pages)
  /-- When the responses have run out, an empty page is left. -/
  | exhausted {start : Option τ} : Pages start [] [⟨start, .answer {}⟩]

/-- Every sequence of responses makes pages. -/
theorem exists_pages (start : Option τ) (responses : List Response) :
    ∃ pages, l.Pages start responses pages := by
  induction responses generalizing start with
  | nil => exact ⟨_, .exhausted⟩
  | cons response responses ih =>
    cases response with
    | answer a =>
      by_cases htoken : ∃ token, l.GoesOn start a token
      · obtain ⟨token, hgoes⟩ := htoken
        obtain ⟨pages, hpages⟩ := ih (some token)
        exact ⟨_, .turn hgoes hpages⟩
      · exact ⟨_, .last (not_exists.mp htoken)⟩
    | refusal code => exact ⟨_, .failed nofun⟩
    | lost => exact ⟨_, .failed nofun⟩

/-! ### What comes of the pages -/

/-- What is read from a page, item by item; items that are left out are none. -/
inductive Holds : Page τ → List α → Prop
  | answer {start : Option τ} {a : Answer} {xs : List α} :
    List.Forall₂ (fun b x => read b = .ok x) ((l.items a).getD []) xs →
      Holds ⟨start, .answer a⟩ xs

/-- Why a page cannot be read. -/
inductive Fails : Page τ → Failure → Prop
  | refused {start : Option τ} {code : String} : Fails ⟨start, .refusal code⟩ (.refused code)
  | lost {start : Option τ} : Fails ⟨start, .lost⟩ .lost
  /-- The first item that cannot be read decides. -/
  | unreadable {start : Option τ} {a : Answer} {before after : List β} {b : β} {xs : List α}
    {e : Error} :
    (l.items a).getD [] = before ++ b :: after →
      List.Forall₂ (fun b x => read b = .ok x) before xs → read b = .error e →
      Fails ⟨start, .answer a⟩ (.caller e)

/-- Which of the offered pages are asked for, and what comes of them. -/
inductive Outcome : List (Page τ) → List (Page τ) → Except Failure (List α) → Prop
  /-- If every page can be read, all are asked for and put together in order. -/
  | complete {pages : List (Page τ)} {xss : List (List α)} :
    List.Forall₂ (l.Holds read) pages xss → Outcome pages pages (.ok xss.flatten)
  /-- The first page that cannot be read is the last one that is asked for. -/
  | broken {before after : List (Page τ)} {page : Page τ} {xss : List (List α)}
    {failure : Failure} :
    List.Forall₂ (l.Holds read) before xss → l.Fails read page failure →
      Outcome (before ++ page :: after) (before ++ [page]) (.error failure)

/-- An exchange asks for pages with the requests of their tokens, as far as they can be read,
and results in what is on them. -/
def Reads (request : Option τ → Request) (responses : List Response) (x : Exchange (List α)) :
    Prop :=
  (∃ pages, l.Pages none responses pages) ∧
    ∀ pages, l.Pages none responses pages →
      ∃ asked, l.Outcome read pages asked x.result ∧
        x.requests = asked.map fun page => request page.start

variable {l read}

theorem Outcome.single {page : Page τ} {xs : List α} (h : l.Holds read page xs) :
    l.Outcome read [page] [page] (.ok xs) := by
  have houtcome := Outcome.complete (.cons h .nil)
  rwa [List.flatten_cons, List.flatten_nil, List.append_nil] at houtcome

/-- A page that can be read before the others. -/
theorem Outcome.cons {page : Page τ} {xs : List α} (h : l.Holds read page xs)
    {pages asked : List (Page τ)} {result : Except Failure (List α)}
    (houtcome : l.Outcome read pages asked result) :
    l.Outcome read (page :: pages) (page :: asked) (result.map (xs ++ ·)) := by
  cases houtcome with
  | complete hpages => exact .complete (.cons h hpages)
  | broken hbefore hfails => exact .broken (.cons h hbefore) hfails

end Layout

/-! ### Runs -/

namespace Paging

variable {τ α β : Type}

/-- A read in pages goes by a layout and reads each item on its own. -/
structure Follows (p : Paging τ α) (l : Layout τ β) (read : β → Except Error α) : Prop where
  results : ∀ a, p.results a = ((l.items a).getD []).mapM read
  next : ∀ a token, p.next a = some token ↔ l.token a = some token ∧ token ≠ l.empty
  samePlace : p.samePlace = l.same

variable {p : Paging τ α} {l : Layout τ β} {read : β → Except Error α}

theorem Follows.onward_eq_some (h : p.Follows l read) {start : Option τ} {a : Answer} {token : τ} :
    p.onward start a = some token ↔ l.GoesOn start a token := by
  rw [Layout.GoesOn, ← and_assoc, ← h.next, ← h.samePlace]
  unfold onward
  cases p.next a with
  | none => simp
  | some place =>
    cases start with
    | none => simp
    | some sent =>
      cases hsame : p.samePlace place sent with
      | true =>
        simp only [Option.any_some, hsame, if_true, reduceCtorEq, Option.some.injEq, false_iff]
        rintro ⟨rfl, hnot⟩
        rw [hnot sent rfl] at hsame
        cases hsame
      | false =>
        simp only [Option.any_some, hsame, Bool.false_eq_true, if_false, Option.some.injEq]
        constructor
        · rintro rfl
          exact ⟨rfl, fun _ hsent => hsent ▸ hsame⟩
        · exact And.left

/-- Of a page, either every item is read or there is a reason why not. -/
theorem Follows.holds_or_fails (h : p.Follows l read) (start : Option τ) (response : Response) :
    (∃ xs, Exchange.readAnswer p.results response = .ok xs ∧ l.Holds read ⟨start, response⟩ xs) ∨
      ∃ failure, Exchange.readAnswer p.results response = .error failure ∧
        l.Fails read ⟨start, response⟩ failure := by
  cases response with
  | answer a =>
    rw [Exchange.readAnswer, h.results]
    cases hitems : ((l.items a).getD []).mapM read with
    | ok xs => exact .inl ⟨xs, rfl, .answer (mapM_eq_ok.mp hitems)⟩
    | error e =>
      obtain ⟨before, b, after, xs, hsplit, hbefore, hb⟩ := exists_of_mapM_eq_error hitems
      exact .inr ⟨.caller e, rfl, .unreadable hsplit hbefore hb⟩
  | refusal code => exact .inr ⟨.refused code, rfl, .refused⟩
  | lost => exact .inr ⟨.lost, rfl, .lost⟩

section Run

variable {start : Option τ} {responses : List Response}

theorem run_of_error {response : Response} {failure : Failure}
    (hread : Exchange.readAnswer p.results response = .error failure) :
    p.run start (response :: responses) = ⟨[p.request start], .error failure⟩ := by
  unfold run
  rw [hread]

theorem run_of_onward_eq_none {a : Answer} {xs : List α}
    (hread : Exchange.readAnswer p.results (.answer a) = .ok xs)
    (honward : p.onward start a = none) :
    p.run start (.answer a :: responses) = ⟨[p.request start], .ok xs⟩ := by
  simp only [run, hread, honward]

theorem run_of_onward_eq_some {a : Answer} {xs : List α} {token : τ}
    (hread : Exchange.readAnswer p.results (.answer a) = .ok xs)
    (honward : p.onward start a = some token) :
    p.run start (.answer a :: responses) =
      ⟨p.request start :: (p.run (some token) responses).requests,
        (p.run (some token) responses).result.map (xs ++ ·)⟩ := by
  simp only [run, hread, honward]

/-- A run asks for the pages up to the first that cannot be read, and what is read from them
is put together. -/
theorem Follows.run_of_pages (h : p.Follows l read) {pages : List (Page τ)}
    (hpages : l.Pages start responses pages) :
    ∃ asked, l.Outcome read pages asked (p.run start responses).result ∧
      (p.run start responses).requests = asked.map fun page => p.request page.start := by
  induction hpages with
  | @failed start response responses hresponse =>
    rcases h.holds_or_fails start response with ⟨xs, -, hholds⟩ | ⟨failure, hread, hfails⟩
    · cases hholds
      exact absurd rfl (hresponse _)
    · rw [run_of_error hread]
      exact ⟨_, .broken .nil hfails, rfl⟩
  | @last start a responses hlast =>
    rcases h.holds_or_fails start (.answer a) with ⟨xs, hread, hholds⟩ | ⟨failure, hread, hfails⟩
    · have honward : p.onward start a = none :=
        Option.eq_none_iff_forall_ne_some.mpr fun token htoken =>
          hlast token (h.onward_eq_some.mp htoken)
      rw [run_of_onward_eq_none hread honward]
      exact ⟨_, .single hholds, rfl⟩
    · rw [run_of_error hread]
      exact ⟨_, .broken .nil hfails, rfl⟩
  -- What was read of this page is put before the rest, or dropped if the rest fails.
  | @turn start a token responses pages hgoes _ ih =>
    rcases h.holds_or_fails start (.answer a) with ⟨xs, hread, hholds⟩ | ⟨failure, hread, hfails⟩
    · obtain ⟨asked, houtcome, hrequests⟩ := ih
      rw [run_of_onward_eq_some hread (h.onward_eq_some.mpr hgoes)]
      refine ⟨⟨start, .answer a⟩ :: asked, houtcome.cons hholds, ?_⟩
      rw [hrequests, List.map_cons]
    · rw [run_of_error hread]
      exact ⟨_, .broken .nil hfails, rfl⟩
  | @exhausted start =>
    have hrun : p.run start [] =
        ⟨[p.request start], Exchange.readAnswer p.results (.answer {})⟩ := rfl
    rcases h.holds_or_fails start (.answer {}) with ⟨xs, hread, hholds⟩ | ⟨failure, hread, hfails⟩
    · rw [hrun, hread]
      exact ⟨_, .single hholds, rfl⟩
    · rw [hrun, hread]
      exact ⟨_, .broken .nil hfails, rfl⟩

end Run

/-- A run reads the pages that the responses make. -/
theorem Follows.reads_run (h : p.Follows l read) (responses : List Response) :
    l.Reads read p.request responses (p.run none responses) :=
  ⟨l.exists_pages none responses, fun _ => h.run_of_pages⟩

end Paging

/-! ### The reads of the store -/

theorem Dict.nonEmpty?_eq_some {κ α : Type} {d e : Dict κ α} :
    d.nonEmpty? = some e ↔ d = e ∧ e ≠ [] := by
  unfold nonEmpty?
  cases d with
  | nil => simp [eq_comm]
  | cons entry d =>
    simp only [List.isEmpty_cons, Bool.false_eq_true, if_false, Option.some.injEq]
    constructor
    · rintro rfl
      exact ⟨rfl, nofun⟩
    · exact And.left

theorem Paging.follows_ofItems {α : Type} (r : Request) (read : Item → Except Error α) :
    (Paging.ofItems r read).Follows Layout.ofItems read where
  results _ := rfl
  next a token := by
    show a.lastKey.bind Dict.nonEmpty? = some token ↔ a.lastKey = some token ∧ token ≠ []
    simp only [Option.bind_eq_some_iff, Dict.nonEmpty?_eq_some, ← and_assoc,
      exists_and_right, exists_eq_right]
  samePlace := rfl

theorem ListTables.follows_paging (q : ListTables) :
    q.paging.Follows Layout.ofTables .ok where
  results _ := (mapM_eq_ok.mpr (List.forall₂_same.mpr fun _ _ => rfl)).symm
  next a token := by
    show a.lastTable.filter (· ≠ "") = some token ↔ a.lastTable = some token ∧ token ≠ ""
    rw [Option.filter_eq_some_iff, decide_eq_true_iff]
  samePlace := rfl

section Reads

variable {α : Type}

/-- **Reads in pages lose nothing and repeat nothing.**

The pages are asked for one after the other, each with the token of the one before, in
requests that differ in the token only, until an answer gives no token, the empty one or the
one that was sent.  If all of them can be read, the result is what is on them, in order.
Otherwise the result is the first failure, and no page after it is asked for. -/
theorem Exchange.reads_pages (read : Item → Except Error α) (responses : List Response) :
    (∀ (q : QueryPartition) (s : Schema) (r : Request), q.request s = .ok r →
      Layout.ofItems.Reads read (fun start => { r with startKey := start }) responses
        (q.send s read responses)) ∧
      (∀ (q : ScanTable) (s : Schema) (r : Request), q.request s = .ok r →
        Layout.ofItems.Reads read (fun start => { r with startKey := start }) responses
          (q.send s read responses)) ∧
      ∀ q : ListTables,
        Layout.ofTables.Reads .ok (fun start => { q.request with startTable := start }) responses
          (q.send responses) := by
  refine ⟨fun q s r hr => ?_, fun q s r hr => ?_, fun q => ?_⟩
  · rw [QueryPartition.send, hr]
    exact (Paging.follows_ofItems r read).reads_run responses
  · rw [ScanTable.send, hr]
    exact (Paging.follows_ofItems r read).reads_run responses
  · exact q.follows_paging.reads_run responses

/-- The second page has no items, and the third one an item that cannot be read: what is on
the pages before it is dropped and the fourth page is not asked for. -/
theorem Exchange.reads_pages_unreadable :
    let s : Schema := ⟨"table", none, []⟩
    let q : ScanTable := { pageSize := some 2 }
    let read (item : Item) : Except Error Nat :=
      if item.isEmpty then .error .emptySet else .ok item.length
    let a : Item := [("a", .bool true)]
    let b : Item := [("b", .bool true)]
    let responses : List Response :=
      [.answer { items := some [a, a], lastKey := some a }, .answer { lastKey := some b },
        .answer { items := some [a, [], b], lastKey := some a }, .answer { items := some [b] }]
    ∃ r, q.request s = .ok r ∧
      Layout.ofItems.Reads read (fun start => { r with startKey := start }) responses
        (q.send s read responses) ∧
      (q.send s read responses).requests.map Request.startKey = [none, some a, some b] ∧
      (q.send s read responses).result = .error (.caller .emptySet) := by
  intro s q read a b responses
  obtain ⟨r, hr⟩ : ∃ r, q.request s = .ok r := ⟨_, rfl⟩
  exact ⟨r, hr, (Exchange.reads_pages read responses).2.1 q s r hr, rfl, rfl⟩

end Reads

end ItemStore
