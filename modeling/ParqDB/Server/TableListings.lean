import Mathlib.Algebra.Order.Ring.Int
import Mathlib.Data.Int.Notation
import Mathlib.Data.List.Nodup
import Mathlib.Data.Nat.Basic
import Mathlib.Order.Basic
import Mathlib.Order.Defs.LinearOrder
import ParqDB.Foundations.Outcome
import ParqDB.Foundations.Runs

/-!
# Listing tables page by page

A client of the HTTP server lists the tables in pages (`transport/http.py`), and the server finds
each page by its offset in the list of that moment (`server/app.py`).  Other clients register and
remove tables between the pages.

The identifiers have a fixed order.  Numbers stand for the decimal texts that the two exchange.
-/

namespace ParqDB.Server

open Foundations

variable {Id : Type} [LinearOrder Id]

/-! ## The server -/

/-- The registered tables, in their order. -/
structure Catalog (Id : Type) [LinearOrder Id] where
  tables : List Id
  sorted : tables.Pairwise (· < ·)

namespace Catalog

def register (catalog : Catalog Id) (id : Id) : Catalog Id where
  tables := catalog.tables.filter (· < id) ++ id :: catalog.tables.filter (id < ·)
  sorted := by
    refine List.pairwise_append.mpr ⟨catalog.sorted.filter _, List.pairwise_cons.mpr
      ⟨fun other hother => of_decide_eq_true (List.mem_filter.mp hother).2,
        catalog.sorted.filter _⟩, fun left hleft right hright => ?_⟩
    have hbefore : left < id := of_decide_eq_true (List.mem_filter.mp hleft).2
    rcases List.mem_cons.mp hright with rfl | hright
    · exact hbefore
    · exact hbefore.trans (of_decide_eq_true (List.mem_filter.mp hright).2)

def remove (catalog : Catalog Id) (id : Id) : Catalog Id where
  tables := catalog.tables.filter (· ≠ id)
  sorted := catalog.sorted.filter _

end Catalog

def maxListTablesPageSize : ℤ := 1000

structure Page (Id : Type) where
  tables : List Id
  nextPageToken : Option ℕ

/-- `_list_tables`. -/
def listTables (tables : List Id) (limit offset : ℤ) : Except String (Page Id) := do
  rejectIf (limit ≤ 0 ∨ maxListTablesPageSize < limit) "limit must be between 1 and 1000"
  rejectIf (offset < 0) "page_token must not be negative"
  let page := (tables.drop offset.toNat).take limit.toNat
  let nextOffset := offset.toNat + page.length
  .ok ⟨page, if nextOffset < tables.length then some nextOffset else none⟩

/-! ## The client -/

inductive Status
  | listing
  | returned
  | failed (message : String)
  deriving DecidableEq

/-- The variables of `HttpTransport.list_tables`, and how far it is. -/
structure Client (Id : Type) where
  tables : List Id
  token : Option ℕ
  seenTokens : List ℕ
  status : Status

/-- The start of the call. -/
def Client.start : Client Id := ⟨[], none, [], .listing⟩

/-- The rest of a round of the loop, with the page that has come. -/
def Client.receive (client : Client Id) (page : Page Id) : Client Id :=
  let tables := client.tables ++ page.tables
  match page.nextPageToken with
  | none => { client with tables := tables, status := .returned }
  | some nextToken =>
      if nextToken ∈ client.seenTokens then
        { client with
          tables := tables
          status := .failed "ParqDB server repeated a table page token" }
      else
        { client with
          tables := tables
          token := some nextToken
          seenTokens := nextToken :: client.seenTokens }

/-! ## The call and the changes -/

structure Listing (Id : Type) [LinearOrder Id] where
  catalog : Catalog Id
  client : Client Id

inductive Event (Id : Type)
  | register (id : Id)
  | remove (id : Id)
  | request
  deriving DecidableEq

/-- A change of the catalogue, or a round of the loop while the client is listing. -/
def Listing.step (state : Listing Id) : Event Id → Option (Listing Id)
  | .register id => some { state with catalog := state.catalog.register id }
  | .remove id => some { state with catalog := state.catalog.remove id }
  | .request =>
      match state.client.status with
      | .listing =>
          match listTables state.catalog.tables 1000 (state.client.token.getD 0) with
          | .ok page => some { state with client := state.client.receive page }
          | .error message =>
              some { state with client := { state.client with status := .failed message } }
      | _ => none

def Step (before : Listing Id) (event : Event Id) (after : Listing Id) : Prop :=
  before.step event = some after

/-- The table is registered at every moment of the run. -/
def Throughout (id : Id) : Listing Id → List (Event Id) → Prop
  | state, [] => id ∈ state.catalog.tables
  | state, event :: events =>
      id ∈ state.catalog.tables ∧ ∀ next, state.step event = some next → Throughout id next events

def requests : List (Event Id) → ℕ
  | [] => 0
  | .request :: events => requests events + 1
  | _ :: events => requests events

def registrations : List (Event Id) → ℕ
  | [] => 0
  | .register _ :: events => registrations events + 1
  | _ :: events => registrations events

/-!
## What a list of tables is worth

A page starts at an offset, not behind an identifier.  It goes on where the page before it has
stopped only if the tables up to the last one returned are still as many as the offset says.

**Strategy.**

* `Pending`: what holds of the client between two pages, whatever the changes are.  Each page but
  the last is full, so that the offset counts the pages (`requests_le`).
* `Reached`: what holds of the client with respect to one table that is registered throughout, if
  all pages are requested in steady states.

**Results.**  `listing_complete`: a call always comes to an end, and it returns each table that is
registered throughout once if no page is requested after the offset has moved (`removed_table`).
-/

variable {Id : Type} [LinearOrder Id]

/-! ## Pages of a list -/

omit [LinearOrder Id] in
theorem listTables_ok (tables : List Id) (offset : ℕ) :
    listTables tables 1000 offset = .ok ⟨(tables.drop offset).take 1000,
      if offset + ((tables.drop offset).take 1000).length < tables.length then
        some (offset + ((tables.drop offset).take 1000).length) else none⟩ := by
  unfold listTables
  rw [rejectIf_bind_eq_ok]
  refine ⟨by decide, ?_⟩
  rw [rejectIf_bind_eq_ok]
  exact ⟨by omega, rfl⟩

omit [LinearOrder Id] in
/-- A page that others follow is full. -/
theorem length_page {tables : List Id} {offset : ℕ}
    (hmore : offset + ((tables.drop offset).take 1000).length < tables.length) :
    ((tables.drop offset).take 1000).length = 1000 := by
  rw [List.length_take, List.length_drop] at hmore ⊢
  omega

/-- The tables up to an identifier, and those behind it. -/
theorem filter_append_filter {tables : List Id} (hsorted : tables.Pairwise (· < ·)) (last : Id) :
    tables.filter (· ≤ last) ++ tables.filter (last < ·) = tables := by
  induction tables with
  | nil => rfl
  | cons id tables ih =>
      obtain ⟨hbelow, hsorted⟩ := List.pairwise_cons.mp hsorted
      rcases le_or_gt id last with hle | hlt
      · rw [List.filter_cons_of_pos (by simpa using hle),
          List.filter_cons_of_neg (by simpa using hle), List.cons_append, ih hsorted]
      · have hnone : tables.filter (· ≤ last) = [] := by
          rw [List.filter_eq_nil_iff]
          intro other hother
          simpa using hlt.trans (hbelow other hother)
        have hall : tables.filter (last < ·) = tables := by
          rw [List.filter_eq_self]
          intro other hother
          simpa using hlt.trans (hbelow other hother)
        rw [List.filter_cons_of_neg (by simpa using hlt), List.filter_cons_of_pos (by simpa using hlt),
          hnone, hall, List.nil_append]

/-! ## Steady states -/

/-- Up to the last table returned, there are as many tables as the offset says. -/
def Steady (state : Listing Id) : Prop :=
  ∀ last ∈ state.client.tables.getLast?,
    (state.catalog.tables.filter (· ≤ last)).length = state.client.token.getD 0

/-- A step that requests a page only in a steady state. -/
def SteadyStep (before : Listing Id) (event : Event Id) (after : Listing Id) : Prop :=
  Step before event after ∧ (event = .request → Steady before)

variable {state after before : Listing Id}

/-- In a steady state the next page starts behind the last table returned. -/
theorem Steady.drop_eq (hsteady : Steady state) {last : Id}
    (hlast : last ∈ state.client.tables.getLast?) :
    state.catalog.tables.drop (state.client.token.getD 0) =
      state.catalog.tables.filter (last < ·) := by
  have hsplit := filter_append_filter state.catalog.sorted last
  rw [← hsteady last hlast]
  nth_rewrite 2 [← hsplit]
  exact List.drop_left

/-! ## One round -/

def Client.offset (client : Client Id) : ℕ := client.token.getD 0

/-- The tables of the next page. -/
def Listing.nextPage (state : Listing Id) : List Id :=
  (state.catalog.tables.drop state.client.offset).take 1000

theorem step_request (hstep : Step before .request after) :
    before.client.status = .listing ∧ after.catalog = before.catalog ∧
      after.client = before.client.receive ⟨before.nextPage,
        if before.client.offset + before.nextPage.length < before.catalog.tables.length then
          some (before.client.offset + before.nextPage.length) else none⟩ := by
  unfold Step Listing.step at hstep
  dsimp only at hstep
  split at hstep
  · next hstatus =>
      rw [listTables_ok] at hstep
      cases hstep
      exact ⟨hstatus, rfl, rfl⟩
  · cases hstep

/-- What the client has while it is listing: as many tables as its offset says, and no token
beyond it. -/
structure Pending (client : Client Id) : Prop where
  collected : client.tables.length = client.offset
  seen : ∀ token ∈ client.seenTokens, token ≤ client.offset

/-- A page that was not the last. -/
structure Continues (before after : Listing Id) : Prop where
  status : after.client.status = .listing
  tables : after.client.tables = before.client.tables ++ before.nextPage
  offset : after.client.offset = before.client.offset + 1000
  inside : after.client.offset < before.catalog.tables.length
  pending : Pending after.client

/-- The last page. -/
structure Returns (before after : Listing Id) : Prop where
  status : after.client.status = .returned
  tables : after.client.tables = before.client.tables ++ before.nextPage
  complete : before.nextPage = before.catalog.tables.drop before.client.offset

/-- Tokens grow, so that none is repeated. -/
theorem round {before after : Listing Id} (hpending : Pending before.client)
    (hstep : Step before .request after) :
    before.client.status = .listing ∧ after.catalog = before.catalog ∧
      (Continues before after ∨ Returns before after) := by
  obtain ⟨hstatus, hcatalog, hclient⟩ := step_request hstep
  refine ⟨hstatus, hcatalog, ?_⟩
  by_cases hmore : before.client.offset + before.nextPage.length < before.catalog.tables.length
  · have hfull : before.nextPage.length = 1000 := length_page hmore
    have hfresh : before.client.offset + before.nextPage.length ∉ before.client.seenTokens := by
      intro hseen
      have hbound := hpending.seen _ hseen
      omega
    rw [if_pos hmore] at hclient
    unfold Client.receive at hclient
    dsimp only at hclient
    rw [if_neg hfresh] at hclient
    have hoffset : after.client.offset = before.client.offset + 1000 := by
      rw [hclient, ← hfull]
      rfl
    refine Or.inl ⟨by rw [hclient, hstatus], by rw [hclient], hoffset, by omega, ?_, ?_⟩
    · rw [hoffset, hclient, List.length_append, hpending.collected, hfull]
    · intro token htoken
      rw [hclient] at htoken
      rcases List.mem_cons.mp htoken with rfl | htoken
      · omega
      · have hbound := hpending.seen _ htoken
        omega
  · rw [if_neg hmore] at hclient
    unfold Client.receive at hclient
    refine Or.inr ⟨by rw [hclient], by rw [hclient], ?_⟩
    unfold Listing.nextPage at hmore ⊢
    rw [List.length_take, List.length_drop] at hmore
    rw [List.take_of_length_le]
    rw [List.length_drop]
    omega

/-! ## The call comes to an end -/

/-- The client has not failed, and it is ready for the next page if it is listing. -/
def Sane (client : Client Id) : Prop :=
  (∀ message, client.status ≠ .failed message) ∧ (client.status = .listing → Pending client)

theorem sane_step {event : Event Id} (hsane : Sane before.client) (hstep : Step before event after) :
    Sane after.client := by
  cases event with
  | register id =>
      cases hstep
      exact hsane
  | remove id =>
      cases hstep
      exact hsane
  | request =>
      have hstatus := (step_request hstep).1
      obtain ⟨-, -, hcontinues | hreturns⟩ := round (hsane.2 hstatus) hstep
      · refine ⟨fun message hfailed => ?_, fun _ => hcontinues.pending⟩
        rw [hcontinues.status] at hfailed
        cases hfailed
      · refine ⟨fun message hfailed => ?_, fun hlisting => ?_⟩
        · rw [hreturns.status] at hfailed
          cases hfailed
        · rw [hreturns.status] at hlisting
          cases hlisting

variable {events : List (Event Id)} {first last : Listing Id}

theorem not_listing_requests (hended : first.client.status ≠ .listing)
    (hrun : Run Step first events last) : requests events = 0 := by
  induction events generalizing first with
  | nil => rfl
  | cons event events ih =>
      obtain ⟨next, hstep, hrest⟩ := hrun
      cases event with
      | register id =>
          have hclient : next.client = first.client := by
            cases hstep
            rfl
          exact ih (hclient ▸ hended) hrest
      | remove id =>
          have hclient : next.client = first.client := by
            cases hstep
            rfl
          exact ih (hclient ▸ hended) hrest
      | request => exact absurd (step_request hstep).1 hended

theorem length_register (catalog : Catalog Id) (id : Id) :
    (catalog.register id).tables.length ≤ catalog.tables.length + 1 := by
  have hsplit := congrArg List.length (filter_append_filter catalog.sorted id)
  have hbefore : (catalog.tables.filter (· < id)).length ≤
      (catalog.tables.filter (· ≤ id)).length := by
    refine List.Sublist.length_le (List.monotone_filter_right _ fun other hother => ?_)
    exact decide_eq_true (le_of_lt (of_decide_eq_true hother))
  unfold Catalog.register
  rw [List.length_append] at hsplit ⊢
  rw [List.length_cons]
  omega

/-- A page for each thousand tables that there have been. -/
theorem requests_bound {bound : ℕ} (hsane : Sane first.client)
    (hcatalog : first.catalog.tables.length ≤ bound) (hoffset : first.client.offset ≤ bound)
    (hlisting : first.client.status = .listing) (hrun : Run Step first events last) :
    requests events * 1000 + first.client.offset ≤ bound + registrations events + 1000 := by
  induction events generalizing first bound with
  | nil =>
      have hnone : requests ([] : List (Event Id)) = 0 := rfl
      omega
  | cons event events ih =>
      obtain ⟨next, hstep, hrest⟩ := hrun
      have hnext := sane_step hsane hstep
      cases event with
      | register id =>
          cases hstep
          have hlength := length_register first.catalog id
          have htail := @ih _ (bound + 1) hnext (by dsimp only; omega) (by dsimp only; omega)
            hlisting hrest
          simp only [requests, registrations] at htail ⊢
          omega
      | remove id =>
          have hclient : next.client = first.client := by
            cases hstep
            rfl
          have hlength : next.catalog.tables.length ≤ bound := by
            cases hstep
            exact Nat.le_trans (List.length_filter_le _ _) hcatalog
          have htail := @ih next bound hnext hlength (by rwa [hclient]) (by rwa [hclient]) hrest
          rwa [hclient] at htail
      | request =>
          obtain ⟨-, hsame, hcontinues | hreturns⟩ := round (hsane.2 hlisting) hstep
          · have hinside := hcontinues.inside
            have hgrown := hcontinues.offset
            have htail := @ih next bound hnext (by rwa [hsame])
              (Nat.le_trans (Nat.le_of_lt hinside) hcatalog) hcontinues.status hrest
            calc requests (.request :: events) * 1000 + first.client.offset
                = requests events * 1000 + next.client.offset := by
                  rw [hgrown, requests, Nat.succ_mul, Nat.add_assoc, Nat.add_comm 1000]
              _ ≤ bound + registrations (.request :: events) + 1000 := htail
          · have hended : next.client.status ≠ .listing := by
              rw [hreturns.status]
              exact fun heq => by cases heq
            have hnone := not_listing_requests hended hrest
            simp only [requests, registrations, hnone]
            omega

/-! ## A table that stays -/

/-- What the client has of a table that is registered throughout. -/
structure Reached (id : Id) (state : Listing Id) : Prop where
  sorted : state.client.tables.Pairwise (· < ·)
  passed : ∀ last ∈ state.client.tables.getLast?, id ≤ last → id ∈ state.client.tables
  returned : state.client.status = .returned → id ∈ state.client.tables

/-- The tables that come next are behind those returned. -/
theorem nextPage_above (hsteady : Steady state) {last : Id}
    (hlast : last ∈ state.client.tables.getLast?) : ∀ other ∈ state.nextPage, last < other := by
  intro other hother
  have hmem := List.mem_of_mem_take hother
  rw [Client.offset, hsteady.drop_eq hlast] at hmem
  exact of_decide_eq_true (List.mem_filter.mp hmem).2

theorem nextPage_sorted (state : Listing Id) : state.nextPage.Pairwise (· < ·) :=
  (state.catalog.sorted.drop).take

/-- The last of a sorted list is the greatest. -/
theorem le_getLast {tables : List Id} (hsorted : tables.Pairwise (· < ·)) {last : Id}
    (hlast : last ∈ tables.getLast?) : ∀ other ∈ tables, other ≤ last := by
  obtain ⟨front, rfl⟩ := List.getLast?_eq_some_iff.mp hlast
  intro other hother
  rcases List.mem_append.mp hother with hother | hother
  · exact le_of_lt ((List.pairwise_append.mp hsorted).2.2 other hother last (by simp))
  · exact le_of_eq (List.mem_singleton.mp hother)

variable {id : Id}

/-- A registered table is behind the offset or has been passed. -/
theorem mem_drop_offset (hsteady : Steady state) (hpending : Pending state.client)
    (hreached : Reached id state) (hregistered : id ∈ state.catalog.tables) :
    id ∈ state.client.tables ∨ id ∈ state.catalog.tables.drop state.client.offset := by
  cases hlast : state.client.tables.getLast? with
  | none =>
      have hempty : state.client.tables = [] := List.getLast?_eq_none_iff.mp hlast
      have hzero : state.client.offset = 0 := by
        rw [← hpending.collected, hempty]
        rfl
      rw [hzero]
      exact Or.inr hregistered
  | some last =>
      rcases le_or_gt id last with hle | hlt
      · exact Or.inl (hreached.passed last hlast hle)
      · rw [Client.offset, hsteady.drop_eq hlast]
        exact Or.inr (List.mem_filter.mpr ⟨hregistered, decide_eq_true hlt⟩)

theorem tables_request (hpending : Pending before.client) (hstep : Step before .request after) :
    after.client.tables = before.client.tables ++ before.nextPage := by
  obtain ⟨-, -, hcontinues | hreturns⟩ := round hpending hstep
  · exact hcontinues.tables
  · exact hreturns.tables

theorem sorted_request (hsteady : Steady before) (hpending : Pending before.client)
    (hsorted : before.client.tables.Pairwise (· < ·)) (hstep : Step before .request after) :
    after.client.tables.Pairwise (· < ·) := by
  rw [tables_request hpending hstep, List.pairwise_append]
  refine ⟨hsorted, nextPage_sorted before, fun left hleft right hright => ?_⟩
  obtain ⟨last, hlast⟩ := Option.ne_none_iff_exists'.mp
    (mt List.getLast?_eq_none_iff.mp (List.ne_nil_of_mem hleft))
  exact lt_of_le_of_lt (le_getLast hsorted hlast left hleft)
    (nextPage_above hsteady hlast right hright)

/-- In steady runs no table is returned twice. -/
theorem sorted_run (hsane : Sane first.client) (hsorted : first.client.tables.Pairwise (· < ·))
    (hrun : Run SteadyStep first events last) :
    Sane last.client ∧ last.client.tables.Pairwise (· < ·) := by
  refine @Run.invariant _ _ SteadyStep first last (fun state => Sane state.client ∧
    state.client.tables.Pairwise (· < ·)) ?_ events ⟨hsane, hsorted⟩ hrun
  rintro before event after ⟨hsane, hsorted⟩ ⟨hstep, hsteady⟩
  refine ⟨sane_step hsane hstep, ?_⟩
  cases event with
  | register id =>
      cases hstep
      exact hsorted
  | remove id =>
      cases hstep
      exact hsorted
  | request =>
      have hstatus := (step_request hstep).1
      exact sorted_request (hsteady rfl) (hsane.2 hstatus) hsorted hstep

theorem reached_request (hsteady : Steady before) (hpending : Pending before.client)
    (hreached : Reached id before) (hregistered : id ∈ before.catalog.tables)
    (hstep : Step before .request after) : Reached id after := by
  have htables := tables_request hpending hstep
  have hwhere := mem_drop_offset hsteady hpending hreached hregistered
  refine ⟨sorted_request hsteady hpending hreached.sorted hstep, ?_, ?_⟩
  · intro last hlast hle
    rw [htables] at hlast ⊢
    rcases hwhere with hcollected | hbehind
    · exact List.mem_append_left _ hcollected
    · cases hpage : before.nextPage.getLast? with
      | none =>
          have hempty : before.nextPage = [] := List.getLast?_eq_none_iff.mp hpage
          rw [hempty, List.append_nil] at hlast ⊢
          exact hreached.passed last hlast hle
      | some final =>
          rw [List.getLast?_append, hpage] at hlast
          obtain rfl : final = last := Option.some.inj hlast
          refine List.mem_append_right _ ?_
          -- what the page leaves out is behind its last table
          have hsplit := List.take_append_drop 1000 (before.catalog.tables.drop before.client.offset)
          have hrest := before.catalog.sorted.drop (i := before.client.offset)
          rw [← hsplit] at hbehind hrest
          rcases List.mem_append.mp hbehind with hinside | houtside
          · exact hinside
          · have hbelow := (List.pairwise_append.mp hrest).2.2 final
              (List.mem_of_getLast? hpage) id houtside
            exact absurd (lt_of_lt_of_le hbelow hle) (lt_irrefl _)
  · intro hreturned
    obtain ⟨-, -, hcontinues | hreturns⟩ := round hpending hstep
    · rw [hcontinues.status] at hreturned
      cases hreturned
    · rw [hreturns.tables, hreturns.complete]
      rcases hwhere with hcollected | hbehind
      · exact List.mem_append_left _ hcollected
      · exact List.mem_append_right _ hbehind

theorem reached_run (hsane : Sane first.client) (hreached : Reached id first)
    (hthroughout : Throughout id first events) (hrun : Run SteadyStep first events last) :
    Reached id last := by
  induction events generalizing first with
  | nil => exact (hrun : first = last) ▸ hreached
  | cons event events ih =>
      obtain ⟨next, ⟨hstep, hsteady⟩, hrest⟩ := hrun
      have hnext : Reached id next := by
        cases event with
        | register other =>
            cases hstep
            exact ⟨hreached.sorted, hreached.passed, hreached.returned⟩
        | remove other =>
            cases hstep
            exact ⟨hreached.sorted, hreached.passed, hreached.returned⟩
        | request =>
            have hstatus := (step_request hstep).1
            exact reached_request (hsteady rfl) (hsane.2 hstatus) hreached hthroughout.1 hstep
      exact ih (sane_step hsane hstep) hnext (hthroughout.2 next hstep) hrest

/-! ## The call -/

/-- A call of `list_tables` begins. -/
def Listing.start (catalog : Catalog Id) : Listing Id := ⟨catalog, Client.start⟩

omit [LinearOrder Id] in
theorem sane_start : Sane (Client.start : Client Id) := by
  refine ⟨fun message hfailed => ?_, fun _ => ⟨rfl, fun token htoken => ?_⟩⟩
  · cases hfailed
  · cases htoken

theorem SteadyStep.run (hrun : Run SteadyStep first events last) : Run Step first events last :=
  hrun.map (fun _ => True) (fun _ _ _ _ _ => trivial) (fun _ _ _ _ hstep => hstep.1) trivial

/-- A call that requests its pages in steady states comes to an end after a page for each thousand
tables, and what it returns has no table twice and every table that stays. -/
theorem listing_complete (catalog : Catalog Id) (events : List (Event Id)) (last : Listing Id)
    (hrun : Run SteadyStep (Listing.start catalog) events last) :
    (∀ message, last.client.status ≠ .failed message) ∧
      requests events ≤ (catalog.tables.length + registrations events) / 1000 + 1 ∧
      (last.client.status = .returned → last.client.tables.Nodup ∧
        ∀ id, Throughout id (Listing.start catalog) events → last.client.tables.count id = 1) := by
  obtain ⟨hsane, hsorted⟩ := sorted_run sane_start List.Pairwise.nil hrun
  have hnodup : last.client.tables.Nodup := hsorted.imp fun hlt => ne_of_lt hlt
  refine ⟨hsane.1, ?_, fun hreturned => ⟨hnodup, fun id hthroughout => ?_⟩⟩
  · have hbound := requests_bound sane_start (Nat.le_refl catalog.tables.length)
      (Nat.zero_le _) rfl (SteadyStep.run hrun)
    have hzero : (Listing.start catalog).client.offset = 0 := rfl
    rw [hzero] at hbound
    omega
  · have hstart : Reached id (Listing.start catalog) := by
      refine ⟨List.Pairwise.nil, fun other hother => ?_, fun hstatus => ?_⟩
      · cases hother
      · cases hstatus
    have hreached := reached_run sane_start hstart hthroughout hrun
    exact List.count_eq_one_of_mem hnodup (hreached.returned hreturned)

/-! ## A thousand and one tables -/

/-- A table stays registered if it is not removed. -/
theorem throughout_of_kept (hregistered : id ∈ first.catalog.tables)
    (hkept : ∀ event ∈ events, event ≠ .remove id) : Throughout id first events := by
  induction events generalizing first with
  | nil => exact hregistered
  | cons event events ih =>
      rw [List.forall_mem_cons] at hkept
      refine ⟨hregistered, fun next hstep => ih ?_ hkept.2⟩
      cases event with
      | register other =>
          cases hstep
          rcases lt_trichotomy id other with hlt | rfl | hgt
          · exact List.mem_append_left _ (List.mem_filter.mpr ⟨hregistered, decide_eq_true hlt⟩)
          · exact List.mem_append_right _ List.mem_cons_self
          · exact List.mem_append_right _ (List.mem_cons_of_mem _
              (List.mem_filter.mpr ⟨hregistered, decide_eq_true hgt⟩))
      | remove other =>
          cases hstep
          have hne : id ≠ other := fun heq => hkept.1 (heq ▸ rfl)
          exact List.mem_filter.mpr ⟨hregistered, decide_eq_true hne⟩
      | request =>
          rw [(step_request hstep).2.1]
          exact hregistered

instance (state : Listing Id) : Decidable (Steady state) :=
  inferInstanceAs (Decidable (∀ last ∈ state.client.tables.getLast?,
    (state.catalog.tables.filter (· ≤ last)).length = state.client.token.getD 0))

/-- A steady step, computed. -/
def Listing.steadyStep (state : Listing Id) (event : Event Id) : Option (Listing Id) :=
  if event = .request ∧ ¬ Steady state then none else state.step event

theorem steadyStep_eq_some {event : Event Id} (hstep : before.steadyStep event = some after) :
    SteadyStep before event after := by
  unfold Listing.steadyStep at hstep
  split at hstep
  · cases hstep
  · next hsteady =>
      refine ⟨hstep, fun hrequest => ?_⟩
      by_contra hmoved
      exact hsteady ⟨hrequest, hmoved⟩

/-- So many tables, which are called by their numbers. -/
def numberedTables (count : ℕ) : Catalog ℕ := ⟨List.range count, List.pairwise_lt_range⟩

theorem stays_registered {count id : ℕ} {events : List (Event ℕ)} (hid : id < count)
    (hkept : ∀ event ∈ events, event ≠ .remove id) :
    Throughout id (Listing.start (numberedTables count)) events := by
  have hregistered : id ∈ (numberedTables count).tables := List.mem_range.mpr hid
  exact throughout_of_kept hregistered hkept

/-- A call with a thousand and one tables. -/
def bigListing : Listing ℕ := Listing.start (numberedTables 1001)

/-- A table is registered behind the first page. -/
theorem added_table :
    ∃ last, Run SteadyStep bigListing [.request, .register 2000, .request] last ∧
      last.client.status = .returned ∧ last.client.tables.count 1000 = 1 := by
  have hcomputed : (([.request, .register 2000, .request].foldlM Listing.steadyStep
      bigListing).map fun last => last.client.status) = some .returned := by
    decide +kernel
  obtain ⟨last, hlast, hreturned⟩ := Option.map_eq_some_iff.mp hcomputed
  have hrun : Run SteadyStep bigListing [.request, .register 2000, .request] last :=
    (Run.of_foldlM hlast).map (fun _ => True) (fun _ _ _ _ _ => trivial)
      (fun _ _ _ _ hstep => steadyStep_eq_some hstep) trivial
  have hstays : Throughout 1000 bigListing [.request, .register 2000, .request] :=
    stays_registered (by omega) (by decide)
  exact ⟨last, hrun, hreturned,
    ((listing_complete (numberedTables 1001) _ last hrun).2.2 hreturned).2 1000 hstays⟩

/-- The first table is removed between the pages, and the last one is not returned. -/
theorem removed_table :
    ∃ last, Run Step bigListing [.request, .remove 0, .request] last ∧
      last.client.status = .returned ∧
      Throughout 1000 bigListing [.request, .remove 0, .request] ∧
      1000 ∉ last.client.tables := by
  have hcomputed : (([.request, .remove 0, .request].foldlM Listing.step
      bigListing).map fun last =>
        (last.client.status, decide (1000 ∈ last.client.tables))) = some (.returned, false) := by
    decide +kernel
  obtain ⟨last, hlast, hresult⟩ := Option.map_eq_some_iff.mp hcomputed
  rw [Prod.mk.injEq] at hresult
  exact ⟨last, Run.of_foldlM hlast, hresult.1,
    stays_registered (by omega) (by decide),
    of_decide_eq_false hresult.2⟩

end ParqDB.Server
