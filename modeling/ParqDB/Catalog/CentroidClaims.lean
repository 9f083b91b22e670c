import ParqDB.Catalog.Tombstones

/-!
# The IVF centroid claim protocol

Builds that need the same centroid model race for one row of `ivf_centroid_artifacts`:
the winner of a claim trains and publishes the artifact, the others wait for it or take
its claim over once the lease has run out.  Every call reads its own clock, so nothing
below assumes that time passes in the order of the calls.

**Strategy.**

* `Event.centroidChange` says once what an event can do to the row of a key.
* Rows are well formed for their state in every reachable catalog.
* A claim token that does not hold the row is fenced: until its owner claims again, every
  renewal, publication and abandonment with it fails.
* A ready row does not change until a purge presents exactly its UUID and location.
-/

namespace ParqDB.Catalog

open Foundations Meta

variable {crates : Crates}

/-- The row stored under a key. -/
def Tables.centroid (tables : Tables) (key : String × String) : Option CentroidRow :=
  tables.ivfCentroidArtifacts.find? key

def IvfCentroidsClaim.key (claim : IvfCentroidsClaim) : String × String :=
  (claim.sourceIdentity, claim.fingerprint)

/-- A call that presents a claim token. -/
inductive CatalogCall.Presents : CatalogCall → IvfCentroidsClaim → Prop
  | renew (claim : IvfCentroidsClaim) (leaseDurationMs : ℤ) :
      Presents (.renewIvfCentroidsClaim claim leaseDurationMs) claim
  | publish (claim : IvfCentroidsClaim) (metadataLocation : String)
      (metadata : IvfCentroidsMetadata) :
      Presents (.publishIvfCentroids claim metadataLocation metadata) claim
  | abandon (claim : IvfCentroidsClaim) (message : String) :
      Presents (.abandonIvfCentroids claim message) claim

/-! ## What an event does to one row -/

/-- All that an event can do to the row of a key. -/
inductive Event.CentroidStep (key : String × String) (event : Event) : Prop
  | unchanged (hsame : event.after.centroid key = event.before.centroid key)
  | claimed (claim : IvfCentroidsClaim) (descriptor : IvfCentroidsDescriptor)
      (leaseExpiresMs now : ℤ) (hclaim : claim.key = key)
      (houtcome : event.outcome = .ok (.claim (.claimed claim)))
      (hclock : event.request.clock = .ok now)
      (hfree : ∀ old, event.before.centroid key = some old →
        old.state ≠ .ready ∧ old.foreignLease claim.owner now = none)
      (hafter : event.after.centroid key =
        some (claimedRow key.1 key.2 descriptor claim.owner leaseExpiresMs))
  | renewed (claim : IvfCentroidsClaim) (row : CentroidRow) (leaseExpiresMs now : ℤ)
      (hclaim : claim.key = key) (hpresents : event.request.call.Presents claim)
      (hrow : event.before.centroid key = some row) (howned : row.ownedBy claim = true)
      (hafter : event.after.centroid key = some (row.renewed leaseExpiresMs))
  | published (claim : IvfCentroidsClaim) (row : CentroidRow) (artifactUuid : Uuid)
      (metadataLocation : String)
      (hclaim : claim.key = key) (hpresents : event.request.call.Presents claim)
      (hrow : event.before.centroid key = some row) (howned : row.ownedBy claim = true)
      (hafter : event.after.centroid key = some (row.published artifactUuid metadataLocation))
  | abandoned (claim : IvfCentroidsClaim) (row : CentroidRow) (message : String)
      (hclaim : claim.key = key) (hpresents : event.request.call.Presents claim)
      (hrow : event.before.centroid key = some row) (howned : row.ownedBy claim = true)
      (hafter : event.after.centroid key = some (row.abandoned message))
  | purged (entry : IvfCentroidsCatalogEntry) (row : CentroidRow)
      (hcall : event.request.call = .purgeIvfCentroids entry)
      (hsuccess : ∃ response, event.outcome = .ok response)
      (hrow : event.before.centroid key = some row) (hentry : row.isEntry entry = true)
      (hafter : event.after.centroid key = none)

variable {event : Event} {first last : Tables} {claim : IvfCentroidsClaim}

theorem Event.centroidStep (hoccurs : event.Occurs crates first last) (key : String × String) :
    event.CentroidStep key := by
  obtain ⟨-, -, hperform⟩ := hoccurs
  obtain ⟨⟨call, clock, fuse⟩, outcome, before, after⟩ := event
  dsimp only at hperform
  cases outcome with
  | error error =>
      obtain rfl : after = before := perform_error hperform
      exact .unchanged rfl
  | ok response =>
      have hdid := perform_ok hperform
      cases call with
      | register identifier source metadataLocation metadata =>
          exact .unchanged (by simp only [Tables.centroid, hdid.centroids])
      | commit identifier source baseLocation newLocation baseMetadata newMetadata =>
          exact .unchanged (by simp only [Tables.centroid, hdid.centroids])
      | drop identifier => exact .unchanged (by simp only [Tables.centroid, hdid.centroids])
      | purgeTombstone tombstone =>
          obtain rfl : after = _ := hdid
          exact .unchanged rfl
      | claimIvfCentroids source descriptor owner leaseDurationMs =>
          obtain ⟨result, rfl, fingerprint, now, -, hclock, -, houtcome⟩ := hdid
          cases houtcome with
          | ready row artifactUuid metadataLocation _ _ _ _ hsame => exact .unchanged (by rw [hsame])
          | busy row expires _ _ hsame => exact .unchanged (by rw [hsame])
          | claimed hfree hchange =>
              by_cases hkey : key = (source.exactStateKey crates, fingerprint)
              · subst hkey
                exact .claimed ⟨_, _, owner⟩ descriptor _ now rfl rfl hclock hfree
                  ((hchange.entry _).trans (if_pos rfl))
              · exact .unchanged ((hchange.entry key).trans (if_neg hkey))
      | renewIvfCentroidsClaim claim leaseDurationMs =>
          obtain ⟨row, now, -, hrow, howned, -, hchange⟩ := hdid
          by_cases hkey : key = claim.key
          · subst hkey
            exact .renewed claim row _ now rfl (.renew claim leaseDurationMs) hrow howned
              ((hchange.entry _).trans (if_pos rfl))
          · exact .unchanged ((hchange.entry key).trans (if_neg hkey))
      | publishIvfCentroids claim metadataLocation metadata =>
          obtain ⟨row, now, -, hrow, howned, -, -, -, hentry⟩ := hdid
          by_cases hkey : key = claim.key
          · subst hkey
            exact .published claim row _ _ rfl (.publish claim metadataLocation metadata) hrow
              howned ((hentry _).trans (if_pos rfl))
          · exact .unchanged ((hentry key).trans (if_neg hkey))
      | abandonIvfCentroids claim message =>
          obtain ⟨row, hrow, howned, hchange⟩ := hdid
          by_cases hkey : key = claim.key
          · subst hkey
            exact .abandoned claim row message rfl (.abandon claim message) hrow howned
              ((hchange.entry _).trans (if_pos rfl))
          · exact .unchanged ((hchange.entry key).trans (if_neg hkey))
      | purgeIvfCentroids entry =>
          obtain rfl : after = _ := hdid
          have hdelete := KeyedTable.find?_delete before.ivfCentroidArtifacts
            (fun row => row.isEntry entry) key
          cases hrow : before.ivfCentroidArtifacts.find? key with
          | none => exact .unchanged (by simp only [Tables.centroid, hdelete, hrow]; rfl)
          | some row =>
              by_cases hentry : row.isEntry entry = true
              · exact .purged entry row rfl ⟨response, rfl⟩ hrow hentry
                  (by simp [Tables.centroid, hdelete, hrow, hentry])
              · exact .unchanged (by simp [Tables.centroid, hdelete, hrow, hentry])

/-! ## Well-formed rows -/

/-- What the columns of a row hold in each state. -/
structure CentroidRow.WellFormed (row : CentroidRow) : Prop where
  building : row.state = .building → row.owner.isSome ∧ row.leaseExpiresMs.isSome ∧
    row.artifactUuid = none ∧ row.metadataLocation = none
  ready : row.state = .ready → row.metadataLocation.isSome ∧ row.artifactUuid.isSome ∧
    row.owner = none ∧ row.leaseExpiresMs = none

/-- Every row of the catalog is well formed. -/
def Tables.CentroidsWellFormed (tables : Tables) : Prop :=
  ∀ key row, tables.centroid key = some row → row.WellFormed

variable {row : CentroidRow}

theorem ownedBy_iff :
    row.ownedBy claim = true ↔
      row.key = claim.key ∧ row.state = .building ∧ row.owner = some claim.owner := by
  simp [CentroidRow.ownedBy, CentroidRow.key, IvfCentroidsClaim.key, and_assoc]

theorem centroidsWellFormed_step (hwell : first.CentroidsWellFormed)
    (hoccurs : event.Occurs crates first last) : last.CentroidsWellFormed := by
  intro key row hrow
  have hstep := event.centroidStep hoccurs key
  obtain ⟨rfl, rfl, -⟩ := hoccurs
  cases hstep with
  | unchanged hsame => exact hwell key row (hsame ▸ hrow)
  | claimed claim descriptor leaseExpiresMs now _ _ _ _ hafter =>
      obtain rfl := Option.some.inj (hrow.symm.trans hafter)
      exact ⟨fun _ => ⟨rfl, rfl, rfl, rfl⟩, nofun⟩
  | renewed claim old leaseExpiresMs now _ _ hold howned hafter =>
      obtain rfl := Option.some.inj (hrow.symm.trans hafter)
      obtain ⟨-, hstate, -⟩ := ownedBy_iff.mp howned
      obtain ⟨howner, -, huuid, hlocation⟩ := (hwell key old hold).building hstate
      exact ⟨fun _ => ⟨howner, rfl, huuid, hlocation⟩,
        fun hready => by simp [CentroidRow.renewed, hstate] at hready⟩
  | published claim old artifactUuid metadataLocation _ _ _ _ hafter =>
      obtain rfl := Option.some.inj (hrow.symm.trans hafter)
      exact ⟨nofun, fun _ => ⟨rfl, rfl, rfl, rfl⟩⟩
  | abandoned claim old message _ _ _ _ hafter =>
      obtain rfl := Option.some.inj (hrow.symm.trans hafter)
      exact ⟨nofun, nofun⟩
  | purged entry old _ _ _ _ hafter =>
      rw [hafter] at hrow
      cases hrow

/-! ## Fencing -/

/-- The token owns the building row of its key. -/
def Tables.Holds (tables : Tables) (claim : IvfCentroidsClaim) : Prop :=
  ∃ row, tables.centroid claim.key = some row ∧ row.ownedBy claim = true

/-- A token gets hold of its row only by a successful claim. -/
theorem holds_step (hoccurs : event.Occurs crates first last) (hnot : ¬ first.Holds claim)
    (hclaim : event.outcome ≠ .ok (.claim (.claimed claim))) : ¬ last.Holds claim := by
  rintro ⟨row, hrow, howned⟩
  have hstep := event.centroidStep hoccurs claim.key
  obtain ⟨rfl, rfl, -⟩ := hoccurs
  obtain ⟨-, hstate, howner⟩ := ownedBy_iff.mp howned
  cases hstep with
  | unchanged hsame => exact hnot ⟨row, hsame ▸ hrow, howned⟩
  | claimed other descriptor leaseExpiresMs now hkey houtcome _ _ hafter =>
      obtain rfl := Option.some.inj (hrow.symm.trans hafter)
      apply hclaim
      obtain ⟨identity, print, owner⟩ := claim
      obtain ⟨identity', print', owner'⟩ := other
      obtain ⟨rfl, rfl⟩ := Prod.mk.inj hkey
      obtain rfl : owner' = owner := Option.some.inj howner
      exact houtcome
  | renewed other old leaseExpiresMs now _ _ hold hownedOld hafter =>
      -- the row of another token keeps that token's owner
      obtain rfl := Option.some.inj (hrow.symm.trans hafter)
      exact hnot ⟨old, hold, ownedBy_iff.mpr (ownedBy_iff.mp howned)⟩
  | published _ _ _ _ _ _ _ _ hafter =>
      obtain rfl := Option.some.inj (hrow.symm.trans hafter)
      cases hstate
  | abandoned _ _ _ _ _ _ _ hafter =>
      obtain rfl := Option.some.inj (hrow.symm.trans hafter)
      cases hstate
  | purged _ _ _ _ _ _ hafter =>
      rw [hafter] at hrow
      cases hrow

/-- A call with a token that does not hold its row fails. -/
theorem presents_fails (hoccurs : event.Occurs crates first last) (hnot : ¬ first.Holds claim)
    (hpresents : event.request.call.Presents claim) : ∃ error, event.outcome = .error error := by
  obtain ⟨rfl, rfl, hperform⟩ := hoccurs
  cases houtcome : event.outcome with
  | error error => exact ⟨error, rfl⟩
  | ok response =>
      rw [houtcome] at hperform
      have hdid := perform_ok hperform
      refine absurd ?_ hnot
      generalize event.request.call = call at hpresents hdid
      cases hpresents with
      | renew leaseDurationMs =>
          obtain ⟨row, now, -, hrow, howned, -⟩ := hdid
          exact ⟨row, hrow, howned⟩
      | publish metadataLocation metadata =>
          obtain ⟨row, now, -, hrow, howned, -⟩ := hdid
          exact ⟨row, hrow, howned⟩
      | abandon message =>
          obtain ⟨row, hrow, howned, -⟩ := hdid
          exact ⟨row, hrow, howned⟩

variable {events : List Event}

theorem fenced_run (hrun : Run (Event.Occurs crates) first events last) (hnot : ¬ first.Holds claim)
    (hclaims : ∀ event ∈ events, event.outcome ≠ .ok (.claim (.claimed claim))) :
    ∀ event ∈ events, event.request.call.Presents claim →
      ∃ error, event.outcome = .error error := by
  induction events generalizing first with
  | nil => simp
  | cons event events ih =>
      obtain ⟨next, hstep, hrest⟩ := hrun
      simp only [List.forall_mem_cons] at hclaims ⊢
      exact ⟨presents_fails hstep hnot, ih hrest (holds_step hstep hnot hclaims.1) hclaims.2⟩

/-! ## Ready rows -/

/-- The event is a purge that presents exactly the entry of the row. -/
def Event.Purges (event : Event) (row : CentroidRow) : Prop :=
  ∃ entry, event.request.call = .purgeIvfCentroids entry ∧ row.isEntry entry = true

variable {key : String × String}

theorem ready_step (hoccurs : event.Occurs crates first last)
    (hrow : first.centroid key = some row) (hready : row.state = .ready)
    (hpurge : ¬ event.Purges row) : last.centroid key = some row := by
  have hstep := event.centroidStep hoccurs key
  obtain ⟨rfl, rfl, -⟩ := hoccurs
  cases hstep with
  | unchanged hsame => exact hsame.trans hrow
  | claimed claim descriptor leaseExpiresMs now _ _ _ hfree => exact absurd hready (hfree row hrow).1
  | renewed claim old leaseExpiresMs now _ _ hold howned =>
      obtain rfl := Option.some.inj (hrow.symm.trans hold)
      rw [(ownedBy_iff.mp howned).2.1] at hready
      cases hready
  | published claim old artifactUuid metadataLocation _ _ hold howned =>
      obtain rfl := Option.some.inj (hrow.symm.trans hold)
      rw [(ownedBy_iff.mp howned).2.1] at hready
      cases hready
  | abandoned claim old message _ _ hold howned =>
      obtain rfl := Option.some.inj (hrow.symm.trans hold)
      rw [(ownedBy_iff.mp howned).2.1] at hready
      cases hready
  | purged entry old hcall _ hold hentry =>
      obtain rfl := Option.some.inj (hrow.symm.trans hold)
      exact absurd ⟨entry, hcall, hentry⟩ hpurge

theorem ready_run (hrun : Run (Event.Occurs crates) first events last)
    (hrow : first.centroid key = some row) (hready : row.state = .ready)
    (hpurge : ∀ event ∈ events, ¬ event.Purges row) : last.centroid key = some row := by
  induction events generalizing first with
  | nil => exact (hrun : first = last) ▸ hrow
  | cons event events ih =>
      obtain ⟨next, hstep, hrest⟩ := hrun
      simp only [List.forall_mem_cons] at hpurge
      exact ih hrest (ready_step hstep hrow hready hpurge.1) hpurge.2

/-! ## The protocol -/

/-- What a successful claim found: no row, a failed one, its own, or an expired lease. -/
theorem claimed_finds (hwell : first.CentroidsWellFormed) (hoccurs : event.Occurs crates first last)
    (houtcome : event.outcome = .ok (.claim (.claimed claim))) :
    ∃ now, event.request.clock = .ok now ∧
      ∀ old, first.centroid claim.key = some old →
        old.state = .failed ∨ old.state = .building ∧ (old.owner = some claim.owner ∨
          ∃ expires, old.leaseExpiresMs = some expires ∧ expires ≤ now) := by
  obtain ⟨rfl, rfl, hperform⟩ := hoccurs
  rw [houtcome] at hperform
  obtain ⟨source, descriptor, owner, leaseDurationMs, hcall⟩ := call_of_claim_response hperform
  have hdid := perform_ok hperform
  rw [hcall] at hdid
  obtain ⟨result, hresult, fingerprint, now, -, hclock, -, hanswer⟩ := hdid
  obtain rfl := CatalogResponse.claim.inj hresult
  refine ⟨now, hclock, fun old hold => ?_⟩
  cases hanswer with
  | claimed hfree hchange =>
      obtain ⟨hnotReady, hforeign⟩ := hfree old hold
      cases hstate : old.state with
      | ready => exact absurd hstate hnotReady
      | failed => exact Or.inl rfl
      | building =>
          refine Or.inr ⟨rfl, ?_⟩
          by_cases howner : old.owner = some owner
          · exact Or.inl howner
          · obtain ⟨-, hlease, -⟩ := (hwell _ old hold).building hstate
            obtain ⟨expires, hexpires⟩ := Option.isSome_iff_exists.mp hlease
            simp [CentroidRow.foreignLease, hstate, howner, hexpires] at hforeign
            exact Or.inr ⟨expires, hexpires, hforeign⟩

/-- A renewal or publication found its own unexpired building row. -/
theorem kept_finds {response : CatalogResponse} (hoccurs : event.Occurs crates first last)
    (houtcome : event.outcome = .ok response) (hcall : (∃ leaseDurationMs, event.request.call =
        .renewIvfCentroidsClaim claim leaseDurationMs) ∨
      ∃ metadataLocation metadata, event.request.call =
        .publishIvfCentroids claim metadataLocation metadata) :
    ∃ row now expires, event.request.clock = .ok now ∧ first.centroid claim.key = some row ∧
      row.state = .building ∧ row.owner = some claim.owner ∧
      row.leaseExpiresMs = some expires ∧ now < expires := by
  obtain ⟨rfl, rfl, hperform⟩ := hoccurs
  rw [houtcome] at hperform
  have hdid := perform_ok hperform
  have hrow : ∃ row now, event.request.clock = .ok now ∧
      event.before.centroid claim.key = some row ∧ row.ownedBy claim = true ∧
      row.leaseHolds now = true := by
    rcases hcall with ⟨leaseDurationMs, hcall⟩ | ⟨metadataLocation, metadata, hcall⟩
    · rw [hcall] at hdid
      obtain ⟨row, now, hclock, hrow, howned, hlease, -⟩ := hdid
      exact ⟨row, now, hclock, hrow, howned, hlease⟩
    · rw [hcall] at hdid
      obtain ⟨row, now, hclock, hrow, howned, hlease, -⟩ := hdid
      exact ⟨row, now, hclock, hrow, howned, hlease⟩
  obtain ⟨row, now, hclock, hrow, howned, hlease⟩ := hrow
  obtain ⟨-, hstate, howner⟩ := ownedBy_iff.mp howned
  cases hexpires : row.leaseExpiresMs with
  | none => simp [CentroidRow.leaseHolds, hexpires] at hlease
  | some expires =>
      simp only [CentroidRow.leaseHolds, hexpires, Option.any_some, decide_eq_true_eq] at hlease
      exact ⟨row, now, expires, hclock, hrow, hstate, howner, hexpires, hlease⟩

/-- A building row changes only by a successful claim or by a call with its own token; in
particular no purge removes it. -/
theorem building_step (hoccurs : event.Occurs crates first last)
    (hrow : first.centroid key = some row) (hbuilding : row.state = .building) :
    last.centroid key = some row ∨
      (∃ claim : IvfCentroidsClaim, claim.key = key ∧
        event.outcome = .ok (.claim (.claimed claim))) ∨
      ∃ claim : IvfCentroidsClaim, claim.key = key ∧ row.owner = some claim.owner ∧
        event.request.call.Presents claim := by
  have hstep := event.centroidStep hoccurs key
  obtain ⟨rfl, rfl, -⟩ := hoccurs
  cases hstep with
  | unchanged hsame => exact Or.inl (hsame.trans hrow)
  | claimed claim _ _ _ hclaim houtcome => exact Or.inr (Or.inl ⟨claim, hclaim, houtcome⟩)
  | renewed claim old _ _ hclaim hpresents hold howned =>
      obtain rfl := Option.some.inj (hrow.symm.trans hold)
      exact Or.inr (Or.inr ⟨claim, hclaim, (ownedBy_iff.mp howned).2.2, hpresents⟩)
  | published claim old _ _ hclaim hpresents hold howned =>
      obtain rfl := Option.some.inj (hrow.symm.trans hold)
      exact Or.inr (Or.inr ⟨claim, hclaim, (ownedBy_iff.mp howned).2.2, hpresents⟩)
  | abandoned claim old _ hclaim hpresents hold howned =>
      obtain rfl := Option.some.inj (hrow.symm.trans hold)
      exact Or.inr (Or.inr ⟨claim, hclaim, (ownedBy_iff.mp howned).2.2, hpresents⟩)
  | purged entry old _ _ hold hentry =>
      obtain rfl := Option.some.inj (hrow.symm.trans hold)
      simp [CentroidRow.isEntry, hbuilding] at hentry

/-- A property of the state before an event of a history that every event preserves. -/
theorem history_before {inv : Tables → Prop}
    (hstep : ∀ before event after, inv before → Event.Occurs crates before event after → inv after)
    {tables : Tables} (hfirst : inv tables) {requests : List Request}
    (hevent : event ∈ history crates tables requests) :
    inv event.before ∧ event.Occurs crates event.before event.after := by
  obtain ⟨last, hrun⟩ := history_run crates tables requests
  obtain ⟨before, after, hsplit⟩ := List.append_of_mem hevent
  obtain ⟨start, _, hbefore, hoccurs, -⟩ := hrun.split hsplit
  have hinv : inv start := Run.invariant hstep hfirst hbefore
  obtain ⟨rfl, rfl, hperform⟩ := hoccurs
  exact ⟨hinv, rfl, rfl, hperform⟩

/-- **The claim protocol.**  In every history from an empty catalog, with any clock reading
at every call:

* every row before and after every call is well formed for its state;
* `Claimed` is returned only for an absent or failed row, for a row the caller already
  holds, or once the lease has expired at the caller's clock;
* renewals and publications succeed only for the current owner of an unexpired row;
* a token that does not hold its row is fenced: until it is claimed again, every call with
  it fails and changes nothing;
* a building row changes only by a successful claim or a call with its own token;
* a ready row stays as it is until a purge presents exactly its UUID and location. -/
theorem ivf_centroid_claim_protocol (crates : Crates) (requests : List Request) :
    (∀ event ∈ history crates createSchema requests,
      event.before.CentroidsWellFormed ∧ event.after.CentroidsWellFormed) ∧
    (∀ event ∈ history crates createSchema requests, ∀ claim,
      event.outcome = .ok (.claim (.claimed claim)) →
      ∃ now, event.request.clock = .ok now ∧
        ∀ old, event.before.centroid claim.key = some old →
          old.state = .failed ∨ old.state = .building ∧ (old.owner = some claim.owner ∨
            ∃ expires, old.leaseExpiresMs = some expires ∧ expires ≤ now)) ∧
    (∀ event ∈ history crates createSchema requests, ∀ claim response,
      event.outcome = .ok response →
      ((∃ leaseDurationMs, event.request.call = .renewIvfCentroidsClaim claim leaseDurationMs) ∨
        ∃ metadataLocation metadata, event.request.call =
          .publishIvfCentroids claim metadataLocation metadata) →
      ∃ row now expires, event.request.clock = .ok now ∧
        event.before.centroid claim.key = some row ∧ row.state = .building ∧
        row.owner = some claim.owner ∧ row.leaseExpiresMs = some expires ∧ now < expires) ∧
    (∀ claim before event events after,
      history crates createSchema requests = before ++ event :: (events ++ after) →
      ¬ event.after.Holds claim →
      (∀ later ∈ events, later.outcome ≠ .ok (.claim (.claimed claim))) →
      ∀ later ∈ events, later.request.call.Presents claim →
        (∃ error, later.outcome = .error error) ∧ later.after = later.before) ∧
    (∀ event ∈ history crates createSchema requests, ∀ key row,
      event.before.centroid key = some row → row.state = .building →
      event.after.centroid key = some row ∨
        (∃ claim : IvfCentroidsClaim, claim.key = key ∧
          event.outcome = .ok (.claim (.claimed claim))) ∨
        ∃ claim : IvfCentroidsClaim, claim.key = key ∧ row.owner = some claim.owner ∧
          event.request.call.Presents claim) ∧
    (∀ key row before event events after,
      history crates createSchema requests = before ++ event :: (events ++ after) →
      event.after.centroid key = some row → row.state = .ready →
      (∀ later ∈ events, ¬ later.Purges row) →
      ∀ later ∈ events, later.after.centroid key = some row) := by
  have hempty : createSchema.CentroidsWellFormed := by
    intro key row hrow
    cases hrow
  have hwell : ∀ event ∈ history crates createSchema requests,
      event.before.CentroidsWellFormed ∧ event.Occurs crates event.before event.after :=
    fun event => history_before (fun _ _ _ => centroidsWellFormed_step) hempty
  obtain ⟨last, hrun⟩ := history_run crates createSchema requests
  refine ⟨?_, ?_, ?_, ?_, ?_, ?_⟩
  · intro event hevent
    obtain ⟨hbefore, hoccurs⟩ := hwell event hevent
    exact ⟨hbefore, centroidsWellFormed_step hbefore hoccurs⟩
  · intro event hevent claim houtcome
    obtain ⟨hbefore, hoccurs⟩ := hwell event hevent
    exact claimed_finds hbefore hoccurs houtcome
  · intro event hevent claim response houtcome hcall
    exact kept_finds (hwell event hevent).2 houtcome hcall
  · intro claim before event events after hsplit hnot hclaims later hlater hpresents
    obtain ⟨_, _, -, ⟨-, rfl, -⟩, hrest⟩ := hrun.split hsplit
    obtain ⟨stop, hevents, -⟩ := Run.append_iff.mp hrest
    obtain ⟨error, herror⟩ := fenced_run hevents hnot hclaims later hlater hpresents
    refine ⟨⟨error, herror⟩, ?_⟩
    have hmem : later ∈ history crates createSchema requests := by
      rw [hsplit]
      simp [hlater]
    obtain ⟨-, -, -, hperform⟩ := hwell later hmem
    rw [herror] at hperform
    exact perform_error hperform
  · intro event hevent key row hrow hbuilding
    exact building_step (hwell event hevent).2 hrow hbuilding
  · intro key row before event events after hsplit hrow hready hpurge later hlater
    obtain ⟨_, _, -, ⟨-, rfl, -⟩, hrest⟩ := hrun.split hsplit
    obtain ⟨stop, hevents, -⟩ := Run.append_iff.mp hrest
    obtain ⟨left, right, rfl⟩ := List.append_of_mem hlater
    obtain ⟨before', after', hleft, hstep, -⟩ := hevents.split rfl
    have hkept := ready_run hleft hrow hready fun other hother => hpurge other (by simp [hother])
    have hnext := ready_step hstep hkept hready (hpurge later (by simp))
    obtain ⟨-, rfl, -⟩ := hstep
    exact hnext

/-! ## Claims before the lease has expired -/

section

def sampleDescriptor : IvfCentroidsDescriptor := ⟨"embedding", 2, .l2Squared, 2, 1⟩

def sampleClaim (owner : Uuid) : IvfCentroidsClaim :=
  ⟨"9cf373b8-345f-5ffa-97c1-893a826d146b", "3ad6988a-389e-53de-aaa6-f210345fd894", owner⟩

/-- An owner claims twice, then gives up, and another owner claims; the first lease would
run until 1500. -/
def earlyClaims : List Request :=
  [⟨.claimIvfCentroids sampleSource sampleDescriptor 1 500, .ok 1000, none⟩,
   ⟨.claimIvfCentroids sampleSource sampleDescriptor 1 500, .ok 1100, none⟩,
   ⟨.abandonIvfCentroids (sampleClaim 1) "out of memory", .ok 1200, none⟩,
   ⟨.claimIvfCentroids sampleSource sampleDescriptor 2 500, .ok 1300, none⟩]

/-- The outcome of each call and the row it found. -/
def earlyEvents : List (Except CatalogError CatalogResponse × Option (CentroidState × Option ℤ)) :=
  (history sampleCrates createSchema earlyClaims).map fun event =>
    (event.outcome, (event.before.centroid (sampleClaim 1).key).map fun row =>
      (row.state, row.leaseExpiresMs))

/-- The second claim, at 1100, is granted while the lease runs until 1500, and the last one
is granted on a failed row that has no lease at all. -/
theorem claimed_without_expiry :
    earlyEvents =
      [(.ok (.claim (.claimed (sampleClaim 1))), none),
       (.ok (.claim (.claimed (sampleClaim 1))), some (.building, some 1500)),
       (.ok .done, some (.building, some 1600)),
       (.ok (.claim (.claimed (sampleClaim 2))), some (.failed, none))] := by
  decide +kernel

end

end ParqDB.Catalog
