import Mathlib.Data.List.Pairwise
import ParqDB.Foundations.Outcome
import ParqDB.Meta.Metadata

/-!
# The history of an index

A chain of metadata documents, each a legal update of the one before it
(`IndexMetadata::validate_update_from`).  The checks of one link compare two adjacent
documents only; this module derives what holds between any two documents of a chain.

**Strategy.**

* `Updated` says once what a link can do: keep snapshots as they are, drop some, and add at
  most one, with the next sequence number.
* `Extends` is what a link implies and what composes: no snapshot is rewritten or comes
  back below the sequence number the earlier document had reached.

**Results.**

* `metadata_history_append_only`: any two documents of a chain extend each other, and
  sequence numbers determine snapshots.
* `snapshot_ids_denote_one_snapshot_iff`: the same holds of snapshot IDs exactly in the
  chains where no link adds an ID that was dropped before.
* `dropped_snapshot_id_returns`: the checks accept a chain where one comes back.
-/

namespace ParqDB.Meta

open Foundations

namespace IndexMetadata

variable {crates : Crates} {metadata base : IndexMetadata}

/-! ## What the checks of one document say -/

/-- A check that was passed. -/
theorem check_eq_ok {α : Type} {condition : Prop} [Decidable condition] {message : String}
    {rest : Unit → Except String α} {result : α}
    (hcheck : (if condition then invalid message >>= rest else rest ()) = .ok result) :
    ¬ condition ∧ rest () = .ok result := by
  split at hcheck
  · cases hcheck
  · rename_i hcondition
    exact ⟨hcondition, hcheck⟩

/-- What the walk over the snapshots has checked. -/
theorem validateSnapshots_eq_ok {identity : SnapshotIdentity} {snapshots : List IndexSnapshot}
    {snapshotIds sequenceNumbers result : List ℤ}
    (hwalk : validateSnapshots crates metadata identity snapshots snapshotIds sequenceNumbers =
      .ok result) :
    (∀ snapshot ∈ snapshots, SnapshotIdentity.fromSnapshot snapshot = identity ∧
      snapshot.snapshotId ∉ snapshotIds ∧ snapshot.sequenceNumber ∉ sequenceNumbers ∧
      snapshot.sequenceNumber ≤ metadata.lastSequenceNumber) ∧
    snapshots.Pairwise fun left right =>
      left.snapshotId ≠ right.snapshotId ∧ left.sequenceNumber ≠ right.sequenceNumber := by
  induction snapshots generalizing snapshotIds sequenceNumbers with
  | nil => simp
  | cons snapshot rest ih =>
      unfold validateSnapshots at hwalk
      obtain ⟨_, -, hwalk⟩ := bind_eq_ok.mp hwalk
      obtain ⟨hidentity, hwalk⟩ := check_eq_ok hwalk
      obtain ⟨hfresh, hwalk⟩ := check_eq_ok hwalk
      simp only [Bool.or_eq_true, not_or, List.contains_iff_mem, decide_eq_true_eq, not_lt]
        at hfresh
      obtain ⟨⟨⟨hid, hsequence⟩, hlast⟩, -⟩ := hfresh
      obtain ⟨hrest, hdistinct⟩ := ih hwalk
      constructor
      · intro other hother
        rcases List.mem_cons.mp hother with rfl | hother
        · exact ⟨not_not.mp hidentity, hid, hsequence, hlast⟩
        · obtain ⟨hsame, hids, hsequences, hbound⟩ := hrest other hother
          exact ⟨hsame, fun hseen => hids (List.mem_cons_of_mem _ hseen),
            fun hseen => hsequences (List.mem_cons_of_mem _ hseen), hbound⟩
      · refine List.pairwise_cons.mpr ⟨fun other hother => ?_, hdistinct⟩
        obtain ⟨-, hids, hsequences, -⟩ := hrest other hother
        exact ⟨fun hsame => hids (hsame ▸ List.mem_cons_self),
          fun hsame => hsequences (hsame ▸ List.mem_cons_self)⟩

/-- What a valid document has. -/
structure Validated (metadata : IndexMetadata) : Prop where
  nonempty : metadata.snapshots ≠ []
  identity : ∀ left ∈ metadata.snapshots, ∀ right ∈ metadata.snapshots,
    SnapshotIdentity.fromSnapshot left = SnapshotIdentity.fromSnapshot right
  distinct : metadata.snapshots.Pairwise fun left right =>
    left.snapshotId ≠ right.snapshotId ∧ left.sequenceNumber ≠ right.sequenceNumber
  bounded : ∀ snapshot ∈ metadata.snapshots,
    snapshot.sequenceNumber ≤ metadata.lastSequenceNumber

theorem validated_of_validate (hvalid : metadata.validate crates = .ok ()) :
    metadata.Validated := by
  unfold validate at hvalid
  obtain ⟨-, hvalid⟩ := check_eq_ok hvalid
  obtain ⟨-, hvalid⟩ := check_eq_ok hvalid
  obtain ⟨-, hvalid⟩ := check_eq_ok hvalid
  dsimp only at hvalid
  split at hvalid
  · cases hvalid
  rename_i first rest hsnapshots
  obtain ⟨snapshotIds, hwalk, -⟩ := bind_eq_ok.mp hvalid
  obtain ⟨hall, hdistinct⟩ := validateSnapshots_eq_ok hwalk
  exact {
    nonempty := by simp [hsnapshots]
    identity := fun left hleft right hright => (hall left hleft).1.trans (hall right hright).1.symm
    distinct := hdistinct
    bounded := fun snapshot hsnapshot => (hall snapshot hsnapshot).2.2.2 }

variable {left right : IndexSnapshot}

/-- Two snapshots of a valid document differ in both of their numbers. -/
theorem Validated.apart (hvalid : metadata.Validated) (hleft : left ∈ metadata.snapshots)
    (hright : right ∈ metadata.snapshots) (hne : left ≠ right) :
    left.snapshotId ≠ right.snapshotId ∧ left.sequenceNumber ≠ right.sequenceNumber := by
  have hsymmetric : Std.Symm fun left right : IndexSnapshot =>
      left.snapshotId ≠ right.snapshotId ∧ left.sequenceNumber ≠ right.sequenceNumber :=
    ⟨fun _ _ h => ⟨h.1.symm, h.2.symm⟩⟩
  exact hvalid.distinct.forall hleft hright hne

/-! ## What one link can do -/

/-- A snapshot is retained from the base, or it is added and the base has not its ID. -/
theorem addedSnapshots_eq_ok {snapshots added : List IndexSnapshot}
    (hwalk : addedSnapshots base snapshots = .ok added) :
    ∀ snapshot ∈ snapshots, snapshot ∈ base.snapshots ∨
      snapshot ∈ added ∧ ∀ old ∈ base.snapshots, old.snapshotId ≠ snapshot.snapshotId := by
  induction snapshots generalizing added with
  | nil => simp
  | cons first rest ih =>
      intro snapshot hsnapshot
      unfold addedSnapshots at hwalk
      split at hwalk
      · rename_i old hfound
        split at hwalk
        · cases hwalk
        · rename_i hsame
          rcases List.mem_cons.mp hsnapshot with rfl | hrest
          · exact Or.inl (not_not.mp hsame ▸ List.mem_of_find?_eq_some hfound)
          · exact ih hwalk snapshot hrest
      · rename_i hmissing
        obtain ⟨later, hlater, hcons⟩ := bind_eq_ok.mp hwalk
        cases hcons
        rcases List.mem_cons.mp hsnapshot with rfl | hrest
        · refine Or.inr ⟨List.mem_cons_self, fun old hold => ?_⟩
          simpa using List.find?_eq_none.mp hmissing old hold
        · exact (ih hlater snapshot hrest).imp_right fun hadded =>
            ⟨List.mem_cons_of_mem _ hadded.1, hadded.2⟩

/-- All that a legal update can do to the snapshots. -/
structure Updated (base metadata : IndexMetadata) : Prop where
  baseValid : base.Validated
  valid : metadata.Validated
  indexUuid : metadata.indexUuid = base.indexUuid
  lastSequenceNumber : base.lastSequenceNumber ≤ metadata.lastSequenceNumber
  identity : ∀ snapshot ∈ metadata.snapshots, ∀ old ∈ base.snapshots,
    SnapshotIdentity.fromSnapshot snapshot = SnapshotIdentity.fromSnapshot old
  /-- A snapshot is retained, or it is new and has the next sequence number. -/
  snapshots : ∀ snapshot ∈ metadata.snapshots, snapshot ∈ base.snapshots ∨
    (∀ old ∈ base.snapshots, old.snapshotId ≠ snapshot.snapshotId) ∧
      snapshot.sequenceNumber = base.lastSequenceNumber + 1

/-- The current snapshot is a retained one. -/
theorem mem_of_currentSnapshot {current : IndexSnapshot}
    (hcurrent : metadata.currentSnapshot = .ok current) : current ∈ metadata.snapshots := by
  unfold currentSnapshot at hcurrent
  split at hcurrent
  · rename_i snapshot hfound
    cases hcurrent
    exact List.mem_of_find?_eq_some hfound
  · cases hcurrent

theorem updated_of_validateUpdateFrom
    (hupdate : metadata.validateUpdateFrom crates base = .ok ()) : base.Updated metadata := by
  unfold validateUpdateFrom at hupdate
  obtain ⟨_, hbase, hupdate⟩ := bind_eq_ok.mp hupdate
  obtain ⟨_, hmetadata, hupdate⟩ := bind_eq_ok.mp hupdate
  obtain ⟨huuid, hupdate⟩ := check_eq_ok hupdate
  obtain ⟨-, hupdate⟩ := check_eq_ok hupdate
  obtain ⟨hlast, hupdate⟩ := check_eq_ok hupdate
  obtain ⟨current, hcurrent, hupdate⟩ := bind_eq_ok.mp hupdate
  obtain ⟨hidentity, hupdate⟩ := check_eq_ok hupdate
  obtain ⟨added, hadded, hupdate⟩ := bind_eq_ok.mp hupdate
  have hvalid := validated_of_validate hbase
  refine {
    baseValid := hvalid
    valid := validated_of_validate hmetadata
    indexUuid := not_not.mp huuid
    lastSequenceNumber := not_lt.mp hlast
    identity := ?_
    snapshots := ?_ }
  · intro snapshot hsnapshot old hold
    have hsame : SnapshotIdentity.fromSnapshot snapshot = SnapshotIdentity.fromSnapshot current := by
      by_contra hother
      exact hidentity (List.any_eq_true.mpr ⟨snapshot, hsnapshot, by simpa using hother⟩)
    exact hsame.trans (hvalid.identity current (mem_of_currentSnapshot hcurrent) old hold)
  · intro snapshot hsnapshot
    rcases addedSnapshots_eq_ok hadded snapshot hsnapshot with hretained | ⟨hnew, hids⟩
    · exact Or.inl hretained
    · refine Or.inr ⟨hids, ?_⟩
      match added, hnew, hupdate with
      | [_], hnew, hupdate =>
          obtain rfl := List.mem_singleton.mp hnew
          obtain ⟨-, hupdate⟩ := check_eq_ok hupdate
          obtain ⟨hnext, -⟩ := check_eq_ok hupdate
          simp only [Bool.or_eq_true, not_or, decide_eq_true_eq, not_not] at hnext
          exact hnext.1.1
      | _ :: _ :: _, _, hupdate =>
          obtain ⟨_, hinvalid, -⟩ := bind_eq_ok.mp hupdate
          cases hinvalid

/-! ## Chains -/

/-- A chain of documents up to number `last`: a valid one and its updates. -/
structure History (crates : Crates) (documents : ℕ → IndexMetadata) (last : ℕ) : Prop where
  first : (documents 0).validate crates = .ok ()
  updates : ∀ i < last, (documents (i + 1)).validateUpdateFrom crates (documents i) = .ok ()

/-- What holds between an earlier and a later document of a chain. -/
structure Extends (earlier later : IndexMetadata) : Prop where
  indexUuid : later.indexUuid = earlier.indexUuid
  identity : ∀ snapshot ∈ later.snapshots, ∀ old ∈ earlier.snapshots,
    SnapshotIdentity.fromSnapshot snapshot = SnapshotIdentity.fromSnapshot old
  lastSequenceNumber : earlier.lastSequenceNumber ≤ later.lastSequenceNumber
  retained : ∀ snapshot ∈ later.snapshots,
    snapshot.sequenceNumber ≤ earlier.lastSequenceNumber → snapshot ∈ earlier.snapshots

theorem Updated.extends (hupdated : base.Updated metadata) : base.Extends metadata where
  indexUuid := hupdated.indexUuid
  identity := hupdated.identity
  lastSequenceNumber := hupdated.lastSequenceNumber
  retained := by
    intro snapshot hsnapshot hold
    rcases hupdated.snapshots snapshot hsnapshot with hretained | ⟨-, hnext⟩
    · exact hretained
    · omega

theorem Extends.trans {first second third : IndexMetadata} (hvalid : second.Validated)
    (hleft : first.Extends second) (hright : second.Extends third) : first.Extends third where
  indexUuid := hright.indexUuid.trans hleft.indexUuid
  identity := by
    intro snapshot hsnapshot old hold
    obtain ⟨middle, hmiddle⟩ := List.exists_mem_of_ne_nil _ hvalid.nonempty
    exact (hright.identity snapshot hsnapshot middle hmiddle).trans
      (hleft.identity middle hmiddle old hold)
  lastSequenceNumber := hleft.lastSequenceNumber.trans hright.lastSequenceNumber
  retained := by
    intro snapshot hsnapshot hold
    have hmiddle := hright.retained snapshot hsnapshot (hold.trans hleft.lastSequenceNumber)
    exact hleft.retained snapshot hmiddle hold

section

variable {documents : ℕ → IndexMetadata} {last : ℕ} (hhistory : History crates documents last)

include hhistory

variable {i : ℕ}

theorem History.updated (hi : i < last) : (documents i).Updated (documents (i + 1)) :=
  updated_of_validateUpdateFrom (hhistory.updates i hi)

theorem History.validated (hi : i ≤ last) : (documents i).Validated := by
  cases i with
  | zero => exact validated_of_validate hhistory.first
  | succ i => exact (hhistory.updated hi).valid

/-- Every later document extends every earlier one. -/
theorem History.extends {j : ℕ} (hij : i < j) (hj : j ≤ last) :
    (documents i).Extends (documents j) := by
  induction j with
  | zero => omega
  | succ j ih =>
      have hlink := (hhistory.updated hj).extends
      rcases Nat.lt_succ_iff_lt_or_eq.mp hij with hlt | rfl
      · exact (ih hlt (by omega)).trans (hhistory.validated (by omega)) hlink
      · exact hlink

/-- A sequence number names one snapshot in an earlier and a later document. -/
theorem History.eq_of_sequenceNumber_le {j : ℕ} (hij : i ≤ j) (hj : j ≤ last)
    {left right : IndexSnapshot} (hleft : left ∈ (documents i).snapshots)
    (hright : right ∈ (documents j).snapshots)
    (hsequence : left.sequenceNumber = right.sequenceNumber) : left = right := by
  have hvalid := hhistory.validated (hij.trans hj)
  have hbound := hvalid.bounded left hleft
  have hretained : right ∈ (documents i).snapshots := by
    rcases Nat.lt_or_eq_of_le hij with hlt | rfl
    · exact (hhistory.extends hlt hj).retained right hright (by omega)
    · exact hright
  by_contra hne
  exact (hvalid.apart hleft hretained hne).2 hsequence

end

/-- The history of an index is append-only: any later document of a chain has the identity of
any earlier one, has not gone back in sequence numbers, and has retained snapshots unchanged;
and a sequence number names one snapshot throughout the chain. -/
theorem metadata_history_append_only (crates : Crates) (documents : ℕ → IndexMetadata) (last : ℕ)
    (hhistory : History crates documents last) :
    (∀ i j, i < j → j ≤ last → (documents i).Extends (documents j)) ∧
      ∀ i j, i ≤ last → j ≤ last →
        ∀ left ∈ (documents i).snapshots, ∀ right ∈ (documents j).snapshots,
          left.sequenceNumber = right.sequenceNumber → left = right := by
  refine ⟨fun i j hij hj => hhistory.extends hij hj, ?_⟩
  intro i j hi hj left hleft right hright hsequence
  rcases Nat.le_total i j with hij | hji
  · exact hhistory.eq_of_sequenceNumber_le hij hj hleft hright hsequence
  · exact (hhistory.eq_of_sequenceNumber_le hji hi hright hleft hsequence.symm).symm

/-! ## Snapshot IDs -/

/-- A snapshot ID denotes one snapshot in all documents of the chain. -/
def IdsDenoteOneSnapshot (documents : ℕ → IndexMetadata) (last : ℕ) : Prop :=
  ∀ i j, i ≤ last → j ≤ last →
    ∀ left ∈ (documents i).snapshots, ∀ right ∈ (documents j).snapshots,
      left.snapshotId = right.snapshotId → left = right

/-- No link adds a snapshot ID that an earlier document had and its base has dropped. -/
def NoIdReturns (documents : ℕ → IndexMetadata) (last : ℕ) : Prop :=
  ∀ k < last, ∀ snapshot ∈ (documents (k + 1)).snapshots,
    (∀ old ∈ (documents k).snapshots, old.snapshotId ≠ snapshot.snapshotId) →
      ∀ i < k, ∀ old ∈ (documents i).snapshots, old.snapshotId ≠ snapshot.snapshotId

/-- An ID of a later document denotes the snapshot it denoted before, if none returns. -/
theorem History.eq_of_snapshotId_le {documents : ℕ → IndexMetadata} {last : ℕ}
    (hhistory : History crates documents last) (hreturns : NoIdReturns documents last) {i j : ℕ}
    (hij : i ≤ j) (hj : j ≤ last) (hleft : left ∈ (documents i).snapshots)
    (hright : right ∈ (documents j).snapshots) (hid : left.snapshotId = right.snapshotId) :
    left = right := by
  -- induction on the later document: its snapshot is retained, or new and then its ID is too
  induction j with
  | zero =>
      obtain rfl : i = 0 := by omega
      by_contra hne
      exact ((hhistory.validated hj).apart hleft hright hne).1 hid
  | succ j ih =>
      rcases Nat.lt_or_eq_of_le hij with hlt | rfl
      · rcases (hhistory.updated hj).snapshots right hright with hretained | ⟨hnew, -⟩
        · exact ih (by omega) (by omega) hretained
        · rcases Nat.lt_or_eq_of_le (Nat.lt_succ_iff.mp hlt) with hearlier | rfl
          · exact absurd hid (hreturns j hj right hright hnew i hearlier left hleft)
          · exact absurd hid (hnew left hleft)
      · by_contra hne
        exact ((hhistory.validated hj).apart hleft hright hne).1 hid

/-- Snapshot IDs denote one snapshot exactly in the chains where no dropped ID is added
again. -/
theorem snapshot_ids_denote_one_snapshot_iff (crates : Crates) (documents : ℕ → IndexMetadata)
    (last : ℕ) (hhistory : History crates documents last) :
    IdsDenoteOneSnapshot documents last ↔ NoIdReturns documents last := by
  constructor
  · intro hdenote k hk snapshot hsnapshot hnew i hi old hold hid
    have hsame := hdenote i (k + 1) (by omega) hk old hold snapshot hsnapshot hid
    subst hsame
    -- the added snapshot has a sequence number above all of the earlier document
    have hbound := (hhistory.validated (by omega : i ≤ last)).bounded old hold
    have hlast := (hhistory.extends hi (by omega)).lastSequenceNumber
    rcases (hhistory.updated hk).snapshots old hsnapshot with hretained | ⟨-, hnext⟩
    · exact hnew old hretained rfl
    · omega
  · intro hreturns i j hi hj left hleft right hright hid
    rcases Nat.le_total i j with hij | hji
    · exact hhistory.eq_of_snapshotId_le hreturns hij hj hleft hright hid
    · exact (hhistory.eq_of_snapshotId_le hreturns hji hi hright hleft hid.symm).symm

end IndexMetadata

/-! ## A snapshot ID that comes back -/

section

open IndexMetadata

/-- The crates on the texts of the samples: lower-case UUIDs, `file` URLs, and the
name-based UUIDs of the source definition and of the centroid descriptor. -/
def sampleCrates : Crates where
  parseUuid := Uuid.ofText
  uuidToString := Uuid.hyphenated
  newV5 := fun name _ =>
    if name = TableDefinition.definitionFingerprintNamespace then
      0x9cf373b8345f5ffa97c1893a826d146b
    else 0x3ad6988a389e53deaaa6f210345fd894
  parseUrl := fun location =>
    if "file:///".toList.isPrefixOf location.toList then
      .ok ⟨"file", false, "", none, none, none⟩
    else .error "relative URL without a base"

def sampleSource : TableDefinition where
  identifier := ⟨"datafusion", ["public"], "items"⟩
  provider := "parquet"
  properties := ⟨[("definition-version", "1"), ("location", "file:///tmp/items.parquet")],
    by decide⟩

/-- A snapshot in the source encoding, whose centroids are a shared artifact. -/
def sampleSnapshot : IndexSnapshot where
  snapshotId := 7
  sequenceNumber := 1
  timestampMs := 1000
  summary := ⟨[("builder", "local"), ("operation", "create")], by decide⟩
  sourceTable := sampleSource
  vectorField := "embedding"
  sourceKeyFields := ["id"]
  indexedRows := 2
  indexFamily := "ivf"
  indexSchemaVersion := 1
  metric := "l2_squared"
  parameters := ⟨[("dimension", "2"),
    ("ivf_centroids_fingerprint", "3ad6988a-389e-53de-aaa6-f210345fd894"),
    ("ivf_centroids_metadata_location",
      "metadata/00000000-0000-4000-8000-0000000000cc/v1.metadata.json"),
    ("ivf_centroids_uuid", "00000000-0000-4000-8000-0000000000cc"),
    ("nlist", "2"), ("ntotal", "2"), ("posting_encoding", "source")], by decide⟩
  indexProvider := ⟨"parquet", SortedMap.empty⟩
  indexTables := ⟨[
    ("ivf_centroids", ⟨1, ⟨[("location",
      "indexes/000000000000400080000000000000cc/1/ivf_centroids/")], by decide⟩⟩),
    ("ivf_postings", ⟨1, ⟨[("location",
      "indexes/000000000000400080000000000000aa/7/ivf_postings/")], by decide⟩⟩)], by decide⟩

def sampleMetadata : IndexMetadata where
  formatVersion := 1
  indexUuid := 0x000000000000400080000000000000aa
  lastUpdatedMs := 1000
  lastSequenceNumber := 1
  currentSnapshotId := 7
  snapshots := [sampleSnapshot]
  snapshotLog := [⟨1000, 7⟩]
  properties := SortedMap.empty

/-- Snapshot 8 is added, snapshot 7 is dropped, and another snapshot 7 is added. -/
def returningHistory : ℕ → IndexMetadata
  | 0 => sampleMetadata
  | 1 => { sampleMetadata with
      lastUpdatedMs := 2000
      lastSequenceNumber := 2
      currentSnapshotId := 8
      snapshots := [sampleSnapshot,
        { sampleSnapshot with snapshotId := 8, sequenceNumber := 2, timestampMs := 2000 }]
      snapshotLog := [⟨1000, 7⟩, ⟨2000, 8⟩] }
  | 2 => { sampleMetadata with
      lastUpdatedMs := 2000
      lastSequenceNumber := 2
      currentSnapshotId := 8
      snapshots :=
        [{ sampleSnapshot with snapshotId := 8, sequenceNumber := 2, timestampMs := 2000 }]
      snapshotLog := [⟨2000, 8⟩] }
  | _ => { sampleMetadata with
      lastUpdatedMs := 3000
      lastSequenceNumber := 3
      currentSnapshotId := 7
      snapshots :=
        [{ sampleSnapshot with snapshotId := 8, sequenceNumber := 2, timestampMs := 2000 },
          { sampleSnapshot with sequenceNumber := 3, timestampMs := 3000 }]
      snapshotLog := [⟨2000, 8⟩, ⟨3000, 7⟩] }

theorem returningHistory_valid : History sampleCrates returningHistory 3 := by
  constructor
  · decide +kernel
  · decide +kernel

/-- The chain that passes all checks is append-only. -/
theorem returningHistory_append_only :
    History sampleCrates returningHistory 3 ∧
      (∀ i j, i < j → j ≤ 3 → (returningHistory i).Extends (returningHistory j)) ∧
      ∀ i j, i ≤ 3 → j ≤ 3 →
        ∀ left ∈ (returningHistory i).snapshots, ∀ right ∈ (returningHistory j).snapshots,
          left.sequenceNumber = right.sequenceNumber → left = right :=
  ⟨returningHistory_valid,
    metadata_history_append_only sampleCrates returningHistory 3 returningHistory_valid⟩

/-- It uses one snapshot ID for two snapshots with different sequence numbers. -/
theorem dropped_snapshot_id_returns :
    History sampleCrates returningHistory 3 ∧
      ∃ left ∈ (returningHistory 0).snapshots, ∃ right ∈ (returningHistory 3).snapshots,
        left.snapshotId = right.snapshotId ∧ left.sequenceNumber ≠ right.sequenceNumber := by
  refine ⟨returningHistory_valid, sampleSnapshot, List.mem_cons_self,
    { sampleSnapshot with sequenceNumber := 3, timestampMs := 3000 }, ?_, rfl, ?_⟩
  · exact List.mem_cons_of_mem _ List.mem_cons_self
  · decide

/-- Before its last link its IDs denote one snapshot each. -/
theorem returningHistory_ids_until_last_link : IdsDenoteOneSnapshot returningHistory 2 := by
  have hhistory : History sampleCrates returningHistory 2 :=
    ⟨returningHistory_valid.first, fun i hi => returningHistory_valid.updates i (by omega)⟩
  have hreturns : NoIdReturns returningHistory 2 := by
    unfold NoIdReturns
    decide +kernel
  exact (snapshot_ids_denote_one_snapshot_iff sampleCrates returningHistory 2 hhistory).mpr hreturns

end

end ParqDB.Meta
