import Mathlib.Tactic.IntervalCases
import ParqDB.Meta.History

/-!
# What the checks of a metadata document ask for

`validate` walks over the snapshots and the log of a document (`parqdb-meta/src/metadata.rs`).
This module says what it asks for as a whole, and from that which snapshots may be appended
to a valid document: `validateUpdateFrom_appended_iff`.
-/

namespace ParqDB.Meta.IndexMetadata

open Foundations

variable {crates : Crates} {metadata base : IndexMetadata}

theorem check_eq_ok_iff {α : Type} {condition : Prop} [Decidable condition] {message : String}
    {rest : Unit → Except String α} {result : α} :
    (if condition then invalid message >>= rest else rest ()) = .ok result ↔
      ¬ condition ∧ rest () = .ok result := by
  constructor
  · exact check_eq_ok
  · rintro ⟨hcondition, hrest⟩
    rw [if_neg hcondition, hrest]

/-! ## The walks -/

/-- What the walk asks of one snapshot. -/
structure Admissible (crates : Crates) (metadata : IndexMetadata) (identity : SnapshotIdentity)
    (snapshot : IndexSnapshot) : Prop where
  valid : snapshot.validate crates = .ok ()
  identity : SnapshotIdentity.fromSnapshot snapshot = identity
  sequenceNumber : snapshot.sequenceNumber ≤ metadata.lastSequenceNumber
  timestamp : snapshot.timestampMs ≤ metadata.lastUpdatedMs

/-- Two snapshots have different IDs and sequence numbers. -/
def Apart (left right : IndexSnapshot) : Prop :=
  left.snapshotId ≠ right.snapshotId ∧ left.sequenceNumber ≠ right.sequenceNumber

variable {snapshotIds : List ℤ}

theorem validateSnapshots_iff {identity : SnapshotIdentity} {snapshots : List IndexSnapshot}
    {sequenceNumbers result : List ℤ} :
    validateSnapshots crates metadata identity snapshots snapshotIds sequenceNumbers =
        .ok result ↔
      (∀ snapshot ∈ snapshots, Admissible crates metadata identity snapshot ∧
        snapshot.snapshotId ∉ snapshotIds ∧ snapshot.sequenceNumber ∉ sequenceNumbers) ∧
      snapshots.Pairwise Apart ∧
      result = (snapshots.map IndexSnapshot.snapshotId).reverse ++ snapshotIds := by
  induction snapshots generalizing snapshotIds sequenceNumbers with
  | nil =>
      rw [validateSnapshots]
      constructor
      · intro hok
        cases hok
        exact ⟨fun _ hmem => absurd hmem List.not_mem_nil, List.Pairwise.nil, rfl⟩
      · rintro ⟨-, -, rfl⟩
        rfl
  | cons snapshot snapshots ih =>
      rw [validateSnapshots, seq_eq_ok, check_eq_ok_iff, check_eq_ok_iff, ih,
        List.forall_mem_cons, List.pairwise_cons]
      simp only [Bool.or_eq_true, not_or, List.contains_iff_mem, decide_eq_true_eq, not_lt,
        not_not, List.mem_cons, List.map_cons, List.reverse_cons, List.append_assoc,
        List.singleton_append]
      constructor
      · rintro ⟨hvalid, hidentity, ⟨⟨⟨hid, hsequence⟩, hlast⟩, htime⟩, hrest, hdistinct, hresult⟩
        refine ⟨⟨⟨⟨hvalid, hidentity, hlast, htime⟩, hid, hsequence⟩, ?_⟩, ⟨?_, hdistinct⟩, hresult⟩
        · intro other hother
          obtain ⟨hadmissible, hids, hsequences⟩ := hrest other hother
          exact ⟨hadmissible, hids.2, hsequences.2⟩
        · intro other hother
          obtain ⟨-, hids, hsequences⟩ := hrest other hother
          exact ⟨fun heq => hids.1 heq.symm, fun heq => hsequences.1 heq.symm⟩
      · rintro ⟨⟨⟨hadmissible, hid, hsequence⟩, hrest⟩, ⟨hapart, hdistinct⟩, hresult⟩
        refine ⟨hadmissible.valid, hadmissible.identity,
          ⟨⟨⟨hid, hsequence⟩, hadmissible.sequenceNumber⟩, hadmissible.timestamp⟩, ?_, hdistinct,
          hresult⟩
        intro other hother
        obtain ⟨hother', hids, hsequences⟩ := hrest other hother
        exact ⟨hother', ⟨(hapart other hother).1.symm, hids⟩,
          ⟨(hapart other hother).2.symm, hsequences⟩⟩

theorem validateLog_iff {log : List SnapshotLogEntry} {previousTimestamp : Option ℤ} :
    validateLog metadata snapshotIds log previousTimestamp = .ok () ↔
      (∀ entry ∈ log, 0 ≤ entry.timestampMs ∧ entry.timestampMs ≤ metadata.lastUpdatedMs ∧
        entry.snapshotId ∈ snapshotIds) ∧
      (log.Pairwise fun earlier later => earlier.timestampMs ≤ later.timestampMs) ∧
      ∀ previous ∈ previousTimestamp, ∀ entry ∈ log, previous ≤ entry.timestampMs := by
  induction log generalizing previousTimestamp with
  | nil => simp [validateLog]
  | cons entry log ih =>
      rw [validateLog, check_eq_ok_iff, ih]
      simp only [Bool.or_eq_true, not_or, decide_eq_true_eq, not_lt, Bool.not_eq_true',
        Bool.not_eq_false, List.contains_iff_mem, List.forall_mem_cons, List.pairwise_cons,
        Option.mem_def, Option.some.injEq, forall_eq', Option.any_eq_true, not_exists, not_and]
      constructor
      · rintro ⟨⟨⟨⟨hnonneg, hlast⟩, hid⟩, hprevious⟩, hrest, hsorted, hfirst⟩
        refine ⟨⟨⟨hnonneg, hlast, hid⟩, hrest⟩, ⟨hfirst, hsorted⟩, ?_⟩
        intro previous heq
        have hle := hprevious previous heq
        exact ⟨hle, fun later hlater => hle.trans (hfirst later hlater)⟩
      · rintro ⟨⟨⟨hnonneg, hlast, hid⟩, hrest⟩, ⟨hfirst, hsorted⟩, hprevious⟩
        exact ⟨⟨⟨⟨hnonneg, hlast⟩, hid⟩, fun previous heq => (hprevious previous heq).1⟩, hrest,
          hsorted, hfirst⟩

/-! ## A whole document -/

/-- What `validate` asks for. -/
structure Valid (crates : Crates) (metadata : IndexMetadata) : Prop where
  formatVersion : metadata.formatVersion = 1
  lastUpdatedMs : 0 ≤ metadata.lastUpdatedMs
  lastSequenceNumber : 0 < metadata.lastSequenceNumber
  currentSnapshotId : 0 < metadata.currentSnapshotId
  properties : metadata.properties.keys.any String.isEmpty = false
  nonempty : metadata.snapshots ≠ []
  admissible : ∃ identity, ∀ snapshot ∈ metadata.snapshots,
    Admissible crates metadata identity snapshot
  apart : metadata.snapshots.Pairwise Apart
  current : metadata.currentSnapshotId ∈ metadata.snapshots.map IndexSnapshot.snapshotId
  log : ∀ entry ∈ metadata.snapshotLog, 0 ≤ entry.timestampMs ∧
    entry.timestampMs ≤ metadata.lastUpdatedMs ∧
      entry.snapshotId ∈ metadata.snapshots.map IndexSnapshot.snapshotId
  sorted : metadata.snapshotLog.Pairwise fun earlier later => earlier.timestampMs ≤ later.timestampMs
  last : metadata.snapshotLog.getLast?.map SnapshotLogEntry.snapshotId =
    some metadata.currentSnapshotId

theorem validate_iff : metadata.validate crates = .ok () ↔ Valid crates metadata := by
  rw [validate, check_eq_ok_iff, check_eq_ok_iff, check_eq_ok_iff]
  constructor
  · rintro ⟨hformat, hnumbers, hproperties, hrest⟩
    simp only [Bool.or_eq_true, decide_eq_true_eq, not_or, not_lt, not_le] at hnumbers
    dsimp only at hrest
    split at hrest
    · cases hrest
    rename_i first rest hsnapshots
    obtain ⟨snapshotIds, hwalk, hrest⟩ := bind_eq_ok.mp hrest
    obtain ⟨hall, hapart, rfl⟩ := validateSnapshots_iff.mp hwalk
    obtain ⟨hcurrent, hrest⟩ := check_eq_ok hrest
    obtain ⟨hlog, hrest⟩ := seq_eq_ok.mp hrest
    obtain ⟨hlast, -⟩ := check_eq_ok hrest
    obtain ⟨hentries, hsorted, -⟩ := validateLog_iff.mp hlog
    simp only [List.append_nil, List.mem_reverse] at hentries
    exact {
      formatVersion := not_not.mp hformat
      lastUpdatedMs := hnumbers.1.1.1.1
      lastSequenceNumber := hnumbers.1.1.1.2
      currentSnapshotId := hnumbers.1.1.2
      properties := Bool.eq_false_iff.mpr hproperties
      nonempty := by simp [hsnapshots]
      admissible := ⟨_, fun snapshot hsnapshot => (hall snapshot hsnapshot).1⟩
      apart := hapart
      current := by simpa using hcurrent
      log := hentries
      sorted := hsorted
      last := not_not.mp hlast }
  · intro hvalid
    obtain ⟨identity, hadmissible⟩ := hvalid.admissible
    have hlog : metadata.snapshotLog ≠ [] := by
      intro hempty
      have hlast := hvalid.last
      rw [hempty] at hlast
      cases hlast
    refine ⟨not_not.mpr hvalid.formatVersion, ?_, by simp [hvalid.properties], ?_⟩
    · simp [hvalid.lastUpdatedMs, hvalid.lastSequenceNumber, hvalid.currentSnapshotId,
        hvalid.nonempty, hlog]
    · cases hsnapshots : metadata.snapshots with
      | nil => exact absurd hsnapshots hvalid.nonempty
      | cons first rest =>
          have hfirst : SnapshotIdentity.fromSnapshot first = identity :=
            (hadmissible first (by simp [hsnapshots])).identity
          have hwalk : validateSnapshots crates metadata (SnapshotIdentity.fromSnapshot first)
              (first :: rest) [] [] =
                .ok ((metadata.snapshots.map IndexSnapshot.snapshotId).reverse ++ []) := by
            rw [hfirst, ← hsnapshots, validateSnapshots_iff]
            exact ⟨fun snapshot hsnapshot => ⟨hadmissible snapshot hsnapshot,
              List.not_mem_nil, List.not_mem_nil⟩, hvalid.apart, rfl⟩
          dsimp only
          rw [bind_eq_ok]
          refine ⟨_, hwalk, ?_⟩
          rw [check_eq_ok_iff, seq_eq_ok, check_eq_ok_iff, validateLog_iff]
          refine ⟨?_, ⟨?_, hvalid.sorted, ?_⟩, not_not.mpr hvalid.last, rfl⟩
          · simpa using hvalid.current
          · intro entry hentry
            obtain ⟨hnonneg, hle, hid⟩ := hvalid.log entry hentry
            refine ⟨hnonneg, hle, ?_⟩
            rwa [List.append_nil, List.mem_reverse]
          · intro previous hprevious
            cases hprevious

/-! ## Appending a snapshot -/

/-- The base with one more snapshot, which becomes current. -/
def appended (base : IndexMetadata) (snapshot : IndexSnapshot) : IndexMetadata :=
  { base with
    lastUpdatedMs := snapshot.timestampMs
    lastSequenceNumber := snapshot.sequenceNumber
    currentSnapshotId := snapshot.snapshotId
    snapshots := base.snapshots ++ [snapshot]
    snapshotLog := base.snapshotLog ++ [⟨snapshot.timestampMs, snapshot.snapshotId⟩] }

/-- A snapshot with the next sequence number that is no older than the base. -/
structure Follows (base : IndexMetadata) (snapshot : IndexSnapshot) : Prop where
  sequenceNumber : snapshot.sequenceNumber = base.lastSequenceNumber + 1
  timestamp : base.lastUpdatedMs ≤ snapshot.timestampMs

/-- The base does not retain a snapshot of this ID. -/
def IsFresh (base : IndexMetadata) (snapshotId : ℤ) : Prop :=
  ∀ old ∈ base.snapshots, old.snapshotId ≠ snapshotId

section

variable {snapshot current : IndexSnapshot}

section

variable (hvalid : Valid crates base)

include hvalid

/-- The snapshots of a valid document share the identity of the current one. -/
theorem Valid.identity (hcurrent : base.currentSnapshot = .ok current)
    {old : IndexSnapshot} (hold : old ∈ base.snapshots) :
    SnapshotIdentity.fromSnapshot old = SnapshotIdentity.fromSnapshot current := by
  obtain ⟨identity, hadmissible⟩ := hvalid.admissible
  exact (hadmissible old hold).identity.trans
    (hadmissible current (mem_of_currentSnapshot hcurrent)).identity.symm

/-- A valid snapshot of the same identity under a fresh ID makes a valid document. -/
theorem Valid.appended (hcurrent : base.currentSnapshot = .ok current)
    (hfollows : Follows base snapshot) (hsnapshot : snapshot.validate crates = .ok ())
    (hpositive : 0 < snapshot.snapshotId)
    (hidentity : SnapshotIdentity.fromSnapshot snapshot = SnapshotIdentity.fromSnapshot current)
    (hfresh : IsFresh base snapshot.snapshotId) : Valid crates (base.appended snapshot) := by
  have hsequence := hfollows.sequenceNumber
  have htime := hfollows.timestamp
  obtain ⟨identity, hadmissible⟩ := hvalid.admissible
  have hcurrentIdentity := (hadmissible current (mem_of_currentSnapshot hcurrent)).identity
  refine {
    formatVersion := hvalid.formatVersion
    lastUpdatedMs := hvalid.lastUpdatedMs.trans htime
    lastSequenceNumber := ?_
    currentSnapshotId := hpositive
    properties := hvalid.properties
    nonempty := by simp [IndexMetadata.appended]
    admissible := ⟨identity, ?_⟩
    apart := ?_
    current := by simp [IndexMetadata.appended]
    log := ?_
    sorted := ?_
    last := by simp [IndexMetadata.appended] }
  · have hlast := hvalid.lastSequenceNumber
    change 0 < snapshot.sequenceNumber
    omega
  · intro old hold
    rcases List.mem_append.mp hold with hold | hnew
    · have hadmitted := hadmissible old hold
      refine ⟨hadmitted.valid, hadmitted.identity, ?_, hadmitted.timestamp.trans htime⟩
      have hle := hadmitted.sequenceNumber
      change old.sequenceNumber ≤ snapshot.sequenceNumber
      omega
    · obtain rfl := List.mem_singleton.mp hnew
      exact ⟨hsnapshot, hidentity.trans hcurrentIdentity, le_rfl, le_rfl⟩
  · refine List.pairwise_append.mpr ⟨hvalid.apart, List.pairwise_singleton _ _, ?_⟩
    intro old hold new hnew
    obtain rfl := List.mem_singleton.mp hnew
    have hle := (hadmissible old hold).sequenceNumber
    exact ⟨hfresh old hold, by omega⟩
  · intro entry hentry
    change 0 ≤ entry.timestampMs ∧ entry.timestampMs ≤ snapshot.timestampMs ∧
      entry.snapshotId ∈ (base.snapshots ++ [snapshot]).map IndexSnapshot.snapshotId
    rw [List.map_append, List.mem_append]
    rcases List.mem_append.mp hentry with hold | hnew
    · obtain ⟨hnonneg, hle, hid⟩ := hvalid.log entry hold
      exact ⟨hnonneg, hle.trans htime, .inl hid⟩
    · obtain rfl := List.mem_singleton.mp hnew
      exact ⟨hvalid.lastUpdatedMs.trans htime, le_rfl, .inr List.mem_cons_self⟩
  · refine List.pairwise_append.mpr ⟨hvalid.sorted, List.pairwise_singleton _ _, ?_⟩
    intro entry hentry new hnew
    obtain rfl := List.mem_singleton.mp hnew
    exact (hvalid.log entry hentry).2.1.trans htime

/-- Every retained snapshot is found under its own ID. -/
theorem Valid.find?_eq {old : IndexSnapshot}
    (hold : old ∈ base.snapshots) :
    (base.snapshots.find? fun other => other.snapshotId = old.snapshotId) = some old := by
  cases hfind : base.snapshots.find? fun other => other.snapshotId = old.snapshotId with
  | none => exact absurd (List.find?_eq_none.mp hfind old hold) (by simp)
  | some found =>
      have hid : found.snapshotId = old.snapshotId := of_decide_eq_true (List.find?_some hfind :)
      by_contra hne
      have hsymmetric : Std.Symm Apart := ⟨fun _ _ happart => ⟨happart.1.symm, happart.2.symm⟩⟩
      exact (hvalid.apart.forall (List.mem_of_find?_eq_some hfind) hold
        (fun heq => hne (congrArg some heq))).1 hid

theorem addedSnapshots_append (hfresh : IsFresh base snapshot.snapshotId) :
    addedSnapshots base (base.snapshots ++ [snapshot]) = .ok [snapshot] := by
  have hnew : (base.snapshots.find? fun old => old.snapshotId = snapshot.snapshotId) = none := by
    rw [List.find?_eq_none]
    intro old hold
    simpa using hfresh old hold
  have hwalk : ∀ snapshots : List IndexSnapshot, (∀ old ∈ snapshots, old ∈ base.snapshots) →
      addedSnapshots base (snapshots ++ [snapshot]) = .ok [snapshot] := by
    intro snapshots
    induction snapshots with
    | nil =>
        intro _
        rw [List.nil_append, addedSnapshots, hnew]
        rfl
    | cons old rest ih =>
        intro hretained
        rw [List.cons_append, addedSnapshots, hvalid.find?_eq (hretained old List.mem_cons_self)]
        change (if old ≠ old then _ else _) = _
        rw [if_neg (not_not.mpr rfl)]
        exact ih fun other hother => hretained other (List.mem_cons_of_mem _ hother)
  exact hwalk base.snapshots fun _ hold => hold

/-- The log of the base is retained as a whole. -/
theorem Valid.retainedLog :
    (base.snapshotLog.filter fun entry =>
      ((base.appended snapshot).snapshots.map (·.snapshotId)).contains entry.snapshotId) =
        base.snapshotLog := by
  rw [List.filter_eq_self]
  intro entry hentry
  rw [List.contains_iff_mem]
  change entry.snapshotId ∈ (base.snapshots ++ [snapshot]).map IndexSnapshot.snapshotId
  rw [List.map_append]
  exact List.mem_append_left _ (hvalid.log entry hentry).2.2

end

theorem zip_append_any {log : List SnapshotLogEntry} {rest : List SnapshotLogEntry} :
    ((log ++ rest).zip log).any (fun pair => pair.1 ≠ pair.2) = false := by
  induction log with
  | nil => simp
  | cons entry log ih => simpa using ih

theorem validateUpdateFrom_appended_iff (hvalid : Valid crates base)
    (hcurrent : base.currentSnapshot = .ok current) (hfollows : Follows base snapshot)
    (hlimit : base.lastSequenceNumber + 1 < 2 ^ 63) (hpositive : 0 < snapshot.snapshotId) :
    (base.appended snapshot).validateUpdateFrom crates base = .ok () ↔
      snapshot.validate crates = .ok () ∧
        SnapshotIdentity.fromSnapshot snapshot = SnapshotIdentity.fromSnapshot current ∧
          IsFresh base snapshot.snapshotId := by
  constructor
  · intro hupdate
    have hupdated := updated_of_validateUpdateFrom hupdate
    have hnew : snapshot ∈ (base.appended snapshot).snapshots :=
      List.mem_append_right _ List.mem_cons_self
    have hmetadata : (base.appended snapshot).validate crates = .ok () := by
      unfold validateUpdateFrom at hupdate
      obtain ⟨-, hupdate⟩ := seq_eq_ok.mp hupdate
      exact (seq_eq_ok.mp hupdate).1
    have hdocument := validate_iff.mp hmetadata
    obtain ⟨identity, hadmissible⟩ := hdocument.admissible
    refine ⟨(hadmissible snapshot hnew).valid,
      hupdated.identity snapshot hnew current (mem_of_currentSnapshot hcurrent), ?_⟩
    intro old hold
    exact ((List.pairwise_append.mp hdocument.apart).2.2 old hold snapshot List.mem_cons_self).1
  · rintro ⟨hsnapshot, hidentity, hfresh⟩
    have hdocument := hvalid.appended hcurrent hfollows hsnapshot hpositive hidentity hfresh
    have hmoved : snapshot.snapshotId ≠ base.currentSnapshotId := by
      obtain ⟨old, hold, hid⟩ := List.mem_map.mp hvalid.current
      rw [← hid]
      exact (hfresh old hold).symm
    have hsequence := hfollows.sequenceNumber
    rw [validateUpdateFrom, seq_eq_ok, seq_eq_ok, check_eq_ok_iff, check_eq_ok_iff,
      check_eq_ok_iff, bind_eq_ok]
    refine ⟨validate_iff.mpr hvalid, validate_iff.mpr hdocument, not_not.mpr rfl, ?_, ?_, current,
      hcurrent, ?_⟩
    · exact not_lt.mpr hfollows.timestamp
    · change ¬ snapshot.sequenceNumber < base.lastSequenceNumber
      omega
    · rw [check_eq_ok_iff, bind_eq_ok]
      refine ⟨?_, [snapshot], addedSnapshots_append hvalid hfresh, ?_⟩
      · rw [List.any_eq_true]
        rintro ⟨old, hold, hdiffers⟩
        rw [decide_eq_true_eq] at hdiffers
        rcases List.mem_append.mp hold with hretained | hnew
        · exact hdiffers (hvalid.identity hcurrent hretained)
        · obtain rfl := List.mem_singleton.mp hnew
          exact hdiffers hidentity
      · dsimp only
        have hnext : ¬ (decide (snapshot.sequenceNumber ≠ base.lastSequenceNumber + 1) ||
            decide ((base.appended snapshot).lastSequenceNumber ≠ base.lastSequenceNumber + 1) ||
            decide ((base.appended snapshot).currentSnapshotId ≠ snapshot.snapshotId)) = true := by
          simp [appended, hsequence]
        have hkept : ¬ (decide ((base.appended snapshot).snapshotLog.length <
            base.snapshotLog.length) || ((base.appended snapshot).snapshotLog.zip
              base.snapshotLog).any fun pair => decide (pair.1 ≠ pair.2)) = true := by
          rw [Bool.or_eq_true, decide_eq_true_eq, appended, zip_append_any, List.length_append]
          simp
        have hcurrentId : ¬ (base.appended snapshot).currentSnapshotId =
            base.currentSnapshotId := hmoved
        have hentry : ¬ ((base.appended snapshot).snapshotLog.drop base.snapshotLog.length).map
            (fun entry => entry.snapshotId) ≠ [(base.appended snapshot).currentSnapshotId] := by
          rw [appended, List.drop_left]
          exact not_not.mpr rfl
        rw [hvalid.retainedLog, if_neg (by omega), if_neg hnext, if_neg hkept, if_neg hcurrentId,
          if_neg hentry]

end

end ParqDB.Meta.IndexMetadata

/-!
## What the checks of a snapshot ask for

`IndexSnapshot::validate` and the checks of the IVF family (`parqdb-meta/src/metadata.rs`,
`family.rs`) as conditions, and the canonical decimal texts that builds store in the
parameters of a snapshot.
-/

namespace ParqDB.Meta

open Foundations IndexMetadata

/-! ## Decimal texts -/

theorem toList_toString (value : ℕ) : (toString value).toList = Nat.toDigits 10 value := by
  change value.repr.toList = _
  rw [Nat.toList_repr]

theorem decimalValue_toDigits (value : ℕ) : decimalValue (Nat.toDigits 10 value) = value := by
  have hvalue := Nat.ofDigitChars_ten_toDigits (n := value)
  rw [Nat.ofDigitChars_eq_foldl] at hvalue
  exact hvalue

theorem all_isDigit_toDigits (value : ℕ) : (Nat.toDigits 10 value).all Char.isDigit = true := by
  rw [List.all_eq_true]
  intro digit hdigit
  exact Nat.isDigit_of_mem_toDigits (by omega) (by omega) hdigit

/-- A positive number is written without leading zeros. -/
theorem head_toDigits_ne_zero {value : ℕ} (hpositive : 0 < value) :
    (Nat.toDigits 10 value).head? ≠ some '0' := by
  induction value using Nat.strongRecOn with
  | ind value ih =>
      rcases Nat.lt_or_ge value 10 with hsmall | hlarge
      · rw [Nat.toDigits_of_lt_base hsmall]
        interval_cases value <;> decide
      · rw [Nat.toDigits_of_base_le (by omega) hlarge,
          List.head?_append_of_ne_nil _ Nat.toDigits_ne_nil]
        exact ih (value / 10) (by omega) (by omega)

theorem parsePositiveParameter_toString {parameters : Properties} {name : String}
    {maximum value : ℕ} (hparameter : parameters.get? name = some (toString value))
    (hpositive : 0 < value) (hvalue : value ≤ maximum) (hmaximum : maximum < 2 ^ 64) :
    parsePositiveParameter parameters name maximum = .ok value := by
  have hhead := head_toDigits_ne_zero hpositive
  have hnonempty : Nat.toDigits 10 value ≠ [] := Nat.toDigits_ne_nil
  rw [parsePositiveParameter, requiredParameter, hparameter, ok_bind, toList_toString]
  dsimp only
  rw [check_eq_ok_iff, check_eq_ok_iff, check_eq_ok_iff, decimalValue_toDigits]
  refine ⟨?_, by omega, ?_, rfl⟩
  · simp [hhead, hnonempty, all_isDigit_toDigits]
  · rw [Bool.or_eq_true, decide_eq_true_eq, decide_eq_true_eq]
    omega

/-! ## A snapshot -/

/-- What `IndexSnapshot::validate` asks for. -/
structure IndexSnapshot.WellFormed (crates : Crates) (snapshot : IndexSnapshot) : Prop where
  snapshotId : 0 < snapshot.snapshotId
  sequenceNumber : 0 < snapshot.sequenceNumber
  timestamp : 0 ≤ snapshot.timestampMs
  fields : (snapshot.vectorField.isEmpty || snapshot.sourceKeyFields.isEmpty ||
    snapshot.sourceKeyFields.any String.isEmpty) = false
  nodup : snapshot.sourceKeyFields.Nodup
  rows : 0 < snapshot.indexedRows
  names : (snapshot.summary.keys.any String.isEmpty ||
    snapshot.parameters.keys.any String.isEmpty ||
      snapshot.indexTables.keys.any String.isEmpty) = false
  source : snapshot.sourceTable.validate = .ok ()
  provider : snapshot.indexProvider.validate = .ok ()
  tables : ∀ table ∈ snapshot.indexTables.values, table.validate = .ok ()
  family : validateFamily crates snapshot = .ok ()

variable {crates : Crates} {snapshot : IndexSnapshot}

theorem IndexSnapshot.validate_iff :
    snapshot.validate crates = .ok () ↔ snapshot.WellFormed crates := by
  rw [IndexSnapshot.validate, check_eq_ok_iff, check_eq_ok_iff, check_eq_ok_iff, check_eq_ok_iff,
    check_eq_ok_iff, seq_eq_ok, seq_eq_ok, seq_eq_ok, Bool.or_eq_true, Bool.or_eq_true,
    decide_eq_true_eq, decide_eq_true_eq, decide_eq_true_eq, not_or, not_or, not_le, not_le, not_lt,
    not_le, not_not, Bool.not_eq_true, Bool.not_eq_true]
  constructor
  · rintro ⟨⟨⟨hid, hsequence⟩, htime⟩, hfields, hnodup, hrows, hnames, hsource, hprovider, htables,
      hfamily⟩
    exact ⟨hid, hsequence, htime, hfields, hnodup, hrows, hnames, hsource, hprovider,
      forall_of_forM_eq_ok htables, hfamily⟩
  · intro hvalid
    exact ⟨⟨⟨hvalid.snapshotId, hvalid.sequenceNumber⟩, hvalid.timestamp⟩, hvalid.fields,
      hvalid.nodup, hvalid.rows, hvalid.names, hvalid.source, hvalid.provider,
      forM_eq_ok hvalid.tables, hvalid.family⟩

/-- Every snapshot that passes is one of the IVF family. -/
theorem IndexSnapshot.WellFormed.indexFamily (hvalid : snapshot.WellFormed crates) :
    snapshot.indexFamily = "ivf" := by
  have hfamily := hvalid.family
  unfold validateFamily at hfamily
  split at hfamily
  · assumption
  · cases hfamily

/-- What `validate_ivf` asks for, of a snapshot with the encoding and the shape it declares. -/
structure IvfRules (crates : Crates) (snapshot : IndexSnapshot) (encoding : PostingEncoding)
    (dimension nlist ntotal : ℕ) : Prop where
  version : snapshot.indexSchemaVersion = ivfSchemaVersion
  metric : (DistanceMetric.fromMetadata snapshot.metric).isNone = false
  encoding_eq : (snapshot.parameters.get? "posting_encoding").bind PostingEncoding.fromMetadata =
    some encoding
  parameters : (decide (snapshot.parameters.size ≠
      (expectedParameters encoding.artifactLayout).length) ||
    snapshot.parameters.keys.any fun key =>
      !(expectedParameters encoding.artifactLayout).contains key) = false
  dimension_eq : parsePositiveParameter snapshot.parameters "dimension" (2 ^ 31 - 1) = .ok dimension
  nlist_eq : parsePositiveParameter snapshot.parameters "nlist" (2 ^ 31 - 1) = .ok nlist
  ntotal_eq : parsePositiveParameter snapshot.parameters "ntotal" (2 ^ 63 - 1) = .ok ntotal
  rows : snapshot.indexedRows = ntotal
  nlist_le : nlist ≤ ntotal
  artifact : encoding.artifactLayout = true → ∃ artifactUuid,
    uuidParameter crates snapshot.parameters "artifact_uuid" = .ok artifactUuid ∧ artifactUuid ≠ 0
  centroids : encoding.artifactLayout = false →
    ∃ reference, ivfCentroidsReference crates snapshot = .ok reference
  roles : (expectedTables.any (fun role => !snapshot.indexTables.containsKey role) ||
    snapshot.indexTables.keys.any fun role => !expectedTables.contains role) = false

theorem IvfRules.validateIvf {encoding : PostingEncoding} {dimension nlist ntotal : ℕ}
    (hrules : IvfRules crates snapshot encoding dimension nlist ntotal) :
    validateIvf crates snapshot = .ok () := by
  have hnlist_le := hrules.nlist_le
  rw [Meta.validateIvf, check_eq_ok_iff]
  refine ⟨not_not.mpr hrules.version, ?_⟩
  rw [check_eq_ok_iff, hrules.metric]
  refine ⟨Bool.false_ne_true, ?_⟩
  rw [hrules.encoding_eq, check_eq_ok_iff, hrules.parameters]
  refine ⟨Bool.false_ne_true, ?_⟩
  rw [hrules.dimension_eq, ok_bind, hrules.nlist_eq, ok_bind, hrules.ntotal_eq, ok_bind,
    check_eq_ok_iff]
  refine ⟨not_not.mpr hrules.rows, ?_⟩
  rw [check_eq_ok_iff]
  refine ⟨not_lt.mpr hnlist_le, ?_⟩
  cases hlayout : encoding.artifactLayout with
  | true =>
      obtain ⟨artifactUuid, huuid, hnil⟩ := hrules.artifact hlayout
      rw [if_pos rfl, huuid, ok_bind, check_eq_ok_iff]
      refine ⟨hnil, ?_⟩
      rw [check_eq_ok_iff, hrules.roles]
      exact ⟨Bool.false_ne_true, rfl⟩
  | false =>
      obtain ⟨reference, hreference⟩ := hrules.centroids hlayout
      rw [if_neg Bool.false_ne_true, hreference, ok_bind, check_eq_ok_iff, hrules.roles]
      exact ⟨Bool.false_ne_true, rfl⟩

theorem DistanceMetric.asStr_of_fromMetadata {value : String} {metric : DistanceMetric}
    (hmetric : DistanceMetric.fromMetadata value = some metric) : metric.asStr = value := by
  unfold DistanceMetric.fromMetadata at hmetric
  split at hmetric
  · rename_i hvalue
    cases hmetric
    exact hvalue.symm
  · split at hmetric
    · rename_i hvalue
      cases hmetric
      exact hvalue.symm
    · cases hmetric

end ParqDB.Meta
