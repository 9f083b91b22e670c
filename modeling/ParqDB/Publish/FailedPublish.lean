import ParqDB.Publish.Descriptors

/-!
# Failed publications

Whether a publication that fails can be seen half-written.

**Strategy.**  After a run of the writer the manifest is there if everything was written, or
if its own write failed after it became visible and the delete that followed failed as well.
In the second case the clean-up then takes the other objects away.

**Results.**  `publish_law_iff`: a publication is never visible half-written, whatever writes
and deletes fail, except in that case and for index manifests that bring references of their
own along.  `deletedBehindManifest` is a run of the first kind.
-/

namespace ParqDB.Publish

open Foundations S3Writer

variable {library : Library} {files : Files} {faults : Faults} {verification : Option String}
  {request : Request} {store : Store}

/-- The object of a descriptor is in the store, with the recorded size and digest. -/
def Published (library : Library) (destination : String) (store : Store)
    (descriptor : JsonValue) : Prop :=
  ∃ relative bytes, store.objects (path destination relative) = some bytes ∧
    Records library descriptor relative bytes

/-- The key of the manifest. -/
def Request.manifestKey (request : Request) : String := path request.destination "manifest.json"

/-- A publication is never visible half-written. -/
structure PublishLaw (library : Library) (files : Files) (faults : Faults)
    (verification : Option String) (request : Request) (store : Store) : Prop where
  /-- A manifest that is there at the end has all its objects. -/
  complete : ∀ publication objects, request.prepare library files = .ok (publication, objects) →
    store.objects request.manifestKey = none →
    (publish library files faults verification request store).2.objects request.manifestKey ≠
      none →
    ∀ descriptor ∈ descriptors publication, Published library request.destination
      (publish library files faults verification request store).2 descriptor
  /-- A destination that has a manifest is left alone. -/
  refused : store.objects request.manifestKey ≠ none →
    (publish library files faults verification request store).2.objects = store.objects
  /-- If every delete succeeds, a failed run leaves nothing. -/
  clean : ∀ error, (publish library files faults verification request store).1 = .error error →
    verification = none → (∀ key, faults.delete key = false) →
    (publish library files faults verification request store).2.objects = store.objects

/-- The manifest is written, or cannot be taken back. -/
def ManifestStays (faults : Faults) (request : Request) : Prop :=
  faults.write request.manifestKey = none ∨
    faults.write request.manifestKey = some .after ∧ faults.delete request.manifestKey = true

/-- If the manifest stays, then all objects stay, and what the index manifest references of its
own is there. -/
def ObjectsStay (library : Library) (files : Files) (faults : Faults) (request : Request)
    (store : Store) : Prop :=
  ∀ publication objects, request.prepare library files = .ok (publication, objects) →
    (⟨request.destination, store, []⟩ : S3Writer).ensureEmpty (objects.map Object.path) = .ok () →
    (∀ item ∈ objects, item.path ≠ "manifest.json" →
      faults.write (path request.destination item.path) = none) →
    ManifestStays faults request →
    (faults.write request.manifestKey ≠ none → ∀ item ∈ objects, item.path ≠ "manifest.json" →
      faults.delete (path request.destination item.path) = true) ∧
    ∀ descriptor ∈ staleDescriptors request publication, Published library request.destination
      (deploy files request.destination store objects) descriptor

/-! ## The store at the end -/

theorem ensureEmpty_eq_ok {writer : S3Writer} {paths : List String}
    (hempty : writer.ensureEmpty paths = .ok ()) :
    ∀ relative ∈ paths, writer.store.objects (path writer.destination relative) = none := by
  intro relative hrelative
  have hfree := forall_of_forM_eq_ok hempty relative hrelative
  rw [rejectIf_eq_ok, Store.occupied, Bool.or_eq_true, not_or] at hfree
  simpa using hfree.1

/-- The store after a run that stopped at an object. -/
def stoppedStore (faults : Faults) (files : Files) (destination : String) (store : Store)
    (left : List Object) (item : Object) : Store :=
  cleanupAfterFailure faults ⟨destination,
    failedStore faults files destination (deploy files destination store left) item,
    left.map fun item => path destination item.path⟩

variable {publication : JsonValue}

theorem publish_of_writes {objects : List Object}
    (hprepare : request.prepare library files = .ok (publication, objects))
    (hempty : (⟨request.destination, store, []⟩ : S3Writer).ensureEmpty (objects.map Object.path) =
      .ok ())
    (hwrites : ∀ item ∈ objects, Writes faults files request.destination item) :
    publish library files faults verification request store =
      (request.finish files verification objects,
        deploy files request.destination store objects) := by
  unfold publish
  rw [hprepare]
  dsimp only
  rw [hempty]
  dsimp only
  rw [writeAll_of_writes hwrites]

theorem publish_of_fails {left right : List Object} {item : Object}
    (hprepare : request.prepare library files = .ok (publication, left ++ item :: right))
    (hempty : (⟨request.destination, store, []⟩ : S3Writer).ensureEmpty
      ((left ++ item :: right).map Object.path) = .ok ())
    (hwrites : ∀ item ∈ left, Writes faults files request.destination item)
    (hfails : ¬ Writes faults files request.destination item) :
    ∃ error, publish library files faults verification request store =
      (.error error, stoppedStore faults files request.destination store left item) := by
  obtain ⟨error, hrun⟩ := @writeAll_of_fails faults files left right item
    ⟨request.destination, store, []⟩ hwrites hfails
  refine ⟨error, ?_⟩
  unfold publish
  rw [hprepare]
  dsimp only
  rw [hempty]
  dsimp only
  rw [hrun]
  rfl

variable {destination : String} {item : Object} {left : List Object}

theorem stoppedStore_of_mem {other : Object} (hunique : (left.map Object.path).Nodup)
    (hother : other ∈ left) (hne : other.path ≠ item.path) :
    (stoppedStore faults files destination store left item).objects (path destination other.path) =
      if faults.delete (path destination other.path) = false then none
      else some ((other.bytes files).getD []) := by
  have hmem : path destination other.path ∈ left.map fun item => path destination item.path :=
    List.mem_map.mpr ⟨other, hother, rfl⟩
  rw [stoppedStore, cleanup_objects]
  simp only [hmem, true_and]
  congr 1
  rw [failedStore_of_ne fun heq => hne (path_injective destination heq)]
  exact deploy_of_mem hunique hother

theorem stoppedStore_of_ne {key : String}
    (hleft : ∀ other ∈ left, path destination other.path ≠ key)
    (hitem : key ≠ path destination item.path) :
    (stoppedStore faults files destination store left item).objects key = store.objects key := by
  rw [stoppedStore, cleanup_objects, if_neg, failedStore_of_ne hitem, deploy_of_not_mem hleft]
  rintro ⟨hmem, -⟩
  obtain ⟨other, hother, heq⟩ := List.mem_map.mp hmem
  exact hleft other hother heq

/-- The failed object is there only if it became visible and could not be deleted. -/
theorem stoppedStore_self {destination : String} {left : List Object} {item : Object}
    (hleft : ∀ other ∈ left, other.path ≠ item.path)
    (habsent : store.objects (path destination item.path) = none) :
    (stoppedStore faults files destination store left item).objects (path destination item.path) =
      if faults.write (path destination item.path) = some .after ∧
        faults.delete (path destination item.path) = true then item.bytes files else none := by
  have hkeys : ∀ other ∈ left, path destination other.path ≠ path destination item.path :=
    fun other hother heq => hleft other hother (path_injective destination heq)
  rw [stoppedStore, cleanup_objects, if_neg]
  · unfold failedStore
    dsimp only
    split
    · next bytes hbytes hfault =>
        rw [tryDelete_objects]
        cases hdelete : faults.delete (path destination item.path) with
        | true => simp [hfault, Store.put, hbytes]
        | false => simp
    · next hnot =>
        rw [tryDelete_objects, deploy_of_not_mem hkeys, habsent, ite_self]
        split
        · next hfault =>
            cases hbytes : item.bytes files with
            | none => rfl
            | some bytes => exact absurd hfault.1 (hnot bytes hbytes)
        · rfl
  · rintro ⟨hmem, -⟩
    obtain ⟨other, hother, heq⟩ := List.mem_map.mp hmem
    exact hkeys other hother heq

/-- With all objects in place, only what the index manifest brought along may be missing. -/
theorem published_deploy {data : List Object}
    (hprepared : Prepared library files request publication data) (descriptor : JsonValue)
    (hdescriptor : descriptor ∈ descriptors publication) :
    descriptor ∈ staleDescriptors request publication ∨
      Published library request.destination (deploy files request.destination store
        (data ++ [manifestObject library publication])) descriptor := by
  rcases hprepared.described descriptor hdescriptor with hstale |
    ⟨item, hitem, bytes, hbytes, hrecords⟩
  · exact Or.inl hstale
  · refine Or.inr ⟨item.path, bytes, ?_, hrecords⟩
    rw [deploy_of_mem hprepared.unique (List.mem_append_left _ hitem), hbytes]
    rfl

/-! ## The three kinds of runs -/

section

variable {publication : JsonValue} {data : List Object}

theorem stale_mem_descriptors {descriptor : JsonValue}
    (hstale : descriptor ∈ staleDescriptors request publication) :
    descriptor ∈ descriptors publication := by
  unfold staleDescriptors at hstale
  unfold descriptors
  rcases List.mem_append.mp hstale with hstale | hstale
  · split at hstale
    · exact List.mem_append_left _ (List.mem_append_right _ hstale)
    · cases hstale
  · split at hstale
    · exact List.mem_append_right _ hstale
    · cases hstale

theorem Prepared.path_ne (hprepared : Prepared library files request publication data)
    (hitem : item ∈ data) : item.path ≠ "manifest.json" := by
  intro heq
  have hunique := hprepared.unique
  rw [List.map_append, List.nodup_append] at hunique
  exact hunique.2.2 item.path (List.mem_map_of_mem hitem) "manifest.json" (by simp [manifestObject])
    heq

/-- The run writes everything. -/
theorem law_iff_of_writes (hprepared : Prepared library files request publication data)
    (hprepare : request.prepare library files =
      .ok (publication, data ++ [manifestObject library publication]))
    (hempty : (⟨request.destination, store, []⟩ : S3Writer).ensureEmpty
      ((data ++ [manifestObject library publication]).map Object.path) = .ok ())
    (hwrites : ∀ item ∈ data ++ [manifestObject library publication],
      Writes faults files request.destination item) :
    PublishLaw library files faults verification request store ↔
      ObjectsStay library files faults request store := by
  have hrun := @publish_of_writes library files faults verification request store _ _ hprepare
    hempty hwrites
  have hmanifest := (hwrites (manifestObject library publication) (by simp)).2
  have habsent : store.objects request.manifestKey = none :=
    ensureEmpty_eq_ok hempty "manifest.json" (by simp [manifestObject])
  have hthere : (deploy files request.destination store
      (data ++ [manifestObject library publication])).objects request.manifestKey ≠ none := by
    have hmem : manifestObject library publication ∈
        data ++ [manifestObject library publication] := by simp
    have hput := @deploy_of_mem files request.destination store _ hprepared.unique _ hmem
    rw [Request.manifestKey, show "manifest.json" = (manifestObject library publication).path from
      rfl, hput]
    simp
  constructor
  · rintro hlaw other objects hother - - -
    obtain ⟨rfl, rfl⟩ := Prod.mk.inj (Except.ok.inj (hprepare.symm.trans hother))
    refine ⟨fun hfault => absurd hmanifest hfault, fun descriptor hstale => ?_⟩
    have hcomplete := hlaw.complete _ _ hprepare habsent (by rw [hrun]; exact hthere) descriptor
      (stale_mem_descriptors hstale)
    rwa [hrun] at hcomplete
  · intro hstay
    refine ⟨?_, fun hpresent => absurd habsent hpresent, ?_⟩
    · intro other objects hother _ _ descriptor hdescriptor
      obtain ⟨rfl, rfl⟩ := Prod.mk.inj (Except.ok.inj (hprepare.symm.trans hother))
      rw [hrun]
      rcases published_deploy hprepared descriptor hdescriptor with hstale | hpublished
      · exact (hstay _ _ hprepare hempty (fun item hitem _ => (hwrites item hitem).2)
          (Or.inl hmanifest)).2 descriptor hstale
      · exact hpublished
    · intro error herror hverified _
      rw [hrun, hverified] at herror
      unfold Request.finish at herror
      dsimp only at herror
      split at herror
      · cases herror
      · split at herror
        · next hnone => cases hnone
        · cases herror

/-- A run that stops leaves nothing, if every delete succeeds. -/
theorem stoppedStore_clean {destination : String} {left right : List Object}
    (hunique : ((left ++ item :: right).map Object.path).Nodup)
    (habsent : ∀ other ∈ left ++ item :: right,
      store.objects (path destination other.path) = none)
    (hdeletes : ∀ key, faults.delete key = false) :
    (stoppedStore faults files destination store left item).objects = store.objects := by
  rw [List.map_append, List.nodup_append, List.map_cons] at hunique
  have hne : ∀ other ∈ left, other.path ≠ item.path := fun other hother =>
    hunique.2.2 other.path (List.mem_map_of_mem hother) item.path List.mem_cons_self
  funext key
  by_cases hitem : key = path destination item.path
  · subst hitem
    rw [stoppedStore_self hne (habsent item (by simp)), habsent item (by simp), if_neg]
    simp [hdeletes]
  · by_cases hleft : ∃ other ∈ left, path destination other.path = key
    · obtain ⟨other, hother, rfl⟩ := hleft
      rw [stoppedStore_of_mem hunique.1 hother (hne other hother), if_pos (hdeletes _),
        habsent other (List.mem_append_left _ hother)]
    · push Not at hleft
      exact stoppedStore_of_ne hleft hitem

/-- The run stops before it comes to the manifest. -/
theorem law_and_stay_of_fails {left right : List Object} {item : Object}
    (hprepared : Prepared library files request publication (left ++ item :: right))
    (hprepare : request.prepare library files =
      .ok (publication, (left ++ item :: right) ++ [manifestObject library publication]))
    (hempty : (⟨request.destination, store, []⟩ : S3Writer).ensureEmpty
      (((left ++ item :: right) ++ [manifestObject library publication]).map Object.path) = .ok ())
    (hwrites : ∀ item ∈ left, Writes faults files request.destination item)
    (hfails : ¬ Writes faults files request.destination item) :
    PublishLaw library files faults verification request store ∧
      ObjectsStay library files faults request store := by
  have hitem : item ∈ left ++ item :: right := by simp
  have habsent := ensureEmpty_eq_ok hempty
  have hnone : store.objects request.manifestKey = none :=
    habsent "manifest.json" (by simp [manifestObject])
  have hsplit : (left ++ item :: right) ++ [manifestObject library publication] =
      left ++ item :: (right ++ [manifestObject library publication]) := by simp
  obtain ⟨error, hrun⟩ := @publish_of_fails library files faults verification request store
    publication left (right ++ [manifestObject library publication]) item (hsplit ▸ hprepare)
    (hsplit ▸ hempty) hwrites hfails
  constructor
  · refine ⟨?_, fun hpresent => absurd hnone hpresent, ?_⟩
    · intro _ _ _ _ hthere
      rw [hrun] at hthere
      refine absurd ((stoppedStore_of_ne ?_ ?_).trans hnone) hthere
      · intro other hother heq
        exact hprepared.path_ne (List.mem_append_left _ hother) (path_injective _ heq)
      · intro heq
        exact hprepared.path_ne hitem (path_injective _ heq).symm
    · intro _ _ _ hdeletes
      rw [hrun]
      refine stoppedStore_clean (hsplit ▸ hprepared.unique) ?_ hdeletes
      intro other hother
      rw [← hsplit] at hother
      exact habsent other.path (List.mem_map_of_mem hother)
  · intro other objects hother _ hdata _
    obtain ⟨rfl, rfl⟩ := Prod.mk.inj (Except.ok.inj (hprepare.symm.trans hother))
    exact absurd ⟨hprepared.bytes item hitem, hdata item (List.mem_append_left _ hitem)
      (hprepared.path_ne hitem)⟩ hfails

/-- The run stops at the manifest. -/
theorem law_iff_of_manifest_fails (hprepared : Prepared library files request publication data)
    (hprepare : request.prepare library files =
      .ok (publication, data ++ [manifestObject library publication]))
    (hempty : (⟨request.destination, store, []⟩ : S3Writer).ensureEmpty
      ((data ++ [manifestObject library publication]).map Object.path) = .ok ())
    (hwrites : ∀ item ∈ data, Writes faults files request.destination item)
    (hfails : ¬ Writes faults files request.destination (manifestObject library publication)) :
    PublishLaw library files faults verification request store ↔
      ObjectsStay library files faults request store := by
  obtain ⟨error, hrun⟩ := @publish_of_fails library files faults verification request store
    publication data [] (manifestObject library publication) hprepare hempty hwrites hfails
  have habsent := ensureEmpty_eq_ok hempty
  have hnone : store.objects request.manifestKey = none :=
    habsent "manifest.json" (by simp [manifestObject])
  have hfault : faults.write request.manifestKey ≠ none := by
    intro hfault
    exact hfails ⟨by simp [manifestObject, Object.bytes], hfault⟩
  have hself := @stoppedStore_self files faults store request.destination data
    (manifestObject library publication) (fun other hother => hprepared.path_ne hother) hnone
  have hunique : (data.map Object.path).Nodup := by
    have hall := hprepared.unique
    rw [List.map_append, List.nodup_append] at hall
    exact hall.1
  have hdata : ∀ item ∈ data,
      (stoppedStore faults files request.destination store data
        (manifestObject library publication)).objects (path request.destination item.path) =
        if faults.delete (path request.destination item.path) = false then none
        else some ((item.bytes files).getD []) := by
    intro item hitem
    exact stoppedStore_of_mem hunique hitem (hprepared.path_ne hitem)
  have hclean : (∀ key, faults.delete key = false) →
      (stoppedStore faults files request.destination store data
        (manifestObject library publication)).objects = store.objects := by
    intro hdeletes
    exact stoppedStore_clean hprepared.unique
      (fun other hother => habsent other.path (List.mem_map_of_mem hother)) hdeletes
  -- the law asks for something only if the manifest is there after the clean-up
  by_cases hstays : faults.write request.manifestKey = some .after ∧
      faults.delete request.manifestKey = true
  · have hthere : (stoppedStore faults files request.destination store data
        (manifestObject library publication)).objects request.manifestKey =
        some (library.jsonBytes publication) := hself.trans (if_pos hstays)
    -- if no object is deleted, the store is the one with everything in it
    have hdeployed : (∀ item ∈ data,
        faults.delete (path request.destination item.path) = true) →
        (stoppedStore faults files request.destination store data
          (manifestObject library publication)).objects =
        (deploy files request.destination store
          (data ++ [manifestObject library publication])).objects := by
      intro hdeletes
      funext key
      by_cases hkey : ∃ item ∈ data ++ [manifestObject library publication],
          path request.destination item.path = key
      · obtain ⟨item, hitem, rfl⟩ := hkey
        rw [deploy_of_mem hprepared.unique hitem]
        rcases List.mem_append.mp hitem with hitem | hitem
        · rw [hdata item hitem, hdeletes item hitem]
          simp
        · rw [List.mem_singleton.mp hitem]
          exact hthere
      · push Not at hkey
        rw [deploy_of_not_mem hkey]
        exact stoppedStore_of_ne (fun item hitem => hkey item (List.mem_append_left _ hitem))
          (Ne.symm (hkey _ (by simp)))
    constructor
    -- all that is published is there, so no written object has been deleted
    · intro hlaw other objects hother _ _ _
      obtain ⟨rfl, rfl⟩ := Prod.mk.inj (Except.ok.inj (hprepare.symm.trans hother))
      have hcomplete := hlaw.complete _ _ hprepare hnone (by rw [hrun, hthere]; simp)
      rw [hrun] at hcomplete
      have hdeletes : ∀ item ∈ data,
          faults.delete (path request.destination item.path) = true := by
        intro item hitem
        obtain ⟨descriptor, hdescriptor, bytes, -, hrecords⟩ := hprepared.referenced item hitem
        obtain ⟨relative, found, hfound, hrecords'⟩ := hcomplete descriptor hdescriptor
        have hsame : item.path = relative := by
          simpa using hrecords.path.symm.trans hrecords'.path
        rw [← hsame, hdata item hitem] at hfound
        by_contra hdelete
        rw [if_pos (Bool.not_eq_true _ ▸ hdelete)] at hfound
        cases hfound
      refine ⟨fun _ item hitem hne => ?_, fun descriptor hstale => ?_⟩
      · rcases List.mem_append.mp hitem with hitem | hitem
        · exact hdeletes item hitem
        · rw [List.mem_singleton.mp hitem] at hne
          exact absurd rfl hne
      · have hpublished := hcomplete descriptor (stale_mem_descriptors hstale)
        unfold Published at hpublished ⊢
        rwa [hdeployed hdeletes] at hpublished
    · intro hstay
      obtain ⟨hdeletes, hstale⟩ := hstay _ _ hprepare hempty (fun item hitem hne => by
        rcases List.mem_append.mp hitem with hitem | hitem
        · exact (hwrites item hitem).2
        · rw [List.mem_singleton.mp hitem] at hne
          exact absurd rfl hne) (Or.inr hstays)
      refine ⟨?_, fun hpresent => absurd hnone hpresent, fun _ _ _ => by rw [hrun]; exact hclean⟩
      intro other objects hother _ _ descriptor hdescriptor
      obtain ⟨rfl, rfl⟩ := Prod.mk.inj (Except.ok.inj (hprepare.symm.trans hother))
      rw [hrun]
      have hsame := hdeployed fun item hitem => hdeletes hfault item (List.mem_append_left _ hitem)
        (hprepared.path_ne hitem)
      have hpublished : Published library request.destination (deploy files request.destination
          store (data ++ [manifestObject library publication])) descriptor := by
        rcases published_deploy hprepared descriptor hdescriptor with hmem | hpublished
        · exact hstale descriptor hmem
        · exact hpublished
      unfold Published at hpublished ⊢
      rwa [hsame]
  · constructor
    · rintro - _ _ _ _ _ (hwritten | hleft)
      · exact absurd hwritten hfault
      · exact absurd hleft hstays
    · intro _
      refine ⟨?_, fun hpresent => absurd hnone hpresent, fun _ _ _ => by rw [hrun]; exact hclean⟩
      intro _ _ _ _ hthere
      rw [hrun] at hthere
      exact absurd (hself.trans (if_neg hstays)) hthere

end

/-! ## All runs -/

/-- A publication is never visible half-written, if and only if no object is deleted behind a
manifest that stays, and the index manifest references nothing of its own that is not there. -/
theorem publish_law_iff (library : Library) (files : Files) (faults : Faults)
    (verification : Option String) (request : Request) (store : Store) :
    PublishLaw library files faults verification request store ↔
      ObjectsStay library files faults request store := by
  cases hprepare : request.prepare library files with
  | error error =>
      have hrun : publish library files faults verification request store =
          (.error error, store) := by
        unfold publish
        rw [hprepare]
      refine iff_of_true ⟨?_, fun _ => by rw [hrun], fun _ _ _ _ => by rw [hrun]⟩ ?_
      · intro _ _ hother
        rw [hprepare] at hother
        cases hother
      · intro _ _ hother
        rw [hprepare] at hother
        cases hother
  | ok prepared =>
      obtain ⟨publication, objects⟩ := prepared
      obtain ⟨data, rfl, hprepared⟩ := prepared_of_prepare hprepare
      cases hempty : (⟨request.destination, store, []⟩ : S3Writer).ensureEmpty
        ((data ++ [manifestObject library publication]).map Object.path) with
      | error error =>
          have hrun : publish library files faults verification request store =
              (.error error, store) := by
            unfold publish
            rw [hprepare]
            dsimp only
            rw [hempty]
          refine iff_of_true ⟨?_, fun _ => by rw [hrun], fun _ _ _ _ => by rw [hrun]⟩ ?_
          · intro _ _ _ habsent hthere
            rw [hrun] at hthere
            exact absurd habsent hthere
          · intro other objects hother hok
            obtain ⟨rfl, rfl⟩ := Prod.mk.inj (Except.ok.inj (hprepare.symm.trans hother))
            rw [hempty] at hok
            cases hok
      | ok =>
          rcases writes_or_fails faults files request.destination
            (data ++ [manifestObject library publication]) with
            hwrites | ⟨left, item, right, hsplit, hwrites, hfails⟩
          · exact law_iff_of_writes hprepared hprepare hempty hwrites
          · rcases List.eq_nil_or_concat right with rfl | ⟨rest, last, rfl⟩
            · obtain ⟨rfl, hlast⟩ := List.append_inj' hsplit rfl
              obtain rfl := (List.singleton_inj.mp hlast)
              exact law_iff_of_manifest_fails hprepared hprepare hempty hwrites hfails
            · have hparts : data ++ [manifestObject library publication] =
                  (left ++ item :: rest) ++ [last] := by simpa using hsplit
              obtain ⟨rfl, -⟩ := List.append_inj' hparts rfl
              have hboth := @law_and_stay_of_fails library files faults verification request store
                publication left rest item hprepared hprepare hempty hwrites hfails
              exact iff_of_true hboth.1 hboth.2

/-- An index with its centroids and one postings file, four bytes each. -/
def smallIndex : JsonValue :=
  let size : String × JsonValue := ("size", .integer 4)
  let sha256 : String × JsonValue :=
    ("sha256", .string "fbc62d3b511368ee275ddc74117d8689b430e1427220e25d30816201d89ca7b6")
  .object [
    ("artifact-uuid", .string "0d7e9c1a-5b3f-4c7e-9a1d-2f6b8c4e0a35"),
    ("format-version", .integer 1),
    ("hierarchy", .object [
      ("centroids", .object [("path", .string "centroids.parquet"), sha256, size])]),
    ("postings", .object [
      ("files", .array [.object [("path", .string "postings/part-0.parquet"), sha256, size]])])]

/-- Libraries that know the digest of those four bytes. -/
def smallLibrary : Library where
  loads := fun _ => some smallIndex
  jsonBytes := fun _ => [123, 125, 10]
  str := fun _ => ""
  repr := fun text => "'" ++ text ++ "'"
  sha256 := fun _ => "fbc62d3b511368ee275ddc74117d8689b430e1427220e25d30816201d89ca7b6"
  parquetFile := fun _ => none

def smallFiles : Files := fun path =>
  if path = ["index", "manifest.json"] then some [123, 125]
  else if path ∈ [["index", "centroids.parquet"], ["index", "postings", "part-0.parquet"]] then
    some [80, 65, 82, 49]
  else none

def smallRequest : Request where
  indexManifest := ["index", "manifest.json"]
  destination := "bucket/release"
  source := none
  sourceKey := none
  embedding := none
  modelAssets := []
  publicUrl := none
  verifyHttp := true

/-- The write of the manifest fails after it became visible, and so does its delete. -/
def lostManifest : Faults where
  write := fun key => if key = "bucket/release/manifest.json" then some .after else none
  delete := fun key => key = "bucket/release/manifest.json"

/-- The clean-up deletes the index behind a manifest that stays. -/
theorem deletedBehindManifest : ¬ PublishLaw smallLibrary smallFiles lostManifest none smallRequest
    ⟨fun _ => none, fun _ => false⟩ := by
  intro hlaw
  have hthere : (publish smallLibrary smallFiles lostManifest none smallRequest
      ⟨fun _ => none, fun _ => false⟩).2.objects smallRequest.manifestKey =
        some [123, 125, 10] := rfl
  obtain ⟨relative, bytes, hfound, hrecords⟩ := hlaw.complete smallIndex _ rfl rfl
    (by rw [hthere]; simp) _ List.mem_cons_self
  have hpath : some (JsonValue.string "centroids.parquet") = some (.string relative) :=
    hrecords.path
  obtain rfl : "centroids.parquet" = relative := by simpa using hpath
  have habsent : (publish smallLibrary smallFiles lostManifest none smallRequest
      ⟨fun _ => none, fun _ => false⟩).2.objects
      (path smallRequest.destination "centroids.parquet") = none := rfl
  rw [habsent] at hfound
  cases hfound

end ParqDB.Publish
