import ParqDB.Publish.Writers

/-!
# What a published manifest references

The descriptors of a manifest document, and how they belong to the objects that `publish`
prepares.

**Results.**  `prepared_of_prepare`: the objects are written under different paths, the
manifest last.  Each descriptor describes one of them, unless the index manifest brought a
source or an embedding of its own that the call does not replace (`staleDescriptors`), and
each object other than the manifest is described.
-/

namespace ParqDB.Publish

open Foundations

variable {library : Library} {files : Files}

/-- The items of an array inside a member. -/
def memberItems (document : JsonValue) (outer inner : String) : List JsonValue :=
  (((document.get? outer).bind (·.get? inner)).map JsonValue.items).getD []

/-- The descriptors of the index artifact. -/
def indexDescriptors (document : JsonValue) : List JsonValue :=
  ((document.get? "hierarchy").bind (·.get? "centroids")).toList ++
    memberItems document "postings" "files"

/-- The descriptors of all objects that a manifest references. -/
def descriptors (document : JsonValue) : List JsonValue :=
  indexDescriptors document ++ memberItems document "source" "files" ++
    memberItems document "embedding" "assets"

/-- The descriptors that the index manifest brought along and the call did not replace. -/
def staleDescriptors (request : Request) (document : JsonValue) : List JsonValue :=
  (if request.source.isNone then memberItems document "source" "files" else []) ++
    if request.embedding.isNone then memberItems document "embedding" "assets" else []

/-- The descriptor records a path, and the size and digest of the bytes. -/
structure Records (library : Library) (descriptor : JsonValue) (path : String) (bytes : Bytes) :
    Prop where
  path : descriptor.get? "path" = some (.string path)
  size : ∃ size, descriptor.get? "size" = some size ∧ size.equalsNat bytes.length = true
  sha256 : descriptor.get? "sha256" = some (.string (library.sha256 bytes))

/-- The descriptor describes the object. -/
def Describes (library : Library) (files : Files) (descriptor : JsonValue) (item : Object) :
    Prop :=
  ∃ bytes, item.bytes files = some bytes ∧ Records library descriptor item.path bytes

/-! ## The index artifact -/

theorem safeRelativePath_eq_ok {value relative : String}
    (hsafe : safeRelativePath library value = .ok relative) : relative = value := by
  unfold safeRelativePath at hsafe
  dsimp only at hsafe
  split at hsafe
  · cases hsafe
  · cases hsafe
    rfl

variable {key : String} {paths : List String}

theorem member_eq_ok {value found : JsonValue} :
    member value key = .ok found ↔ value.get? key = some found := by
  unfold member
  cases value.get? key <;> simp

variable {descriptor : JsonValue} {root : Path} {manifest : JsonValue}

theorem descriptorPath_eq_ok {path : String} (hpath : descriptorPath library descriptor = .ok path) :
    ∃ members, descriptor = .object members ∧ members.lookup "path" = some (.string path) := by
  cases descriptor with
  | object members =>
      simp only [descriptorPath] at hpath
      split at hpath
      · next value hlookup =>
          rw [safeRelativePath_eq_ok hpath]
          exact ⟨members, rfl, hlookup⟩
      · cases hpath
  | _ => cases hpath

theorem validateIndexObject_eq_ok {members : List (String × JsonValue)} {path : String}
    (hlookup : members.lookup "path" = some (.string path))
    (hvalid : validateIndexObject library files root (.object members) = .ok ()) :
    ∃ bytes, files (root ++ pathParts path) = some bytes ∧
      Records library (.object members) path bytes := by
  simp only [validateIndexObject, hlookup, Option.getD_some, valueText] at hvalid
  obtain ⟨relative, hrelative, hfound⟩ := bind_eq_ok.mp hvalid
  rw [safeRelativePath_eq_ok hrelative] at hfound
  split at hfound
  · cases hfound
  · next bytes hbytes =>
      obtain ⟨hsize, hdigest⟩ := rejectIf_bind_eq_ok.mp hfound
      rw [rejectIf_eq_ok, Classical.not_not, Option.any_eq_true] at hdigest
      rw [Classical.not_not, Option.any_eq_true] at hsize
      obtain ⟨digest, hdigest, hequal⟩ := hdigest
      rw [JsonValue.equalsString_iff] at hequal
      subst hequal
      exact ⟨bytes, hbytes, hlookup, hsize, hdigest⟩

theorem describes_of_validate {path : String}
    (hvalid : validateIndexObject library files root descriptor = .ok ())
    (hpath : descriptorPath library descriptor = .ok path) :
    Describes library files descriptor ⟨path, some (root ++ pathParts path), none⟩ := by
  obtain ⟨members, rfl, hlookup⟩ := descriptorPath_eq_ok hpath
  exact validateIndexObject_eq_ok hlookup hvalid

theorem referencedIndexPaths_eq_ok (hpaths : referencedIndexPaths library manifest = .ok paths) :
    ∃ hierarchy postings postingsFiles,
      manifest.get? "hierarchy" = some (.object hierarchy) ∧
      manifest.get? "postings" = some (.object postings) ∧
      postings.lookup "files" = some (.array postingsFiles) ∧
      ((hierarchy.lookup "centroids").getD .null :: postingsFiles).mapM (descriptorPath library) =
        .ok paths := by
  unfold referencedIndexPaths at hpaths
  cases hhierarchy : manifest.get? "hierarchy" with
  | none => simp [hhierarchy] at hpaths
  | some first =>
      cases hpostings : manifest.get? "postings" with
      | none => cases first <;> simp [hhierarchy, hpostings] at hpaths
      | some second =>
          rw [hhierarchy, hpostings] at hpaths
          cases first with
          | object hierarchy =>
              cases second with
              | object postings =>
                  dsimp only at hpaths
                  split at hpaths
                  · next postingsFiles hfiles =>
                      exact ⟨hierarchy, postings, postingsFiles, rfl, rfl, hfiles, hpaths⟩
                  · cases hpaths
              | _ => cases hpaths
          | _ => cases hpaths

theorem indexDescriptors_of_validate
    (hvalid : validateIndexObjects library files manifest root = .ok ())
    (hpaths : referencedIndexPaths library manifest = .ok paths) :
    (indexDescriptors manifest).mapM (descriptorPath library) = .ok paths ∧
      ∀ descriptor ∈ indexDescriptors manifest,
        validateIndexObject library files root descriptor = .ok () := by
  obtain ⟨hierarchy, postings, postingsFiles, hhierarchy, hpostings, hfiles, hpaths⟩ :=
    referencedIndexPaths_eq_ok hpaths
  unfold validateIndexObjects at hvalid
  obtain ⟨first, hfirst, hvalid⟩ := bind_eq_ok.mp hvalid
  obtain ⟨second, hsecond, hvalid⟩ := bind_eq_ok.mp hvalid
  rw [member_eq_ok, hhierarchy] at hfirst
  rw [member_eq_ok, hpostings] at hsecond
  cases hfirst
  cases hsecond
  obtain ⟨centroids, hcentroids, hvalid⟩ := bind_eq_ok.mp hvalid
  obtain ⟨listed, hlisted, hvalid⟩ := bind_eq_ok.mp hvalid
  rw [member_eq_ok] at hcentroids hlisted
  obtain rfl := Option.some.inj (hfiles.symm.trans hlisted)
  obtain ⟨items, hitems, hvalid⟩ := bind_eq_ok.mp hvalid
  cases hitems
  have hall : indexDescriptors manifest = centroids :: postingsFiles := by
    simp [indexDescriptors, memberItems, hhierarchy, hpostings, hcentroids, hlisted,
      JsonValue.items]
  rw [show hierarchy.lookup "centroids" = some centroids from hcentroids] at hpaths
  rw [hall]
  exact ⟨hpaths, forall_of_forM_eq_ok hvalid⟩

/-! ## Source and embedding -/

theorem describes_source {source : Path} {sourceKey : String}
    (hsource : sourceDescriptor library files source sourceKey manifest = .ok descriptor) :
    ∃ file, (descriptor.get? "files").map JsonValue.items = some [file] ∧
      Describes library files file ⟨source.getLastD "", some source, none⟩ := by
  unfold sourceDescriptor at hsource
  split at hsource
  · cases hsource
  · next bytes hbytes =>
      split at hsource
      · cases hsource
      · split at hsource
        · cases hsource
        · simp only [seq_eq_ok] at hsource
          obtain ⟨-, -, -, -, -, -, -, hdescriptor⟩ := hsource
          cases hdescriptor
          refine ⟨_, rfl, bytes, hbytes, rfl, ⟨_, rfl, ?_⟩, rfl⟩
          simp [JsonValue.equalsNat]

theorem describes_asset {asset : String × Path} {described : Object × JsonValue}
    (hasset : modelAsset library files asset = .ok described) :
    Describes library files described.2 described.1 := by
  unfold modelAsset at hasset
  obtain ⟨relative, -, hasset⟩ := bind_eq_ok.mp hasset
  split at hasset
  · cases hasset
  · next bytes hbytes =>
      cases hasset
      refine ⟨bytes, hbytes, rfl, ⟨_, rfl, ?_⟩, rfl⟩
      simp [JsonValue.equalsNat]

/-! ## The prepared objects -/

/-- The manifest as an object to publish. -/
def manifestObject (library : Library) (publication : JsonValue) : Object :=
  ⟨"manifest.json", none, some (library.jsonBytes publication)⟩

/-- What is known of the objects other than the manifest. -/
structure Prepared (library : Library) (files : Files) (request : Request)
    (publication : JsonValue) (data : List Object) : Prop where
  bytes : ∀ item ∈ data, item.bytes files ≠ none
  unique : ((data ++ [manifestObject library publication]).map Object.path).Nodup
  described : ∀ descriptor ∈ descriptors publication,
    descriptor ∈ staleDescriptors request publication ∨
      ∃ item ∈ data, Describes library files descriptor item
  referenced : ∀ item ∈ data, ∃ descriptor ∈ descriptors publication,
    Describes library files descriptor item

theorem setOptional_get?_ne {document : JsonValue} {other : String} (value : Option JsonValue)
    (hne : other ≠ key) : (setOptional document key value).get? other = document.get? other := by
  cases value with
  | none => rfl
  | some value => exact JsonValue.get?_set_ne hne

theorem setOptional_get?_self (document value : JsonValue) (key : String) :
    (setOptional document key (some value)).get? key = some value :=
  JsonValue.get?_set_self document value key

variable {objects : List Object}

theorem ensureUniquePaths_eq_ok {seen : List String}
    (hunique : ensureUniquePaths seen objects = .ok ()) :
    (objects.map Object.path).Nodup ∧ ∀ item ∈ objects, item.path ∉ seen := by
  induction objects generalizing seen with
  | nil => simp
  | cons item objects ih =>
      rw [ensureUniquePaths] at hunique
      split at hunique
      · cases hunique
      · next hnew =>
          obtain ⟨hnodup, hseen⟩ := ih hunique
          rw [List.map_cons, List.nodup_cons, List.forall_mem_cons]
          refine ⟨⟨?_, hnodup⟩, hnew, fun other hother hmem => ?_⟩
          · intro hmem
            obtain ⟨other, hother, heq⟩ := List.mem_map.mp hmem
            exact hseen other hother (heq ▸ List.mem_cons_self)
          · exact hseen other hother (List.mem_cons_of_mem _ hmem)

/-- The embedding member lists the assets that are published with it. -/
theorem describes_embedding {embedding described : Option JsonValue}
    {modelAssets : List (String × Path)} {assets : List Object}
    (hembedding : embeddingObjects library files embedding modelAssets = .ok (assets, described)) :
    (embedding = none ∧ assets = [] ∧ described = none) ∨
      ∃ document items, embedding.isSome = true ∧ described = some document ∧
        (document.get? "assets").map JsonValue.items = some items ∧
        List.Forall₂ (Describes library files) items assets := by
  unfold embeddingObjects at hembedding
  cases embedding with
  | none =>
      obtain ⟨-, hrest⟩ := seq_eq_ok.mp hembedding
      cases hrest
      exact Or.inl ⟨rfl, rfl, rfl⟩
  | some embedding =>
      obtain ⟨-, hrest⟩ := seq_eq_ok.mp hembedding
      obtain ⟨results, hresults, hrest⟩ := bind_eq_ok.mp hrest
      cases hrest
      refine Or.inr ⟨_, results.map Prod.snd, rfl, rfl, ?_, ?_⟩
      · rw [JsonValue.get?_set_self]
        rfl
      · rw [List.forall₂_map_left_iff, List.forall₂_map_right_iff, List.forall₂_same]
        intro result hresult
        obtain ⟨asset, -, hasset⟩ := exists_of_mem_mapM hresults hresult
        exact describes_asset hasset

variable {request : Request} {source : Option (Path × JsonValue)} {publication : JsonValue}

/-- The source and its descriptor. -/
theorem describes_describedSource
    (hsource : request.describedSource library files manifest = .ok source) :
    (request.source = none ∧ source = none) ∨
      ∃ path descriptor file, request.source.isSome = true ∧ source = some (path, descriptor) ∧
        (descriptor.get? "files").map JsonValue.items = some [file] ∧
        Describes library files file ⟨path.getLastD "", some path, none⟩ := by
  unfold Request.describedSource at hsource
  split at hsource
  · next path sourceKey hpath hkey =>
      obtain ⟨descriptor, hdescriptor, hrest⟩ := bind_eq_ok.mp hsource
      cases hrest
      obtain ⟨file, hfile, hdescribes⟩ := describes_source hdescriptor
      exact Or.inr ⟨path, descriptor, file, by simp [hpath], rfl, hfile, hdescribes⟩
  · next hpath hkey =>
      cases hsource
      exact Or.inl ⟨hpath, rfl⟩
  · cases hsource

theorem exists_of_forall₂ {α β : Type*} {related : α → β → Prop} {firsts : List α}
    {seconds : List β} (hall : List.Forall₂ related firsts seconds) :
    ∀ first ∈ firsts, ∃ second ∈ seconds, related first second := by
  induction hall with
  | nil => simp
  | cons hhead _ ih =>
      rw [List.forall_mem_cons]
      refine ⟨⟨_, List.mem_cons_self, hhead⟩, fun first hfirst => ?_⟩
      obtain ⟨second, hsecond, hrelated⟩ := ih first hfirst
      exact ⟨second, List.mem_cons_of_mem _ hsecond, hrelated⟩

/-- The descriptors of each part describe the objects of that part, in order. -/
theorem parts_described {data : List Object}
    (hsource : request.describedSource library files manifest = .ok source)
    (hparts : publicationParts library files request.indexManifest manifest source
      request.embedding request.modelAssets = .ok (publication, data)) :
    ∃ index sources assets, data = index ++ sources ++ assets ∧
      List.Forall₂ (Describes library files) (indexDescriptors publication) index ∧
      (request.source = none ∧ sources = [] ∨ request.source.isSome = true ∧
        List.Forall₂ (Describes library files) (memberItems publication "source" "files")
          sources) ∧
      (request.embedding = none ∧ assets = [] ∨ request.embedding.isSome = true ∧
        List.Forall₂ (Describes library files) (memberItems publication "embedding" "assets")
          assets) := by
  unfold publicationParts at hparts
  obtain ⟨hvalid, hparts⟩ := seq_eq_ok.mp hparts
  obtain ⟨paths, hpaths, hparts⟩ := bind_eq_ok.mp hparts
  obtain ⟨⟨assets, described⟩, hembedding, hparts⟩ := bind_eq_ok.mp hparts
  cases hparts
  obtain ⟨hmap, hvalid⟩ := indexDescriptors_of_validate hvalid hpaths
  refine ⟨_, _, _, rfl, ?_, ?_, ?_⟩
  · -- the members that are set are not those of the index artifact
    have hsame : indexDescriptors (setOptional (setOptional manifest "source"
        (source.map Prod.snd)) "embedding" described) = indexDescriptors manifest := by
      unfold indexDescriptors memberItems
      simp [setOptional_get?_ne]
    rw [hsame, List.forall₂_map_right_iff]
    have hboth := (List.forall₂_and_left _ _).mpr ⟨hvalid, mapM_eq_ok.mp hmap⟩
    exact hboth.imp fun descriptor path hpath => describes_of_validate hpath.1 hpath.2
  · rcases describes_describedSource hsource with ⟨hnone, rfl⟩ |
      ⟨path, descriptor, file, hsome, rfl, hfile, hdescribes⟩
    · exact Or.inl ⟨hnone, rfl⟩
    · refine Or.inr ⟨hsome, ?_⟩
      have hitems : memberItems (setOptional (setOptional manifest "source" (some descriptor))
          "embedding" described) "source" "files" = [file] := by
        unfold memberItems
        rw [setOptional_get?_ne _ (by decide), setOptional_get?_self, Option.bind_some, hfile]
        rfl
      rw [Option.map_some, hitems]
      exact List.Forall₂.cons hdescribes List.Forall₂.nil
  · rcases describes_embedding hembedding with ⟨hnone, rfl, rfl⟩ |
      ⟨document, items, hsome, rfl, hitems, hall⟩
    · exact Or.inl ⟨hnone, rfl⟩
    · refine Or.inr ⟨hsome, ?_⟩
      have hmember : memberItems (setOptional (setOptional manifest "source"
          (source.map Prod.snd)) "embedding" (some document)) "embedding" "assets" = items := by
        unfold memberItems
        rw [setOptional_get?_self, Option.bind_some, hitems]
        rfl
      rwa [hmember]

theorem prepared_of_prepare (hprepare : request.prepare library files = .ok (publication, objects)) :
    ∃ data, objects = data ++ [manifestObject library publication] ∧
      Prepared library files request publication data := by
  unfold Request.prepare at hprepare
  obtain ⟨manifest, -, hprepare⟩ := bind_eq_ok.mp hprepare
  obtain ⟨source, hsource, hprepare⟩ := bind_eq_ok.mp hprepare
  obtain ⟨⟨document, items⟩, hobjects, hprepare⟩ := bind_eq_ok.mp hprepare
  obtain ⟨hunique, hprepare⟩ := seq_eq_ok.mp hprepare
  cases hprepare
  unfold publicationObjects at hobjects
  obtain ⟨⟨document, data⟩, hparts, hobjects⟩ := bind_eq_ok.mp hobjects
  obtain ⟨hbytes, hobjects⟩ := seq_eq_ok.mp hobjects
  cases hobjects
  have hbytes := forall_of_forM_eq_ok hbytes
  simp only [rejectIf_eq_ok] at hbytes
  obtain ⟨index, sources, assets, rfl, hindex, hsources, hassets⟩ := parts_described hsource hparts
  refine ⟨_, rfl, fun item hitem => hbytes item (List.mem_append_left _ hitem),
    (ensureUniquePaths_eq_ok hunique).1, ?_, ?_⟩
  · intro descriptor hdescriptor
    unfold descriptors at hdescriptor
    simp only [List.mem_append] at hdescriptor ⊢
    rcases hdescriptor with (hdescriptor | hdescriptor) | hdescriptor
    · obtain ⟨item, hitem, hdescribes⟩ := exists_of_forall₂ hindex descriptor hdescriptor
      exact Or.inr ⟨item, Or.inl (Or.inl hitem), hdescribes⟩
    · rcases hsources with ⟨hnone, -⟩ | ⟨-, hsources⟩
      · left
        simp [staleDescriptors, hnone, hdescriptor]
      · obtain ⟨item, hitem, hdescribes⟩ := exists_of_forall₂ hsources descriptor hdescriptor
        exact Or.inr ⟨item, Or.inl (Or.inr hitem), hdescribes⟩
    · rcases hassets with ⟨hnone, -⟩ | ⟨-, hassets⟩
      · left
        simp [staleDescriptors, hnone, hdescriptor]
      · obtain ⟨item, hitem, hdescribes⟩ := exists_of_forall₂ hassets descriptor hdescriptor
        exact Or.inr ⟨item, Or.inr hitem, hdescribes⟩
  · intro item hitem
    unfold descriptors
    simp only [List.mem_append] at hitem ⊢
    rcases hitem with (hitem | hitem) | hitem
    · obtain ⟨descriptor, hmem, hdescribes⟩ := exists_of_forall₂ hindex.flip item hitem
      exact ⟨descriptor, Or.inl (Or.inl hmem), hdescribes⟩
    · rcases hsources with ⟨-, rfl⟩ | ⟨-, hsources⟩
      · cases hitem
      · obtain ⟨descriptor, hmem, hdescribes⟩ := exists_of_forall₂ hsources.flip item hitem
        exact ⟨descriptor, Or.inl (Or.inr hmem), hdescribes⟩
    · rcases hassets with ⟨-, rfl⟩ | ⟨-, hassets⟩
      · cases hitem
      · obtain ⟨descriptor, hmem, hdescribes⟩ := exists_of_forall₂ hassets.flip item hitem
        exact ⟨descriptor, Or.inr hmem, hdescribes⟩

end ParqDB.Publish
