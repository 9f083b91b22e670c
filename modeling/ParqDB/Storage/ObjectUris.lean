import ParqDB.Storage.WildcardMatches

/-!
# The paths of objects

An object path is a text of nonempty segments between slashes, none of which is a dot segment
(`IsPath`).  `utf8Crate` is an object-store crate as it is documented: it reads the path of a URL
as the text that its escapes stand for.
-/

namespace ParqDB.Storage.Addressing

open Foundations Foundations.Whatwg

/-! ## Cases of letters -/

theorem toLower_cases (c : Char) :
    c.toLower = c ∨ (65 ≤ c.toNat ∧ c.toNat ≤ 90) ∧ c.toLower.toNat = c.toNat + 32 := by
  delta Char.toLower
  split
  · next hupper =>
      refine .inr ⟨hupper, ?_⟩
      have hle : c.toNat ≤ 90 := hupper.2
      have hsum : (c.val + ('a'.val - 'A'.val)).toNat = (c.val.toNat + 32) % 2 ^ 32 :=
        UInt32.toNat_add _ _
      show (c.val + ('a'.val - 'A'.val)).toNat = c.val.toNat + 32
      rw [hsum, Nat.mod_eq_of_lt]
      have hval : c.val.toNat ≤ 90 := hle
      omega
  · exact .inl rfl

/-! ## Object paths -/

theorem splitOn_slash (text : Text) : text.splitOn '/' = text.splitOnP (isSlash false) := by
  rw [List.splitOn]
  congr 1
  funext c
  rw [isSlash, Bool.false_and, Bool.or_false]
  exact Bool.eq_iff_iff.mpr (by simp)

theorem segmentsText_splitOn (text : Text) : segmentsText (text.splitOn '/') = '/' :: text := by
  rw [splitOn_slash]
  induction text with
  | nil => rfl
  | cons c rest ih =>
      obtain ⟨head, tail, hsplit⟩ := List.exists_cons_of_ne_nil
        (show rest.splitOnP (isSlash false) ≠ [] by simp)
      rw [List.splitOnP_cons_eq_if_modifyHead]
      rw [hsplit] at ih ⊢
      split
      · next hc =>
          have hslash : c = '/' := by simpa [isSlash] using hc
          rw [segmentsText_cons, ih, hslash]
          rfl
      · rw [List.modifyHead_cons, segmentsText_cons]
        rw [segmentsText_cons, List.cons.injEq] at ih
        rw [List.cons_append, ih.2]

theorem slashFree_splitOn (text : Text) : SlashFree (text.splitOn '/') := by
  intro segment hsegment hslash
  rw [splitOn_slash] at hsegment
  have hfree := forall_mem_splitOnP segment hsegment '/' hslash
  exact absurd hfree (by decide)

theorem splitOn_append_slash (left right : Text) :
    (left ++ '/' :: right).splitOn '/' = left.splitOn '/' ++ right.splitOn '/' := by
  refine segmentsText_injective (slashFree_splitOn _) ?_ ?_
  · intro segment hsegment
    rcases List.mem_append.mp hsegment with hsegment | hsegment
    · exact slashFree_splitOn left segment hsegment
    · exact slashFree_splitOn right segment hsegment
  · rw [segmentsText_append, segmentsText_splitOn, segmentsText_splitOn, segmentsText_splitOn]
    simp

/-- A nonempty path of valid segments. -/
def IsPath (path : Text) : Prop := ∀ part ∈ path.splitOn '/', validPart part = true

theorem validPart_bounds {part : Text} (hvalid : validPart part = true) :
    part ≠ [] ∧ part ≠ ['.'] ∧ part ≠ ['.', '.'] ∧
      ∀ c ∈ part, c ≠ '/' ∧ 0x20 ≤ c.toNat ∧ c.toNat ≠ 0x7F := by
  simp only [validPart, Bool.and_eq_true, Bool.not_eq_true', List.isEmpty_eq_false_iff,
    decide_eq_true_eq, List.all_eq_true] at hvalid
  obtain ⟨⟨⟨hnonempty, hdot⟩, hdots⟩, hchars⟩ := hvalid
  exact ⟨hnonempty, hdot, hdots, fun c hc => ⟨(hchars c hc).1.1, (hchars c hc).1.2, (hchars c hc).2⟩⟩

theorem isPath_of_validPath {path : Text} (hvalid : validPath path = true) (hne : path ≠ []) :
    IsPath path := by
  rw [validPath, Bool.or_eq_true, List.isEmpty_iff, List.all_eq_true] at hvalid
  exact hvalid.resolve_left hne

theorem validPath_of_parsePath {text path : Text} (hparse : parsePath text = some path) :
    validPath path = true := by
  unfold parsePath at hparse
  dsimp only at hparse
  split at hparse
  · cases hparse
    rfl
  · split at hparse
    · next hall =>
        cases hparse
        rw [validPath, hall, Bool.or_true]
    · cases hparse

/-! ## A path type as it is documented -/

/-- An object-store crate as it is documented. -/
def utf8Crate : ObjectStoreCrate where
  fromUrlPath path :=
    let decoded := decodeReplace (percentBytes path)
    if utf8Bytes decoded = percentBytes path then
      match parsePath decoded with
      | some object => .ok object
      | none => .error "invalid path".toList
    else .error "invalid UTF-8".toList

theorem documented_utf8Crate : utf8Crate.Documented := by
  intro path object
  simp only [utf8Crate]
  constructor
  · intro hread
    split at hread
    · next hbytes =>
        split at hread
        · next other hparse =>
            cases hread
            exact ⟨_, hbytes.symm, hparse⟩
        · cases hread
    · cases hread
  · rintro ⟨decoded, hbytes, hparse⟩
    rw [hbytes, decodeReplace_utf8Bytes, if_pos rfl, hparse]

end ParqDB.Storage.Addressing
