import ParqDB.Transport.Rounds

/-!
# Chunk borders do not matter

**Strategy.** With room for the whole stream the native decoder follows it (`Follows`), whatever
the chunks: this is an invariant of its calls (`steady_follows`), so that the rounds settle.

**Results.** `transport_ignores_chunking`: whatever chunks the bytes of the encoder are cut into,
the decoder yields the schema and the batches and then ends.  If the bytes end inside of a frame,
it raises.
-/

namespace ParqDB.Transport

open Foundations

variable {Schema Batch Writer Decoder : Type} {arrow : ArrowIpc Schema Batch Writer Decoder}
  {schema : Schema} {batches : List Batch} {frames : List Bytes} {read target : Bytes}
  {yielded delivered : List Batch}

/-- What ends inside of a frame is not the whole stream. -/
theorem CutsFrame.ne_flatten (hcuts : CutsFrame frames target) : target ≠ frames.flatten := by
  obtain ⟨before, frame, after, kept, rfl, hkept, -, hne, rfl⟩ := hcuts
  intro heq
  have hshorter : kept.length < frame.length :=
    Nat.lt_of_le_of_ne hkept.length_le fun hlength => hne (hkept.eq_of_length hlength)
  have hlength := congrArg List.length heq
  simp only [List.flatten_append, List.flatten_cons, List.length_append] at hlength
  omega

/-! ## Decoding -/

/-- A stream has bytes, since arrow's decoder finds the schema in them. -/
theorem ArrowIpc.Inverse.length_pos (hinverse : arrow.Inverse schema batches frames) :
    0 < frames.flatten.length := by
  apply List.length_pos_of_ne_nil
  intro hempty
  have hreads : arrow.Reads frames.flatten arrow.newDecoder frames.flatten [] := by
    have hnew : arrow.Reads frames.flatten arrow.newDecoder [] [] := ArrowIpc.Reads.new
    rwa [← hempty] at hnew
  have hsome := (hinverse.complete hreads).1
  rw [hinverse.fresh] at hsome
  cases hsome

/-- Calls of the native decoder follow the stream. -/
theorem steady_follows (hinverse : arrow.Inverse schema batches frames)
    (htarget : target = frames.flatten ∨ CutsFrame frames target) :
    Steady arrow schema target batches.length (CutsFrame frames target)
      (fun yielded => target = frames.flatten ∧ yielded = batches)
      (fun read yielded _ self => Follows arrow frames read yielded self) where
  pending_ne hfollows := hfollows.pending_ne
  unfinished hfollows := hfollows.unfinished
  yielded_le hfollows := (hinverse.yields hfollows.reads).length_le
  skip hfollows _ := hfollows
  take := by
    intro read yielded chunk source self hfollows _ hchunk hprefix
    have hwhole : target <+: frames.flatten := by
      rcases htarget with hwhole | hcut
      · exact ⟨[], by rw [List.append_nil, hwhole]⟩
      · exact hcut.isPrefix
    exact ⟨hfollows.reads, hprefix.trans hwhole, fun hsome => hchunk (Option.some.inj hsome),
      hfollows.emitted, hfollows.boundary, hfollows.room, hfollows.unfinished⟩
  window hfollows hpending := .inr (hfollows.window hinverse hpending)
  finish := by
    intro yielded self hfollows _
    rcases htarget with hwhole | hcut
    · right
      have hreads := hfollows.reads
      rw [hwhole] at hreads
      obtain ⟨hschema, hyielded, hok⟩ := hinverse.complete hreads
      exact ⟨⟨hwhole, hyielded⟩, hfollows.emitted (by rw [hschema]; rfl), hok⟩
    · exact .inl ⟨hcut, hinverse.truncated hfollows.reads hcut⟩

variable [DecidableEq Schema] {maxFrameBytes : ℕ} {chunks : List Bytes}

/-- All bytes of a stream are decoded, and bytes that end inside of a frame are not, in any
chunks. -/
theorem decode_chunks (hinverse : arrow.Inverse schema batches frames)
    (hroom : frames.flatten.length ≤ maxFrameBytes)
    (hchunks : chunks.flatten = frames.flatten ∨ CutsFrame frames chunks.flatten) :
    (CutsFrame frames chunks.flatten ∧ ∃ least message, ∀ fuel ≥ least,
        decodeIpcStream arrow chunks maxFrameBytes fuel = .error (.raised message)) ∨
      (chunks.flatten = frames.flatten ∧ ∃ least, ∀ fuel ≥ least,
        decodeIpcStream arrow chunks maxFrameBytes fuel = .ok (schema, batches)) := by
  have hpositive : 0 < maxFrameBytes := Nat.lt_of_lt_of_le hinverse.length_pos hroom
  have hstart : Follows arrow frames [] [] (startOf arrow maxFrameBytes chunks).decoder := by
    refine ⟨ArrowIpc.Reads.new, List.nil_prefix, ?_, ?_, Nat.le_refl 0, hroom, rfl⟩
    · intro hnone
      cases hnone
    · intro hsome
      have hfresh : (arrow.schema? arrow.newDecoder).isSome = true := hsome
      rw [hinverse.fresh] at hfresh
      cases hfresh
  rcases (steady_follows hinverse hchunks).decode hpositive hstart with
    hcut | ⟨found, ⟨hwhole, rfl⟩, hdecode⟩
  · exact .inl hcut
  · exact .inr ⟨hwhole, hdecode⟩

/-- The transport does not depend on chunks.  The encoder sends chunks that are not empty and not
too long.  The decoder yields the schema and the batches for every other split of their bytes,
and it fails if the bytes end inside of a frame. -/
theorem transport_ignores_chunking (arrow : ArrowIpc Schema Batch Writer Decoder)
    {schema : Schema} {batches : List Batch} {frames : List Bytes} {maxChunkBytes : ℕ}
    (hbatches : ∀ batch ∈ batches, arrow.schemaOf batch = schema)
    (hwritten : arrow.writeStream schema batches = .ok frames)
    (hinverse : arrow.Inverse schema batches frames) (hchunk : 1 ≤ maxChunkBytes) :
    ∃ sent, (∃ least, ∀ fuel ≥ least,
        encodeIpcStream arrow schema batches maxChunkBytes fuel = .ok sent) ∧
      sent.flatten = frames.flatten ∧
      (∀ chunk ∈ sent, chunk ≠ [] ∧ chunk.length ≤ maxChunkBytes) ∧
      ∀ maxFrameBytes, sent.flatten.length ≤ maxFrameBytes → ∀ chunks : List Bytes,
        (chunks.flatten = sent.flatten → ∃ least, ∀ fuel ≥ least,
          decodeIpcStream arrow chunks maxFrameBytes fuel = .ok (schema, batches)) ∧
        (CutsFrame frames chunks.flatten → ∃ least message, ∀ fuel ≥ least,
          decodeIpcStream arrow chunks maxFrameBytes fuel = .error (.raised message)) := by
  obtain ⟨sent, hsent, hflatten, hsizes⟩ := encode_spec hchunk hbatches hwritten
  refine ⟨sent, hsent, hflatten, hsizes, fun maxFrameBytes hroom chunks => ⟨?_, ?_⟩⟩
  · intro hsplit
    rcases decode_chunks hinverse (hflatten ▸ hroom) (.inl (hsplit.trans hflatten)) with
      ⟨hcut, -⟩ | ⟨-, hdecode⟩
    · exact absurd (hsplit.trans hflatten) hcut.ne_flatten
    · exact hdecode
  · intro hcut
    rcases decode_chunks hinverse (hflatten ▸ hroom) (.inr hcut) with ⟨-, hraised⟩ | ⟨hwhole, -⟩
    · exact hraised
    · exact absurd hwhole hcut.ne_flatten

/-! ## A small format

A frame is a mark and one byte, and a stream ends with the mark zero.
-/

structure MarkedDecoder where
  schema : Option UInt8
  marked : Bool
  finished : Bool
  deriving DecidableEq

def MarkedDecoder.decode (decoder : MarkedDecoder) :
    Bytes → Except String (MarkedDecoder × Option UInt8 × Bytes)
  | [] => .ok (decoder, none, [])
  | byte :: rest =>
      if decoder.finished then .error "Unexpected EOS"
      else if !decoder.marked then
        if byte = 0 then ({ decoder with finished := true } : MarkedDecoder).decode rest
        else ({ decoder with marked := true } : MarkedDecoder).decode rest
      else
        match decoder.schema with
        | none => ({ decoder with schema := some byte, marked := false } : MarkedDecoder).decode rest
        | some _ => .ok ({ decoder with marked := false }, some byte, rest)

def markedIpc : ArrowIpc UInt8 UInt8 Unit MarkedDecoder where
  schemaOf _ := 7
  tryNew schema := .ok ((), [[1, schema]])
  write _ batch := .ok ((), [[1, batch]])
  finish _ := .ok ((), [[0]])
  newDecoder := ⟨none, false, false⟩
  schema? decoder := decoder.schema
  decode := MarkedDecoder.decode
  finishDecoder decoder := if decoder.marked then .error "Unexpected End of Stream" else .ok ()

/-- The decoder and its batches after so many bytes of a stream with the batch 5. -/
def markedAt : ℕ → MarkedDecoder × List UInt8
  | 0 => (⟨none, false, false⟩, [])
  | 1 => (⟨none, true, false⟩, [])
  | 2 => (⟨some 7, false, false⟩, [])
  | 3 => (⟨some 7, true, false⟩, [])
  | 4 => (⟨some 7, false, false⟩, [5])
  | _ => (⟨some 7, false, true⟩, [5])

def markedFrames : List Bytes :=
  [[1, 7], [1, 5], [0]]

def markedWindow (start count : ℕ) : Bytes :=
  (markedFrames.flatten.drop start).take count

/-- What one call makes of so many bytes: it stops after the batch, at the fourth byte. -/
def markedCall (start count : ℕ) : ℕ × Option UInt8 :=
  if start < 4 ∧ 4 ≤ start + count then (4 - start, some 5) else (count, none)

def markedUsed (start count : ℕ) : Bytes :=
  (markedWindow start count).take (markedCall start count).1

def markedLeft (start count : ℕ) : Bytes :=
  (markedWindow start count).drop (markedCall start count).1

/-- A call leads from one place of the stream to a later one. -/
def MarkedStep (start count : ℕ) : Prop :=
  markedIpc.decode (markedAt start).1 (markedWindow start count) =
      .ok ((markedAt (start + (markedUsed start count).length)).1, (markedCall start count).2,
        markedLeft start count) ∧
    markedFrames.flatten.take (start + (markedUsed start count).length) =
      markedFrames.flatten.take start ++ markedUsed start count ∧
    (markedAt (start + (markedUsed start count).length)).2 =
      (markedAt start).2 ++ (markedCall start count).2.toList ∧
    start + (markedUsed start count).length ≤ 5 ∧
    ((markedCall start count).2 = none → markedLeft start count = [])

instance (start count : ℕ) : Decidable (MarkedStep start count) :=
  inferInstanceAs (Decidable (_ ∧ _))

theorem markedStep : ∀ start < 5, ∀ count < 6, 0 < count → start + count ≤ 5 →
    MarkedStep start count := by
  decide

variable {start : ℕ}

/-- One call along the stream. -/
theorem decode_window {window : Bytes} (hwindow : window ≠ [])
    (hstream : markedFrames.flatten.take start ++ window <+: markedFrames.flatten)
    (hstart : start ≤ 5) :
    ∃ used left batch, used ++ left = window ∧
      markedIpc.decode (markedAt start).1 window =
        .ok ((markedAt (start + used.length)).1, batch, left) ∧
      markedFrames.flatten.take (start + used.length) = markedFrames.flatten.take start ++ used ∧
      (markedAt (start + used.length)).2 = (markedAt start).2 ++ batch.toList ∧
      start + used.length ≤ 5 ∧ (batch = none → left = []) := by
  have hlength := hstream.length_le
  have hpositive := List.length_pos_of_ne_nil hwindow
  have htake : (markedFrames.flatten.take start).length = start := by
    rw [List.length_take]
    exact Nat.min_eq_left hstart
  have hwhole : markedFrames.flatten.length = 5 := rfl
  rw [List.length_append, htake, hwhole] at hlength
  have heq : markedWindow start window.length = window := by
    obtain ⟨rest, hrest⟩ := hstream
    have hdrop := congrArg (List.drop start) hrest
    rw [List.append_assoc, List.drop_append_of_le_length (Nat.le_of_eq htake.symm),
      List.drop_of_length_le (Nat.le_of_eq htake), List.nil_append] at hdrop
    rw [markedWindow, ← hdrop, List.take_left]
  have hcall := markedStep start (by omega) window.length (by omega) hpositive (by omega)
  have hsplit : markedUsed start window.length ++ markedLeft start window.length = window := by
    rw [markedUsed, markedLeft, List.take_append_drop, heq]
  rw [MarkedStep, heq] at hcall
  exact ⟨_, _, _, hsplit, hcall⟩

theorem reads_marked {decoder : MarkedDecoder} {yielded : Bytes}
    (hreads : markedIpc.Reads markedFrames.flatten decoder read yielded) :
    ∃ start ≤ 5, read = markedFrames.flatten.take start ∧ (decoder, yielded) = markedAt start := by
  induction hreads with
  | new => exact ⟨0, by omega, rfl, rfl⟩
  | @decode decoder decoder' read window used left yielded batch hreads hwindow hstream hdecode
      hused ih =>
      obtain ⟨start, hstart, rfl, hat⟩ := ih
      obtain ⟨used', left', batch', hsplit, hcall, hread, hyields, hend, -⟩ :=
        decode_window hwindow hstream hstart
      rw [← hat] at hcall hyields
      dsimp only at hcall hyields
      rw [hdecode] at hcall
      cases hcall
      have hsame : used = used' := List.append_cancel_right (hused.trans hsplit.symm)
      subst hsame
      exact ⟨start + used.length, hend, hread.symm, by rw [← hyields]⟩

theorem cutsFrame_marked (hstart : start ≤ 5)
    (hcut : CutsFrame markedFrames (markedFrames.flatten.take start)) : start = 1 ∨ start = 3 := by
  obtain ⟨before, frame, after, kept, hframes, hkept, hne, hne', hread⟩ := hcut
  have hlength := congrArg List.length hread
  have hwhole : markedFrames.flatten.length = 5 := rfl
  have hpositive := List.length_pos_of_ne_nil hne
  have hshorter : kept.length < frame.length :=
    Nat.lt_of_le_of_ne hkept.length_le fun heq => hne' (hkept.eq_of_length heq)
  rw [List.length_take, hwhole, List.length_append] at hlength
  unfold markedFrames at hframes
  rcases before with _ | ⟨first, _ | ⟨second, _ | ⟨third, before⟩⟩⟩
  · cases hframes
    simp only [List.flatten_nil, List.length_nil, List.length_cons] at hlength hshorter
    omega
  · cases hframes
    simp only [List.flatten_cons, List.flatten_nil, List.append_nil, List.length_nil,
      List.length_cons] at hlength hshorter
    omega
  · cases hframes
    simp only [List.length_nil, List.length_cons] at hshorter
    omega
  · cases before with
    | nil => cases hframes
    | cons fourth before => cases hframes

theorem inverse_marked : markedIpc.Inverse 7 [5] markedFrames where
  fresh := rfl
  decodes := by
    intro decoder read yielded window hreads hwindow hstream
    obtain ⟨start, hstart, rfl, hat⟩ := reads_marked hreads
    obtain ⟨used, left, batch, hsplit, hcall, -, -, -, hnone⟩ :=
      decode_window hwindow hstream hstart
    rw [← hat] at hcall
    exact ⟨_, batch, used, left, hcall, hsplit, hnone⟩
  schema_eq := by
    intro decoder read yielded found hreads hfound
    obtain ⟨start, hstart, rfl, hat⟩ := reads_marked hreads
    have hschema : ∀ start ≤ 5, (markedAt start).1.schema.all (· == 7) := by decide
    have hseven := hschema start hstart
    have hemitted : decoder.schema = some found := hfound
    rw [← hat, hemitted, Option.all_some] at hseven
    exact beq_iff_eq.mp hseven
  yields := by
    intro decoder read yielded hreads
    obtain ⟨start, hstart, rfl, hat⟩ := reads_marked hreads
    have hyields : ∀ start ≤ 5, (markedAt start).2 <+: [5] := by decide
    have hstarts := hyields start hstart
    rwa [← hat] at hstarts
  complete := by
    intro decoder yielded hreads
    obtain ⟨start, hstart, hread, hat⟩ := reads_marked hreads
    have hlength := congrArg List.length hread
    have hwhole : markedFrames.flatten.length = 5 := rfl
    rw [List.length_take, hwhole] at hlength
    obtain rfl : start = 5 := by omega
    cases hat
    exact ⟨rfl, rfl, rfl⟩
  truncated := by
    intro decoder read yielded hreads hcut
    obtain ⟨start, hstart, rfl, hat⟩ := reads_marked hreads
    rcases cutsFrame_marked hstart hcut with rfl | rfl
    · cases hat
      exact ⟨_, rfl⟩
    · cases hat
      exact ⟨_, rfl⟩

/-- A stream with one batch, in chunks of two bytes. -/
theorem marked_transport_ignores_chunking :
    ∃ sent, (∃ least, ∀ fuel ≥ least, encodeIpcStream markedIpc 7 [5] 2 fuel = .ok sent) ∧
      sent.flatten = markedFrames.flatten ∧ (∀ chunk ∈ sent, chunk ≠ [] ∧ chunk.length ≤ 2) ∧
      ∀ maxFrameBytes, sent.flatten.length ≤ maxFrameBytes → ∀ chunks : List Bytes,
        (chunks.flatten = sent.flatten → ∃ least, ∀ fuel ≥ least,
          decodeIpcStream markedIpc chunks maxFrameBytes fuel = .ok (7, [5])) ∧
        (CutsFrame markedFrames chunks.flatten → ∃ least message, ∀ fuel ≥ least,
          decodeIpcStream markedIpc chunks maxFrameBytes fuel = .error (.raised message)) :=
  transport_ignores_chunking markedIpc (fun _ _ => rfl) rfl inverse_marked (by decide)

example : decodeIpcStream markedIpc [[1], [], [7, 1, 5], [0]] 5 9 = .ok (7, [5]) := by
  decide +kernel

end ParqDB.Transport
