import ParqDB.Transport.ArrowIpc

/-!
# The Arrow IPC decoder

`_IpcDecoder` of the extension (`src/ipc.rs`), which stops after each batch and keeps what is left
of its input, and `_DecodedIpcStream` over it (`transport/ipc.py`), which drains it before it takes
the next chunk.

**Results.**

* `Follows.window`: a call of arrow's decoder uses up the input or yields a batch, and stays on the
  stream.
* `accept_spec`: what a round of the Python loops does with what the native decoder returns.
-/

namespace ParqDB.Transport

open Foundations

variable {Schema Batch Writer Decoder : Type}

/-! ## The native decoder -/

def frameTooLarge : String :=
  "Arrow IPC frame exceeds the configured max_frame_bytes"

/-- `_IpcDecoder`. -/
structure PyIpcDecoder (Decoder : Type) where
  decoder : Decoder
  maxFrameBytes : ℕ
  bytesSinceBoundary : ℕ
  pending : Option Bytes
  schemaEmitted : Bool
  finished : Bool

/-- What `push` returns: a schema, a batch and whether there is input left. -/
structure DecodedChunk (Schema Batch : Type) where
  schema : Option Schema
  batch : Option Batch
  hasBufferedInput : Bool

namespace PyIpcDecoder

def new (arrow : ArrowIpc Schema Batch Writer Decoder) (maxFrameBytes : ℕ) :
    Except String (PyIpcDecoder Decoder) := do
  validatePositive maxFrameBytes "max_frame_bytes"
  .ok ⟨arrow.newDecoder, maxFrameBytes, 0, none, false, false⟩

/-- The decoder after a call of arrow's that has used `consumed` bytes of `input`. -/
def advance (arrow : ArrowIpc Schema Batch Writer Decoder) (self : PyIpcDecoder Decoder)
    (decoder : Decoder) (batch : Option Batch) (input : Bytes) (consumed : ℕ) :
    PyIpcDecoder Decoder :=
  let announced := (arrow.schema? self.decoder).isNone && (arrow.schema? decoder).isSome
  { self with
    decoder
    pending := if input.drop consumed = [] then none else some (input.drop consumed)
    bytesSinceBoundary :=
      if announced || batch.isSome then 0 else self.bytesSinceBoundary + consumed
    schemaEmitted := self.schemaEmitted || announced }

/-- The schema that a call of arrow's announces, once. -/
def announce (arrow : ArrowIpc Schema Batch Writer Decoder) (self : PyIpcDecoder Decoder)
    (decoder : Decoder) (schema : Option Schema) : Option Schema :=
  if (arrow.schema? self.decoder).isNone && (arrow.schema? decoder).isSome &&
      !self.schemaEmitted then
    arrow.schema? decoder
  else schema

/-- The loop of `decode_next`. -/
def decodeLoop (arrow : ArrowIpc Schema Batch Writer Decoder) (self : PyIpcDecoder Decoder)
    (schema : Option Schema) :
    Except String (PyIpcDecoder Decoder × DecodedChunk Schema Batch) :=
  match _ : self.pending with
  | none => .ok (self, ⟨schema, none, false⟩)
  | some input =>
      -- `checked_sub` fails, or nothing remains.
      if self.maxFrameBytes ≤ self.bytesSinceBoundary then .error frameTooLarge
      else
        let take := min (self.maxFrameBytes - self.bytesSinceBoundary) input.length
        match arrow.decode self.decoder (input.take take) with
        | .error error => .error error
        | .ok (decoder, batch, window) =>
            let consumed := take - window.length
            let next := self.advance arrow decoder batch input consumed
            let schema := self.announce arrow decoder schema
            match batch with
            | some batch => .ok (next, ⟨schema, some batch, next.pending.isSome⟩)
            | none =>
                if _ : consumed = 0 then .error "Arrow IPC decoder made no progress"
                else decodeLoop arrow next schema
termination_by (self.pending.getD []).length
decreasing_by
  simp only [advance]
  split <;> grind

def decodeNext (arrow : ArrowIpc Schema Batch Writer Decoder) (self : PyIpcDecoder Decoder)
    (chunk : Bytes) : Except String (PyIpcDecoder Decoder × DecodedChunk Schema Batch) := do
  if chunk = [] then self.decodeLoop arrow none
  else do
    rejectIf (self.pending.isSome = true)
      "buffered Arrow IPC input must be drained before pushing another chunk"
    ({ self with pending := some chunk } : PyIpcDecoder Decoder).decodeLoop arrow none

def push (arrow : ArrowIpc Schema Batch Writer Decoder) (self : PyIpcDecoder Decoder)
    (chunk : Bytes) : Except String (PyIpcDecoder Decoder × DecodedChunk Schema Batch) := do
  rejectIf (self.finished = true) "Arrow IPC decoder is finished"
  (self.decodeNext arrow chunk).mapError ipcError

def finish (arrow : ArrowIpc Schema Batch Writer Decoder) (self : PyIpcDecoder Decoder) :
    Except String (PyIpcDecoder Decoder) :=
  if self.finished then .ok self
  else do
    rejectIf (self.pending.isSome = true) "Arrow IPC decoder has unconsumed input"
    (arrow.finishDecoder self.decoder).mapError ipcError
    .ok { self with finished := true }

end PyIpcDecoder

/-! ## The stream of batches -/

/-- `_DecodedIpcStream`.  `source` has the chunks that are still to come. -/
structure DecodedIpcStream (Schema Batch Decoder : Type) where
  source : List Bytes
  decoder : PyIpcDecoder Decoder
  schema : Option Schema
  pending : List Batch
  decoderBuffered : Bool
  inputFinished : Bool
  closed : Bool

namespace DecodedIpcStream

variable [DecidableEq Schema]

/-- What `_read_next_chunk` does with what `push` returns. -/
def accept (self : DecodedIpcStream Schema Batch Decoder) (decoder : PyIpcDecoder Decoder)
    (decoded : DecodedChunk Schema Batch) : Except String (DecodedIpcStream Schema Batch Decoder) :=
  let self := { self with
    decoder
    decoderBuffered := decoded.hasBufferedInput }
  match decoded.schema with
  | none => .ok { self with pending := self.pending ++ decoded.batch.toList }
  | some schema =>
      if self.schema.isSome ∧ self.schema ≠ some schema then
        .error "Arrow IPC stream contains multiple schemas"
      else .ok { self with
        schema := some schema
        pending := self.pending ++ decoded.batch.toList }

def pushChunk (arrow : ArrowIpc Schema Batch Writer Decoder)
    (self : DecodedIpcStream Schema Batch Decoder) (chunk : Bytes) :
    Except String (DecodedIpcStream Schema Batch Decoder) := do
  let (decoder, decoded) ← self.decoder.push arrow chunk
  self.accept decoder decoded

/-- `_read_next_chunk`. -/
def readNextChunk (arrow : ArrowIpc Schema Batch Writer Decoder)
    (self : DecodedIpcStream Schema Batch Decoder) :
    Except String (DecodedIpcStream Schema Batch Decoder) :=
  if self.decoderBuffered then self.pushChunk arrow []
  else
    match self.source with
    | [] => do
        let decoder ← self.decoder.finish arrow
        .ok { self with decoder, inputFinished := true }
    | chunk :: source => ({ self with source } : DecodedIpcStream _ _ _).pushChunk arrow chunk

/-- The loops of `__anext__` and `read_schema`: chunks are read until there is what the caller
waits for, or the input is finished. -/
def readUntil (arrow : ArrowIpc Schema Batch Writer Decoder)
    (enough : DecodedIpcStream Schema Batch Decoder → Bool) :
    ℕ → DecodedIpcStream Schema Batch Decoder →
      Except Failure (DecodedIpcStream Schema Batch Decoder)
  | 0, _ => .error .outOfFuel
  | fuel + 1, self =>
      if enough self || self.inputFinished then .ok self
      else do
        let self ← raised (self.readNextChunk arrow)
        readUntil arrow enough fuel self

def hasBatch (self : DecodedIpcStream Schema Batch Decoder) : Bool :=
  !self.pending.isEmpty

def hasSchema (self : DecodedIpcStream Schema Batch Decoder) : Bool :=
  self.schema.isSome

/-- `__anext__`, with `none` for `StopAsyncIteration`. -/
def next (arrow : ArrowIpc Schema Batch Writer Decoder) (fuel : ℕ)
    (self : DecodedIpcStream Schema Batch Decoder) :
    Except Failure (Option Batch × DecodedIpcStream Schema Batch Decoder) :=
  if self.closed then .ok (none, self)
  else do
    let self ← self.readUntil arrow hasBatch fuel
    match self.pending with
    | batch :: pending => .ok (some batch, { self with pending })
    | [] => .ok (none, { self with closed := true })

/-- `read_schema`. -/
def readSchema (arrow : ArrowIpc Schema Batch Writer Decoder) (fuel : ℕ)
    (self : DecodedIpcStream Schema Batch Decoder) :
    Except Failure (Schema × DecodedIpcStream Schema Batch Decoder) := do
  let self ← self.readUntil arrow hasSchema fuel
  match self.schema with
  | some schema => .ok (schema, self)
  | none => .error (.raised "Arrow IPC stream ended before its schema")

end DecodedIpcStream

/-- `decode_ipc_stream` over chunks, with the schema and all batches that the stream yields. -/
def decodeIpcStream [DecidableEq Schema] (arrow : ArrowIpc Schema Batch Writer Decoder)
    (chunks : List Bytes) (maxFrameBytes fuel : ℕ) : Except Failure (Schema × List Batch) := do
  let decoder ← raised (PyIpcDecoder.new arrow maxFrameBytes)
  let (schema, stream) ←
    DecodedIpcStream.readSchema arrow fuel ⟨chunks, decoder, none, [], false, false, false⟩
  let batches ← drain (DecodedIpcStream.next arrow fuel) fuel stream
  .ok (schema, batches)

/-! ## One call of the native decoder -/

variable {arrow : ArrowIpc Schema Batch Writer Decoder} {schema : Schema} {batches : List Batch}
  {frames : List Bytes} {read : Bytes} {yielded : List Batch} {self : PyIpcDecoder Decoder}

/-- The native decoder has read this start of the stream, and has yielded these batches. -/
structure Follows (arrow : ArrowIpc Schema Batch Writer Decoder) (frames : List Bytes)
    (read : Bytes) (yielded : List Batch) (receiver : PyIpcDecoder Decoder) : Prop where
  reads : arrow.Reads frames.flatten receiver.decoder read yielded
  onStream : read ++ receiver.pending.getD [] <+: frames.flatten
  pending_ne : receiver.pending ≠ some []
  emitted : (arrow.schema? receiver.decoder).isSome → receiver.schemaEmitted = true
  boundary : receiver.bytesSinceBoundary ≤ read.length
  room : frames.flatten.length ≤ receiver.maxFrameBytes
  unfinished : receiver.finished = false

variable {input : Bytes}

/-- A whole buffer fits into the room for a frame, so that arrow gets all of it. -/
theorem Follows.fits (hfollows : Follows arrow frames read yielded self)
    (hpending : self.pending = some input) :
    input ≠ [] ∧ self.bytesSinceBoundary + input.length ≤ self.maxFrameBytes := by
  refine ⟨fun hempty => hfollows.pending_ne (hempty ▸ hpending), ?_⟩
  have hlength := hfollows.onStream.length_le
  rw [hpending, List.length_append] at hlength
  have hboundary := hfollows.boundary
  have hroom := hfollows.room
  have hinput : ((some input).getD []).length = input.length := rfl
  omega

theorem decodeLoop_none (hpending : self.pending = none) (found : Option Schema) :
    self.decodeLoop arrow found = .ok (self, ⟨found, none, false⟩) := by
  rw [PyIpcDecoder.decodeLoop]
  split
  · rfl
  · rename_i input hsome
    rw [hpending] at hsome
    cases hsome

/-- The decoder rejects its input when nothing remains of the limit. -/
theorem decodeLoop_full (hpending : self.pending = some input)
    (hfull : self.maxFrameBytes ≤ self.bytesSinceBoundary) (found : Option Schema) :
    self.decodeLoop arrow found = .error frameTooLarge := by
  rw [PyIpcDecoder.decodeLoop]
  split
  · rename_i hnone
    rw [hpending] at hnone
    cases hnone
  · exact if_pos hfull

/-- One window. -/
theorem decodeLoop_window {left : Bytes} {decoder : Decoder} {batch : Option Batch} {take : ℕ}
    (hpending : self.pending = some input) (hroom : ¬ self.maxFrameBytes ≤ self.bytesSinceBoundary)
    (htake : min (self.maxFrameBytes - self.bytesSinceBoundary) input.length = take)
    (hdecode : arrow.decode self.decoder (input.take take) = .ok (decoder, batch, left))
    (found : Option Schema) :
    self.decodeLoop arrow found =
      let next := self.advance arrow decoder batch input (take - left.length)
      let found := self.announce arrow decoder found
      match batch with
      | some batch => .ok (next, ⟨found, some batch, next.pending.isSome⟩)
      | none =>
          if take - left.length = 0 then .error "Arrow IPC decoder made no progress"
          else next.decodeLoop arrow found := by
  rw [PyIpcDecoder.decodeLoop]
  split
  · rename_i hnone
    rw [hpending] at hnone
    cases hnone
  · rename_i other hsome
    rw [hpending] at hsome
    cases hsome
    simp only [htake, hdecode, if_neg hroom]
    cases batch <;> rfl

theorem pending_advance (decoder : Decoder) (batch : Option Batch) (input : Bytes) (consumed : ℕ) :
    (self.advance arrow decoder batch input consumed).pending.getD [] = input.drop consumed := by
  unfold PyIpcDecoder.advance
  by_cases hempty : input.drop consumed = []
  · rw [hempty]
    rfl
  · dsimp only
    rw [if_neg hempty]
    rfl

/-- What a call announces of the schema. -/
def Announces (schema : Schema) (before after : Bool) (found found' : Option Schema) : Prop :=
  (found' = found ∧ after = before) ∨ (found' = some schema ∧ before = false ∧ after = true)

theorem announces_of_schema {decoder : Decoder}
    (hschema : ∀ found, arrow.schema? decoder = some found → found = schema) (batch : Option Batch)
    (input : Bytes) (consumed : ℕ) (found : Option Schema) :
    Announces schema self.schemaEmitted
      (self.advance arrow decoder batch input consumed).schemaEmitted found
      (self.announce arrow decoder found) := by
  unfold Announces PyIpcDecoder.announce PyIpcDecoder.advance
  dsimp only
  by_cases hbefore : (arrow.schema? self.decoder).isNone
  · cases hafter : arrow.schema? decoder with
    | none => simp
    | some other =>
        rw [hschema other hafter, hbefore]
        cases self.schemaEmitted <;> simp
  · rw [Bool.not_eq_true] at hbefore
    simp [hbefore]

/-- One window of the native decoder: arrow's decoder uses some of it or yields a batch, and knows no
other schema. -/
structure Window (arrow : ArrowIpc Schema Batch Writer Decoder) (schema : Schema)
    (receiver : PyIpcDecoder Decoder) (input : Bytes) (decoder : Decoder) (batch : Option Batch)
    (used : Bytes) : Prop where
  room : ¬ receiver.maxFrameBytes ≤ receiver.bytesSinceBoundary
  decodes : ∀ take, min (receiver.maxFrameBytes - receiver.bytesSinceBoundary) input.length = take →
    ∃ left, arrow.decode receiver.decoder (input.take take) = .ok (decoder, batch, left) ∧
      take - left.length = used.length
  progress : batch = none → used ≠ []
  split : used ++ input.drop used.length = input
  schema_eq : ∀ found, arrow.schema? decoder = some found → found = schema

/-- With room for the whole stream a window is the whole input. -/
theorem Follows.window (hinverse : arrow.Inverse schema batches frames)
    (hfollows : Follows arrow frames read yielded self) (hpending : self.pending = some input) :
    ∃ decoder batch used, Window arrow schema self input decoder batch used ∧
      Follows arrow frames (read ++ used) (yielded ++ batch.toList)
        (self.advance arrow decoder batch input used.length) := by
  have honStream := hfollows.onStream
  rw [hpending] at honStream
  obtain ⟨hinput, hfits⟩ := hfollows.fits hpending
  have hpositive := List.length_pos_of_ne_nil hinput
  obtain ⟨decoder, batch, used, left, hdecode, hused, hleft⟩ :=
    hinverse.decodes hfollows.reads hinput honStream
  have hreads := ArrowIpc.Reads.decode hfollows.reads hinput honStream hdecode hused
  have hdrop : input.drop used.length = left := by
    rw [← hused, List.drop_left]
  have hbuffer : (self.advance arrow decoder batch input used.length).pending.getD [] = left := by
    rw [pending_advance, hdrop]
  refine ⟨decoder, batch, used, ⟨by omega, fun take htake => ⟨left, ?_, ?_⟩, ?_, ?_,
    fun _ hfound => hinverse.schema_eq hreads hfound⟩, ⟨hreads, ?_, ?_, ?_, ?_, hfollows.room,
    hfollows.unfinished⟩⟩
  · rw [← htake, Nat.min_eq_right (by omega), List.take_length]
    exact hdecode
  · rw [← htake, Nat.min_eq_right (by omega), ← hused, List.length_append, Nat.add_sub_cancel]
  · intro hnone hempty
    rw [hempty, hleft hnone] at hused
    exact hinput hused.symm
  · rw [hdrop]
    exact hused
  · rw [hbuffer, List.append_assoc, hused]
    exact honStream
  · simp only [PyIpcDecoder.advance, hdrop]
    by_cases hempty : left = []
    · simp [hempty]
    · simp [hempty]
  · intro hsome
    simp only [PyIpcDecoder.advance, Bool.or_eq_true]
    cases hbefore : arrow.schema? self.decoder with
    | none =>
        have hafter : (arrow.schema? decoder).isSome = true := hsome
        exact Or.inr (by simp [hafter])
    | some other => exact Or.inl (hfollows.emitted (by rw [hbefore]; rfl))
  · have hboundary := hfollows.boundary
    simp only [PyIpcDecoder.advance, List.length_append]
    split
    · omega
    · omega

/-! ## The end of the input and the stream -/

theorem finish_eq (hunfinished : self.finished = false) (hpending : self.pending = none) :
    self.finish arrow =
      ((arrow.finishDecoder self.decoder).mapError ipcError >>= fun _ =>
        .ok { self with finished := true }) := by
  have hdrained : rejectIf (self.pending.isSome = true)
      "Arrow IPC decoder has unconsumed input" = .ok () := by
    rw [rejectIf_eq_ok, hpending]
    exact Bool.false_ne_true
  unfold PyIpcDecoder.finish
  rw [if_neg (by rw [hunfinished]; exact Bool.false_ne_true), hdrained]
  rfl

variable [DecidableEq Schema] {stream : DecodedIpcStream Schema Batch Decoder}
  {decoded : DecodedChunk Schema Batch} {receiver : PyIpcDecoder Decoder}

theorem accept_spec
    (hschema : stream.schema = if stream.decoder.schemaEmitted then some schema else none)
    (hannounces : Announces schema stream.decoder.schemaEmitted receiver.schemaEmitted none
      decoded.schema) :
    stream.accept receiver decoded =
      .ok { stream with
        decoder := receiver
        decoderBuffered := decoded.hasBufferedInput
        schema := if receiver.schemaEmitted then some schema else none
        pending := stream.pending ++ decoded.batch.toList } := by
  unfold DecodedIpcStream.accept
  rcases hannounces with ⟨hfound, hemitted⟩ | ⟨hfound, hbefore, hemitted⟩
  · rw [hfound, hemitted, ← hschema]
  · rw [hbefore, if_neg Bool.false_ne_true] at hschema
    rw [hfound, hemitted]
    simp [hschema]

end ParqDB.Transport
