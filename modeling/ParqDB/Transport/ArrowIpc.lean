import ParqDB.Foundations.Chunks
import ParqDB.Foundations.Iterators

/-!
# The Arrow IPC encoder

The byte stream that the HTTP transport sends: `_IpcEncoder` of the extension (`src/ipc.rs`) and
`_EncodedIpcStream` over it (`transport/ipc.py`).  Arrow's own stream writer and decoder are a
parameter.

* `ArrowIpc`: the writer, which returns the frames it has written, and the decoder.
* `Reads`: what a decoder has read and yielded after calls of `decode` along a stream.
* `Inverse`: what the transport relies on.  It says nothing about chunks, of which only the
  transport knows.

**Results.** `encode_spec`: the encoder sends the frames one after the other, in chunks that are
not empty and not too long.
-/

namespace ParqDB.Transport

open Foundations

abbrev Bytes := List UInt8

/-! ## Arrow -/

/-- Arrow's `StreamWriter` and `StreamDecoder`.  A frame is an encapsulated message or the end
marker.  `decode` returns what it has left of its input. -/
structure ArrowIpc (Schema Batch Writer Decoder : Type) where
  schemaOf : Batch → Schema
  tryNew : Schema → Except String (Writer × List Bytes)
  write : Writer → Batch → Except String (Writer × List Bytes)
  finish : Writer → Except String (Writer × List Bytes)
  newDecoder : Decoder
  schema? : Decoder → Option Schema
  decode : Decoder → Bytes → Except String (Decoder × Option Batch × Bytes)
  finishDecoder : Decoder → Except String Unit

variable {Schema Batch Writer Decoder : Type}

namespace ArrowIpc

variable (arrow : ArrowIpc Schema Batch Writer Decoder)

/-- The frames that a writer still writes for these batches. -/
def writeRest (writer : Writer) : List Batch → Except String (List Bytes)
  | [] => do
      let (_, frames) ← arrow.finish writer
      .ok frames
  | batch :: batches => do
      let (writer, frames) ← arrow.write writer batch
      let rest ← writeRest writer batches
      .ok (frames ++ rest)

/-- The frames of a stream with these batches. -/
def writeStream (schema : Schema) (batches : List Batch) : Except String (List Bytes) := do
  let (writer, frames) ← arrow.tryNew schema
  let rest ← arrow.writeRest writer batches
  .ok (frames ++ rest)

/-- A decoder has read this start of a stream, and has yielded these batches. -/
inductive Reads (stream : Bytes) : Decoder → Bytes → List Batch → Prop
  | new : Reads stream arrow.newDecoder [] []
  | decode {decoder decoder' : Decoder} {read window used left : Bytes} {yielded : List Batch}
      {batch : Option Batch} (hreads : Reads stream decoder read yielded) (hwindow : window ≠ [])
      (hstream : read ++ window <+: stream)
      (hdecode : arrow.decode decoder window = .ok (decoder', batch, left))
      (hused : used ++ left = window) :
      Reads stream decoder' (read ++ used) (yielded ++ batch.toList)

end ArrowIpc

/-- The bytes end inside of a frame. -/
def CutsFrame (frames : List Bytes) (bytes : Bytes) : Prop :=
  ∃ before frame after kept, frames = before ++ frame :: after ∧ kept <+: frame ∧ kept ≠ [] ∧
    kept ≠ frame ∧ bytes = before.flatten ++ kept

/-- The decoder is the inverse of the writer on a stream.  `decode` uses its input up to the end
of the next batch or to the end of the input, and `finish` rejects a truncated message. -/
structure ArrowIpc.Inverse (arrow : ArrowIpc Schema Batch Writer Decoder) (schema : Schema)
    (batches : List Batch) (frames : List Bytes) : Prop where
  fresh : arrow.schema? arrow.newDecoder = none
  decodes : ∀ {decoder read yielded window}, arrow.Reads frames.flatten decoder read yielded →
    window ≠ [] → read ++ window <+: frames.flatten →
    ∃ decoder' batch used left, arrow.decode decoder window = .ok (decoder', batch, left) ∧
      used ++ left = window ∧ (batch = none → left = [])
  schema_eq : ∀ {decoder read yielded found}, arrow.Reads frames.flatten decoder read yielded →
    arrow.schema? decoder = some found → found = schema
  yields : ∀ {decoder read yielded}, arrow.Reads frames.flatten decoder read yielded →
    yielded <+: batches
  complete : ∀ {decoder yielded}, arrow.Reads frames.flatten decoder frames.flatten yielded →
    arrow.schema? decoder = some schema ∧ yielded = batches ∧
      arrow.finishDecoder decoder = .ok ()
  truncated : ∀ {decoder read yielded}, arrow.Reads frames.flatten decoder read yielded →
    CutsFrame frames read → ∃ error, arrow.finishDecoder decoder = .error error

variable {frames : List Bytes}

theorem CutsFrame.isPrefix {bytes : Bytes} (hcuts : CutsFrame frames bytes) :
    bytes <+: frames.flatten := by
  obtain ⟨before, frame, after, kept, rfl, ⟨left, rfl⟩, -, -, rfl⟩ := hcuts
  exact ⟨left ++ after.flatten, by simp⟩

/-! ## The encoder -/

def ipcError (error : String) : String :=
  "invalid Arrow IPC stream: " ++ error

def validatePositive (value : ℕ) (name : String) : Except String Unit :=
  rejectIf (value = 0) (name ++ " must be positive")

/-- `_IpcEncoder`.  `buffer` is the vector that the writer writes to. -/
structure PyIpcEncoder (Schema Writer : Type) where
  writer : Writer
  buffer : Bytes
  schema : Schema
  maxChunkBytes : ℕ
  finished : Bool

namespace PyIpcEncoder

def new (arrow : ArrowIpc Schema Batch Writer Decoder) (schema : Schema) (maxChunkBytes : ℕ) :
    Except String (PyIpcEncoder Schema Writer) := do
  validatePositive maxChunkBytes "max_chunk_bytes"
  let (writer, frames) ← (arrow.tryNew schema).mapError ipcError
  .ok ⟨writer, frames.flatten, schema, maxChunkBytes, false⟩

variable (self : PyIpcEncoder Schema Writer)

def takeChunks : PyIpcEncoder Schema Writer × List Bytes :=
  ({ self with buffer := [] }, chunksUpTo self.maxChunkBytes self.buffer)

def start : PyIpcEncoder Schema Writer × List Bytes :=
  self.takeChunks

def write [DecidableEq Schema] (arrow : ArrowIpc Schema Batch Writer Decoder) (batch : Batch) :
    Except String (PyIpcEncoder Schema Writer × List Bytes) := do
  rejectIf (self.finished = true) "Arrow IPC encoder is finished"
  rejectIf (arrow.schemaOf batch ≠ self.schema)
    "record batch schema does not match the Arrow IPC stream schema"
  let (writer, frames) ← (arrow.write self.writer batch).mapError ipcError
  .ok ({ self with writer, buffer := self.buffer ++ frames.flatten } : PyIpcEncoder _ _).takeChunks

def finish (arrow : ArrowIpc Schema Batch Writer Decoder) :
    Except String (PyIpcEncoder Schema Writer × List Bytes) :=
  if self.finished then .ok (self, [])
  else do
    let (writer, frames) ← (arrow.finish self.writer).mapError ipcError
    .ok ({ self with
      writer, buffer := self.buffer ++ frames.flatten, finished := true } :
        PyIpcEncoder _ _).takeChunks

end PyIpcEncoder

/-! ## The stream of chunks -/

/-- `_EncodedIpcStream`.  `source` has the batches that the query still yields. -/
structure EncodedIpcStream (Schema Batch Writer : Type) where
  source : List Batch
  encoder : PyIpcEncoder Schema Writer
  pending : List Bytes
  inputFinished : Bool
  closed : Bool

namespace EncodedIpcStream

def aclose (self : EncodedIpcStream Schema Batch Writer) : EncodedIpcStream Schema Batch Writer :=
  { self with closed := true, pending := [] }

variable [DecidableEq Schema]

/-- The rounds of the loop of `__anext__` until there is a chunk or the input has ended. -/
def refill (arrow : ArrowIpc Schema Batch Writer Decoder) (encoder : PyIpcEncoder Schema Writer) :
    List Batch → Except String (EncodedIpcStream Schema Batch Writer)
  | [] => do
      let (encoder, pending) ← encoder.finish arrow
      .ok ⟨[], encoder, pending, true, false⟩
  | batch :: source => do
      let (encoder, pending) ← encoder.write arrow batch
      if pending = [] then refill arrow encoder source
      else .ok ⟨source, encoder, pending, false, false⟩

/-- `__anext__`, with `none` for `StopAsyncIteration`. -/
def next (arrow : ArrowIpc Schema Batch Writer Decoder)
    (self : EncodedIpcStream Schema Batch Writer) :
    Except String (Option Bytes × EncodedIpcStream Schema Batch Writer) :=
  if self.closed then .ok (none, self)
  else
    match self.pending with
    | chunk :: pending => .ok (some chunk, { self with pending })
    | [] =>
        if self.inputFinished then .ok (none, self.aclose)
        else do
          let self ← refill arrow self.encoder self.source
          match self.pending with
          | chunk :: pending => .ok (some chunk, { self with pending })
          -- Only the end of the input leaves the loop without a chunk.
          | [] => .ok (none, self.aclose)

end EncodedIpcStream

/-- `encode_ipc_stream`, and all that the stream yields. -/
def encodeIpcStream [DecidableEq Schema] (arrow : ArrowIpc Schema Batch Writer Decoder)
    (schema : Schema) (batches : List Batch) (maxChunkBytes fuel : ℕ) :
    Except Failure (List Bytes) := do
  let encoder ← raised (PyIpcEncoder.new arrow schema maxChunkBytes)
  let (encoder, initial) := encoder.start
  drain (fun stream => raised (EncodedIpcStream.next arrow stream)) fuel ⟨batches, encoder, initial, false, false⟩

/-! ## What the encoder sends -/

variable {arrow : ArrowIpc Schema Batch Writer Decoder} {schema : Schema} {maxChunkBytes : ℕ}

/-- The sizes of chunks that may be sent. -/
def Sendable (maxChunkBytes : ℕ) (chunks : List Bytes) : Prop :=
  ∀ chunk ∈ chunks, chunk ≠ [] ∧ chunk.length ≤ maxChunkBytes

theorem Sendable.append {chunks others : List Bytes} (hchunks : Sendable maxChunkBytes chunks)
    (hothers : Sendable maxChunkBytes others) : Sendable maxChunkBytes (chunks ++ others) := by
  intro chunk hchunk
  rcases List.mem_append.mp hchunk with hchunk | hchunk
  · exact hchunks chunk hchunk
  · exact hothers chunk hchunk

/-- The encoder between two calls. -/
def PyIpcEncoder.between (writer : Writer) (schema : Schema) (maxChunkBytes : ℕ) (finished : Bool) :
    PyIpcEncoder Schema Writer :=
  ⟨writer, [], schema, maxChunkBytes, finished⟩

theorem takeChunks_spec (schema : Schema) (hpositive : 0 < maxChunkBytes) (writer : Writer) (buffer : Bytes)
    (finished : Bool) :
    ∃ chunks, (⟨writer, buffer, schema, maxChunkBytes, finished⟩ : PyIpcEncoder _ _).takeChunks =
        (.between writer schema maxChunkBytes finished, chunks) ∧
      chunks.flatten = buffer ∧ Sendable maxChunkBytes chunks :=
  ⟨_, rfl, flatten_chunksUpTo hpositive buffer, fun _ hchunk =>
    chunksUpTo_bounds hpositive hchunk⟩

variable [DecidableEq Schema]

theorem write_spec (hpositive : 0 < maxChunkBytes) {writer writer' : Writer} {batch : Batch}
    (hschema : arrow.schemaOf batch = schema)
    (hwrite : arrow.write writer batch = .ok (writer', frames)) :
    ∃ chunks, (PyIpcEncoder.between writer schema maxChunkBytes false).write arrow batch =
        .ok (.between writer' schema maxChunkBytes false, chunks) ∧
      chunks.flatten = frames.flatten ∧ Sendable maxChunkBytes chunks := by
  obtain ⟨chunks, htake, hflatten, hsizes⟩ :=
    takeChunks_spec schema hpositive writer' frames.flatten false
  refine ⟨chunks, ?_, hflatten, hsizes⟩
  unfold PyIpcEncoder.write
  rw [seq_eq_ok, rejectIf_eq_ok]
  refine ⟨Bool.false_ne_true, ?_⟩
  rw [rejectIf_bind_eq_ok]
  refine ⟨not_not_intro hschema, ?_⟩
  show ((arrow.write writer batch).mapError ipcError >>= _) = _
  rw [hwrite]
  exact congrArg Except.ok htake

omit [DecidableEq Schema] in
theorem finish_spec (schema : Schema) (hpositive : 0 < maxChunkBytes) {writer writer' : Writer}
    (hfinish : arrow.finish writer = .ok (writer', frames)) :
    ∃ chunks, (PyIpcEncoder.between writer schema maxChunkBytes false).finish arrow =
        .ok (.between writer' schema maxChunkBytes true, chunks) ∧
      chunks.flatten = frames.flatten ∧ Sendable maxChunkBytes chunks := by
  obtain ⟨chunks, htake, hflatten, hsizes⟩ :=
    takeChunks_spec schema hpositive writer' frames.flatten true
  refine ⟨chunks, ?_, hflatten, hsizes⟩
  show ((arrow.finish writer).mapError ipcError >>= _) = _
  rw [hfinish]
  exact congrArg Except.ok htake

/-- What the transport iterates over. -/
abbrev nextChunk (arrow : ArrowIpc Schema Batch Writer Decoder) (_fuel : ℕ)
    (stream : EncodedIpcStream Schema Batch Writer) :
    Except Failure (Option Bytes × EncodedIpcStream Schema Batch Writer) :=
  raised (stream.next arrow)

variable {source : List Batch}

theorem nextChunk_pending {encoder : PyIpcEncoder Schema Writer}
    {chunk : Bytes} {pending : List Bytes} {inputFinished : Bool} (fuel : ℕ) :
    nextChunk arrow fuel ⟨source, encoder, chunk :: pending, inputFinished, false⟩ =
      .ok (some chunk, ⟨source, encoder, pending, inputFinished, false⟩) := rfl

/-- Chunks that are there already come first. -/
theorem drains_pending {encoder : PyIpcEncoder Schema Writer}
    (pending : List Bytes) {chunks : List Bytes} {inputFinished : Bool}
    (hrest : Drains (nextChunk arrow) ⟨source, encoder, [], inputFinished, false⟩ (.ok chunks)) :
    Drains (nextChunk arrow) ⟨source, encoder, pending, inputFinished, false⟩
      (.ok (pending ++ chunks)) := by
  induction pending with
  | nil => exact hrest
  | cons chunk pending ih => exact Drains.cons 0 (fun fuel _ => nextChunk_pending fuel) ih

theorem drains_finished (source : List Batch) (encoder : PyIpcEncoder Schema Writer) :
    Drains (nextChunk arrow) ⟨source, encoder, [], true, false⟩ (.ok []) :=
  Drains.stop 0 fun _ _ => rfl

/-- The encoder sends what the writer still writes. -/
theorem rest_spec (hpositive : 0 < maxChunkBytes)
    (hsource : ∀ batch ∈ source, arrow.schemaOf batch = schema) {writer : Writer}
    {rest : List Bytes} (hrest : arrow.writeRest writer source = .ok rest) :
    ∃ chunks, Drains (nextChunk arrow)
        ⟨source, .between writer schema maxChunkBytes false, [], false, false⟩ (.ok chunks) ∧
      chunks.flatten = rest.flatten ∧ Sendable maxChunkBytes chunks := by
  induction source generalizing writer rest with
  | nil =>
      rw [ArrowIpc.writeRest] at hrest
      obtain ⟨⟨writer', frames⟩, hfinish, hrest⟩ := bind_eq_ok.mp hrest
      cases hrest
      obtain ⟨chunks, hchunks, hflatten, hsizes⟩ := finish_spec schema hpositive hfinish
      have hrefill : EncodedIpcStream.refill arrow
          (.between writer schema maxChunkBytes false) [] =
            .ok ⟨[], .between writer' schema maxChunkBytes true, chunks, true, false⟩ := by
        rw [EncodedIpcStream.refill, hchunks]
        rfl
      refine ⟨chunks, ?_, hflatten, hsizes⟩
      cases chunks with
      | nil =>
          apply Drains.stop 0
          intro fuel hfuel
          show raised (EncodedIpcStream.refill arrow _ [] >>= _) = _
          rw [hrefill]
          rfl
      | cons chunk chunks =>
          have hlast : Drains (nextChunk arrow)
              ⟨[], .between writer' schema maxChunkBytes true, chunks, true, false⟩
              (.ok (chunks ++ [])) :=
            drains_pending chunks (drains_finished [] _)
          rw [List.append_nil] at hlast
          refine Drains.cons 0 (fun fuel hfuel => ?_) hlast
          show raised (EncodedIpcStream.refill arrow _ [] >>= _) = _
          rw [hrefill]
          rfl
  | cons batch source ih =>
      rw [ArrowIpc.writeRest] at hrest
      obtain ⟨⟨writer', frames⟩, hwrite, hrest⟩ := bind_eq_ok.mp hrest
      obtain ⟨later, hlater, hrest⟩ := bind_eq_ok.mp hrest
      cases hrest
      obtain ⟨chunks, hchunks, hflatten, hsizes⟩ :=
        write_spec hpositive (hsource batch List.mem_cons_self) hwrite
      obtain ⟨others, hdrains, hothers, hothersizes⟩ :=
        ih (fun other hother => hsource other (List.mem_cons_of_mem _ hother)) hlater
      refine ⟨chunks ++ others, ?_, by simp [hflatten, hothers], hsizes.append hothersizes⟩
      have hrefill : EncodedIpcStream.refill arrow
          (.between writer schema maxChunkBytes false) (batch :: source) =
            if chunks = [] then
              EncodedIpcStream.refill arrow (.between writer' schema maxChunkBytes false) source
            else .ok ⟨source, .between writer' schema maxChunkBytes false, chunks, false, false⟩ := by
        rw [EncodedIpcStream.refill, hchunks]
        rfl
      cases chunks with
      | nil =>
          -- A batch without a chunk leaves the loop going.
          refine Drains.congr 0 (fun fuel _ => ?_) hdrains
          show raised (EncodedIpcStream.refill arrow _ (batch :: source) >>= _) =
            raised (EncodedIpcStream.refill arrow _ source >>= _)
          rw [hrefill]
          rfl
      | cons chunk chunks =>
          refine Drains.cons 0 (fun fuel hfuel => ?_) (drains_pending chunks hdrains)
          show raised (EncodedIpcStream.refill arrow _ (batch :: source) >>= _) = _
          rw [hrefill]
          rfl

/-- The encoder sends the frames of a stream one after the other, in chunks that may be sent. -/
theorem encode_spec {batches : List Batch} (hpositive : 0 < maxChunkBytes)
    (hbatches : ∀ batch ∈ batches, arrow.schemaOf batch = schema)
    (hwritten : arrow.writeStream schema batches = .ok frames) :
    ∃ chunks, (∃ least, ∀ fuel ≥ least,
        encodeIpcStream arrow schema batches maxChunkBytes fuel = .ok chunks) ∧
      chunks.flatten = frames.flatten ∧ Sendable maxChunkBytes chunks := by
  rw [ArrowIpc.writeStream] at hwritten
  obtain ⟨⟨writer, head⟩, hnew, hwritten⟩ := bind_eq_ok.mp hwritten
  obtain ⟨rest, hrest, hwritten⟩ := bind_eq_ok.mp hwritten
  cases hwritten
  obtain ⟨initial, htake, hinitial, hsizes⟩ :=
    takeChunks_spec schema hpositive writer head.flatten false
  obtain ⟨others, hdrains, hothers, hothersizes⟩ := rest_spec hpositive hbatches hrest
  obtain ⟨least, hdrain⟩ := drains_pending initial hdrains
  refine ⟨initial ++ others, ⟨least, ?_⟩, by simp [hinitial, hothers], hsizes.append hothersizes⟩
  intro fuel hfuel
  have hencoder : PyIpcEncoder.new arrow schema maxChunkBytes =
      .ok ⟨writer, head.flatten, schema, maxChunkBytes, false⟩ := by
    unfold PyIpcEncoder.new
    rw [seq_eq_ok]
    refine ⟨rejectIf_eq_ok.mpr (by omega), ?_⟩
    rw [hnew]
    rfl
  have hstart : (⟨writer, head.flatten, schema, maxChunkBytes, false⟩ :
      PyIpcEncoder _ _).start = (.between writer schema maxChunkBytes false, initial) := htake
  unfold encodeIpcStream
  rw [hencoder]
  show drain _ fuel (EncodedIpcStream.mk batches (PyIpcEncoder.start _).1
    (PyIpcEncoder.start _).2 false false) = _
  rw [hstart]
  exact hdrain fuel hfuel fuel hfuel

end ParqDB.Transport
