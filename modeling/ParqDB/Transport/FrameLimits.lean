import ParqDB.Transport.Rounds

/-!
# The limit of a frame

`max_frame_bytes` of `_IpcDecoder` (`src/ipc.rs`): `bytes_since_boundary` counts the bytes since the
last boundary, and no window for arrow's decoder is longer than what remains of the limit.

**What goes wrong.**  Arrow's decoder handles a message without a body at the byte after it.  The
schema message is one, so that the window that announces the schema goes beyond it: the counter
starts again at the end of this window, and what the window has of the first batch is never counted.
For the same reason a schema message of `max_frame_bytes` bytes is too large, and so is a later
batch without a body.

**Strategy.**  `Meter` says how many bytes of a frame were not counted and whether the rest of the
stream exceeds the limit as it is counted; a call of arrow's `decode` keeps it (`Meter.batch`,
`Meter.window`), and the rounds of the decoder settle accordingly (`steady_metered` in
`LimitedDecoding`).
-/

namespace ParqDB.Transport

open Foundations

/-! ## Streams -/

/-- The bytes from the end of one frame to the end of the next record batch, and whether the message
of this batch has a body. -/
structure Frame where
  bytes : Bytes
  hasBody : Bool
  bytes_pos : 0 < bytes.length

/-- The bytes with which arrow's decoder yields the batch. -/
def Frame.size (frame : Frame) : ℕ :=
  frame.bytes.length + if frame.hasBody then 0 else 1

/-- A stream: the schema message, the record batches, and the end marker, if there is one, which is
no longer than the head of a message. -/
structure FramedStream where
  schemaMessage : Bytes
  frames : List Frame
  marker : Bytes
  schemaMessage_pos : 0 < schemaMessage.length
  marker_le : marker.length ≤ schemaMessage.length

def framesBytes (frames : List Frame) : Bytes := (frames.map Frame.bytes).flatten

namespace FramedStream

variable (stream : FramedStream)

def bytes : Bytes := stream.schemaMessage ++ framesBytes stream.frames ++ stream.marker

/-- The length of the schema message. -/
def head : ℕ := stream.schemaMessage.length

/-- The end of the frames before this one. -/
def start (index : ℕ) : ℕ := stream.head + (framesBytes (stream.frames.take index)).length

/-- The position at which arrow's decoder yields this batch. -/
def due? (index : ℕ) : Option ℕ :=
  stream.frames[index]?.map fun frame => stream.start index + frame.size

/-- The last message is handled: an end marker comes after it, or it has a body. -/
def Ends : Prop := stream.marker ≠ [] ∨ ∃ frame ∈ stream.frames.getLast?, frame.hasBody = true

instance : Decidable stream.Ends := inferInstanceAs (Decidable (_ ∨ _))

/-- A frame has more bytes than the limit. -/
def TooLarge (maxFrameBytes : ℕ) : Prop :=
  maxFrameBytes < stream.head ∨ ∃ frame ∈ stream.frames, maxFrameBytes < frame.bytes.length

end FramedStream

variable {Schema Batch Writer Decoder : Type}

/-- Arrow's decoder on a stream.  It handles the schema message, which has no body, at the byte
after it; `decode` uses its input up to the end of the next batch, which it yields at the end of its
body or else at the byte after it, or to the end of the input; and `finish` takes a stream whose
last message is handled. -/
structure ArrowIpc.Decodes (arrow : ArrowIpc Schema Batch Writer Decoder) (schema : Schema)
    (stream : FramedStream) : Prop where
  schema_eq : ∀ {decoder read yielded}, arrow.Reads stream.bytes decoder read yielded →
    arrow.schema? decoder = if stream.head < read.length then some schema else none
  decodes : ∀ {decoder read yielded window}, arrow.Reads stream.bytes decoder read yielded →
    window ≠ [] → read ++ window <+: stream.bytes →
    ∃ decoder' batch used left, arrow.decode decoder window = .ok (decoder', batch, left) ∧
      used ++ left = window ∧
      ((∃ due, stream.due? yielded.length = some due ∧ due ≤ read.length + window.length ∧
          batch.isSome = true ∧ read.length + used.length = stream.start (yielded.length + 1)) ∨
        ((∀ due, stream.due? yielded.length = some due → read.length + window.length < due) ∧
          batch = none ∧ left = []))
  finishes : ∀ {decoder yielded}, arrow.Reads stream.bytes decoder stream.bytes yielded →
    (stream.Ends → arrow.finishDecoder decoder = .ok ()) ∧
      (¬ stream.Ends → ∃ error, arrow.finishDecoder decoder = .error error)

/-! ## What is counted -/

/-- The decoder needs more bytes than the limit for some batch, if so many bytes of the first one
are not counted. -/
def Exceeds (maxFrameBytes uncounted : ℕ) : List Frame → Prop
  | [] => False
  | frame :: frames =>
      maxFrameBytes < frame.size - uncounted ∨ ∃ later ∈ frames, maxFrameBytes < later.size

/-- The end of the chunk with the last of so many bytes. -/
def chunkEnd : List Bytes → ℕ → ℕ
  | [], _ => 0
  | chunk :: chunks, bytes =>
      if bytes ≤ chunk.length then chunk.length
      else chunk.length + chunkEnd chunks (bytes - chunk.length)

namespace FramedStream

variable (stream : FramedStream)

/-- The end of the window that has the byte after the schema message. -/
def windowEnd (maxFrameBytes : ℕ) (chunks : List Bytes) : ℕ :=
  min maxFrameBytes (chunkEnd chunks (stream.head + 1))

/-- Only the first batch is too large, and by no more than what the window of the schema has of
it. -/
def Undercounted (maxFrameBytes : ℕ) (chunks : List Bytes) : Prop :=
  stream.Ends ∧ stream.head < maxFrameBytes ∧ ∃ first frames, stream.frames = first :: frames ∧
    maxFrameBytes < first.bytes.length ∧
    first.size ≤ maxFrameBytes + (stream.windowEnd maxFrameBytes chunks - stream.head) ∧
    ∀ frame ∈ frames, frame.size ≤ maxFrameBytes

/-- No frame is too large, but the last message is not handled, or the schema message or a later
batch without a body has as many bytes as the limit. -/
def Overcounted (maxFrameBytes : ℕ) : Prop :=
  ¬ stream.TooLarge maxFrameBytes ∧ (¬ stream.Ends ∨ stream.head = maxFrameBytes ∨
    ∃ frame ∈ stream.frames.tail, frame.hasBody = false ∧ frame.bytes.length = maxFrameBytes)

def Counted (maxFrameBytes : ℕ) (chunks : List Bytes) : Prop :=
  ¬ stream.Undercounted maxFrameBytes chunks ∧ ¬ stream.Overcounted maxFrameBytes

end FramedStream

variable {stream : FramedStream} {maxFrameBytes index : ℕ} {frame : Frame}

theorem exceeds_zero (frames : List Frame) :
    Exceeds maxFrameBytes 0 frames ↔ ∃ frame ∈ frames, maxFrameBytes < frame.size := by
  cases frames with
  | nil => simp [Exceeds]
  | cons frame frames => rw [Exceeds, Nat.sub_zero, List.exists_mem_cons_iff]

/-- The frames from this one on. -/
theorem drop_frames (hframe : stream.frames[index]? = some frame) :
    stream.frames.drop index = frame :: stream.frames.drop (index + 1) := by
  obtain ⟨hindex, rfl⟩ := List.getElem?_eq_some_iff.mp hframe
  exact List.drop_eq_getElem_cons hindex

theorem start_succ (hframe : stream.frames[index]? = some frame) :
    stream.start (index + 1) = stream.start index + frame.bytes.length := by
  unfold FramedStream.start framesBytes
  rw [List.take_add_one, hframe]
  simp [Nat.add_assoc]

theorem head_le_start (index : ℕ) : stream.head ≤ stream.start index :=
  Nat.le_add_right _ _

/-- The bytes of a stream, before and after the end of some frames. -/
theorem length_bytes (index : ℕ) : stream.bytes.length = stream.start index +
    (framesBytes (stream.frames.drop index)).length + stream.marker.length := by
  have hsplit : framesBytes stream.frames =
      framesBytes (stream.frames.take index) ++ framesBytes (stream.frames.drop index) := by
    unfold framesBytes
    rw [← List.flatten_append, ← List.map_append, List.take_append_drop]
  rw [FramedStream.bytes, List.length_append, List.length_append, hsplit, List.length_append,
    FramedStream.start, FramedStream.head]
  omega

theorem due_of_frame (hframe : stream.frames[index]? = some frame) :
    stream.due? index = some (stream.start index + frame.size) := by
  rw [FramedStream.due?, hframe, Option.map_some]

variable {due : ℕ}

theorem exists_frame (hdue : stream.due? index = some due) :
    ∃ frame, stream.frames[index]? = some frame ∧ due = stream.start index + frame.size := by
  obtain ⟨frame, hframe, rfl⟩ := Option.map_eq_some_iff.mp hdue
  exact ⟨frame, hframe, rfl⟩

/-- A batch is due after the end of the frame before it. -/
theorem start_lt_due (hdue : stream.due? index = some due) : stream.start index < due := by
  obtain ⟨frame, -, rfl⟩ := exists_frame hdue
  have hpositive := frame.bytes_pos
  unfold Frame.size
  omega

/-- With its last message handled, a stream has all bytes that its batches are due at. -/
theorem due_le_length (hends : stream.Ends) (hdue : stream.due? index = some due) :
    due ≤ stream.bytes.length := by
  obtain ⟨frame, hframe, rfl⟩ := exists_frame hdue
  have hstart := start_succ hframe
  have hlength := @length_bytes stream (index + 1)
  cases hbody : frame.hasBody with
  | true =>
      simp only [Frame.size, hbody, if_true]
      omega
  | false =>
      simp only [Frame.size, hbody, Bool.false_eq_true, if_false]
      rcases hends with hmarker | ⟨last, hlast, hlastBody⟩
      · have hpositive := List.length_pos_of_ne_nil hmarker
        omega
      · -- the last frame has a body, so that there is another frame
        cases hrest : stream.frames.drop (index + 1) with
        | nil =>
            have hsame : stream.frames.getLast? = some frame := by
              have hdrop := drop_frames hframe
              rw [hrest] at hdrop
              rw [← List.take_append_drop index stream.frames, hdrop, List.getLast?_concat]
            rw [Option.mem_def, hsame, Option.some.injEq] at hlast
            rw [← hlast, hbody] at hlastBody
            cases hlastBody
        | cons other others =>
            have hother := other.bytes_pos
            rw [hrest] at hlength
            simp only [framesBytes, List.map_cons, List.flatten_cons, List.length_append]
              at hlength
            omega

theorem head_lt_length (hends : stream.Ends) : stream.head < stream.bytes.length := by
  cases hframe : stream.frames[0]? with
  | some frame =>
      have hdue := due_of_frame hframe
      have hlt := start_lt_due hdue
      have hle := due_le_length hends hdue
      have hhead := @head_le_start stream 0
      omega
  | none =>
      rw [List.getElem?_eq_none_iff, Nat.le_zero, List.length_eq_zero_iff] at hframe
      have hlength := @length_bytes stream 0
      have hhead := @head_le_start stream 0
      rcases hends with hmarker | ⟨last, hlast, -⟩
      · have hpositive := List.length_pos_of_ne_nil hmarker
        omega
      · rw [hframe] at hlast
        cases hlast

theorem chunkEnd_drop {chunk : Bytes} {chunks : List Bytes} {used bytes : ℕ}
    (hused : used ≤ chunk.length) (hbytes : used < bytes) :
    used + chunkEnd (chunk.drop used :: chunks) (bytes - used) =
      chunkEnd (chunk :: chunks) bytes := by
  rw [chunkEnd, chunkEnd, List.length_drop]
  by_cases hinside : bytes ≤ chunk.length
  · rw [if_pos hinside, if_pos (by omega)]
    omega
  · rw [if_neg hinside, if_neg (by omega)]
    have hsame : bytes - used - (chunk.length - used) = bytes - chunk.length := by omega
    rw [hsame]
    omega

variable {chunks : List Bytes}

theorem le_chunkEnd {bytes : ℕ} (hbytes : bytes ≤ chunks.flatten.length) :
    bytes ≤ chunkEnd chunks bytes := by
  induction chunks generalizing bytes with
  | nil => exact hbytes
  | cons chunk chunks ih =>
      rw [List.flatten_cons, List.length_append] at hbytes
      rw [chunkEnd]
      split
      · assumption
      · have hrest := @ih (bytes - chunk.length) (by omega)
        omega

theorem chunkEnd_nil {bytes : ℕ} (hbytes : 0 < bytes) :
    chunkEnd ([] :: chunks) bytes = chunkEnd chunks bytes := by
  rw [chunkEnd, if_neg (by simpa using Nat.ne_of_gt hbytes), List.length_nil, Nat.zero_add,
    Nat.sub_zero]

/-! ## The counter -/

/-- The counter at a position of the stream from which this batch is the next, and whether the
decoder will reject the rest: while the schema message is read, and after that. -/
def Meter (stream : FramedStream) (maxFrameBytes : ℕ) (rejects : Prop)
    (position index counter : ℕ) (chunks : List Bytes) : Prop :=
  (position ≤ stream.head ∧ index = 0 ∧ counter = position ∧
    (rejects ↔ ¬ stream.Ends ∨ maxFrameBytes ≤ stream.head ∨ Exceeds maxFrameBytes
      (min maxFrameBytes (position + chunkEnd chunks (stream.head + 1 - position)) - stream.head)
      stream.frames)) ∨
  (stream.head < position ∧ stream.head < maxFrameBytes ∧ index ≤ stream.frames.length ∧
    (∀ due, stream.due? index = some due → position < due) ∧ ∃ uncounted,
    stream.start index + uncounted + counter = position ∧
    (rejects ↔ ¬ stream.Ends ∨ Exceeds maxFrameBytes uncounted (stream.frames.drop index)))

variable {rejects : Prop} {position counter : ℕ} {input : Bytes} {source : List Bytes}

theorem Meter.skip
    (hmeter : Meter stream maxFrameBytes rejects position index counter ([] :: source)) :
    Meter stream maxFrameBytes rejects position index counter source := by
  rcases hmeter with ⟨hbefore, hindex, hcounter, hrejects⟩ | hafter
  · rw [chunkEnd_nil (by omega)] at hrejects
    exact .inl ⟨hbefore, hindex, hcounter, hrejects⟩
  · exact .inr hafter

theorem Meter.index_le (hmeter : Meter stream maxFrameBytes rejects position index counter chunks) :
    index ≤ stream.frames.length := by
  rcases hmeter with ⟨-, rfl, -, -⟩ | ⟨-, -, hindex, -⟩
  · exact Nat.zero_le _
  · exact hindex

section

variable (hmeter : Meter stream maxFrameBytes rejects position index counter (input :: source))

include hmeter

/-- When nothing remains of the limit, a frame is too large. -/
theorem Meter.full
    (hfull : maxFrameBytes ≤ counter) (hinput : position < stream.bytes.length) : rejects := by
  rcases hmeter with ⟨hbefore, -, hcounter, hrejects⟩ |
    ⟨-, hlimit, hindex, hnone, uncounted, hposition, hrejects⟩
  · exact hrejects.mpr (.inr (.inl (by omega)))
  · rw [hrejects]
    cases hframe : stream.frames[index]? with
    | none =>
        -- only the end marker is left, which is shorter than the limit
        have hlength := @length_bytes stream index
        have hmarker := stream.marker_le
        rw [List.drop_eq_nil_of_le (List.getElem?_eq_none_iff.mp hframe)] at hlength
        have hhead : stream.head = stream.schemaMessage.length := rfl
        have hnil : (framesBytes []).length = 0 := rfl
        omega
    | some frame =>
        have hlater := hnone _ (due_of_frame hframe)
        rw [drop_frames hframe]
        exact .inr (.inl (by omega))

/-- A window that yields a batch. -/
theorem Meter.batch (hroom : counter < maxFrameBytes) (hdue : stream.due? index = some due)
    (hle : due ≤ position + min (maxFrameBytes - counter) input.length) (chunks : List Bytes) :
    Meter stream maxFrameBytes rejects (stream.start (index + 1)) (index + 1) 0 chunks := by
  have hstart := start_lt_due hdue
  obtain ⟨frame, hframe, rfl⟩ := exists_frame hdue
  have hpositive := frame.bytes_pos
  have hnext := start_succ hframe
  have hhead := @head_le_start stream index
  have hindex : index < stream.frames.length := (List.getElem?_eq_some_iff.mp hframe).choose
  -- the batch itself does not exceed the limit as it is counted
  have hrest : ∀ uncounted, frame.size ≤ maxFrameBytes + uncounted →
      (Exceeds maxFrameBytes uncounted (stream.frames.drop index) ↔
        Exceeds maxFrameBytes 0 (stream.frames.drop (index + 1))) := by
    intro uncounted hcounted
    rw [drop_frames hframe, Exceeds, exceeds_zero]
    exact or_iff_right (by omega)
  refine .inr ⟨by omega, ?_, hindex, fun due hdue => start_lt_due hdue, 0, rfl, ?_⟩
  · rcases hmeter with ⟨hbefore, -, hcounter, -⟩ | ⟨-, hlimit, -⟩
    · omega
    · exact hlimit
  · rcases hmeter with ⟨hbefore, rfl, hcounter, hrejects⟩ |
      ⟨-, -, -, -, uncounted, hposition, hrejects⟩
    · have hzero : stream.start 0 = stream.head := rfl
      have hend : chunkEnd (input :: source) (stream.head + 1 - position) = input.length := by
        rw [chunkEnd, if_pos (by omega)]
      rw [hrejects, hend, or_iff_right (a := maxFrameBytes ≤ stream.head) (by omega)]
      exact or_congr_right (hrest _ (by omega))
    · rw [hrejects]
      exact or_congr_right (hrest uncounted (by omega))

/-- A window that is used up without a batch; the counter starts again if it has the schema. -/
theorem Meter.window (hroom : counter < maxFrameBytes) {taken : ℕ}
    (htaken : taken = min (maxFrameBytes - counter) input.length)
    (hnone : ∀ due, stream.due? index = some due → position + taken < due) :
    Meter stream maxFrameBytes rejects (position + taken) index
      (if position ≤ stream.head ∧ stream.head < position + taken then 0 else counter + taken)
      (input.drop taken :: source) := by
  rcases hmeter with ⟨hbefore, rfl, hcounter, hrejects⟩ |
    ⟨hafter, hlimit, hindex, -, uncounted, hposition, hrejects⟩
  · by_cases hcrosses : stream.head < position + taken
    · -- the schema appears, and the rest of the window is not counted
      have hend : chunkEnd (input :: source) (stream.head + 1 - position) = input.length := by
        rw [chunkEnd, if_pos (by omega)]
      have hwindow : min maxFrameBytes (position + input.length) = position + taken := by omega
      rw [if_pos ⟨hbefore, hcrosses⟩]
      refine .inr ⟨hcrosses, by omega, Nat.zero_le _, hnone, position + taken - stream.head, ?_, ?_⟩
      · have hzero : stream.start 0 = stream.head := rfl
        omega
      · rw [hrejects, hend, hwindow]
        exact or_congr_right (or_iff_right (by omega))
    · rw [if_neg fun hboth => hcrosses hboth.2]
      refine .inl ⟨by omega, rfl, by omega, ?_⟩
      have hend := @chunkEnd_drop input source taken (stream.head + 1 - position) (by omega)
        (by omega)
      rw [hrejects, ← hend, Nat.sub_sub, Nat.add_assoc]
  · rw [if_neg fun hboth => absurd hboth.1 (Nat.not_le.mpr hafter)]
    exact .inr ⟨by omega, hlimit, hindex, hnone, uncounted, by omega, hrejects⟩

end

end ParqDB.Transport
